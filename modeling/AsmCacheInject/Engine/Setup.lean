import AsmCacheInject.Data.Word
import AsmCacheInject.Error
import AsmCacheInject.Flush.Sync

namespace AsmCacheInject.Engine

open AsmCacheInject.Data.Word
open AsmCacheInject.Flush

/-! Configuration, validation and the immutable part of a constructed engine.
`usize` and `u64` are `UInt64`, so products wrap as in a release build. -/

def pageAlignment : UInt64 := 4096

structure CacheConfig where
  devicePath : String
  cacheSizeMb : UInt64
  blockSize : UInt64
  flushIntervalSecs : UInt64
  dirtyWatermark : Watermark
  readOnly : Bool

def defaultDirtyWatermark : Watermark where
  inUnitInterval := true
  display := "0.75"
  reached := fun dirtyCount totalCount => 3 * totalCount ≤ 4 * dirtyCount

namespace CacheConfig

def new (devicePath : String) : CacheConfig where
  devicePath := devicePath
  cacheSizeMb := 256
  blockSize := 4096
  flushIntervalSecs := 5
  dirtyWatermark := defaultDirtyWatermark
  readOnly := false

def cacheSizeBytes (config : CacheConfig) : UInt64 :=
  config.cacheSizeMb * 1024 * 1024

def blockCount (config : CacheConfig) : UInt64 :=
  config.cacheSizeBytes / config.blockSize

def validate (config : CacheConfig) : Except CacheError Unit :=
  if config.devicePath = "" then
    .error (.config "device_path must not be empty")
  else if config.cacheSizeMb = 0 then
    .error (.config "cache_size_mb must be > 0")
  else if config.blockSize = 0 ∨ config.blockSize % pageAlignment ≠ 0 then
    .error (.config ("block_size (" ++ toString config.blockSize ++
      ") must be a non-zero multiple of " ++ toString pageAlignment))
  else if config.cacheSizeBytes % config.blockSize ≠ 0 then
    .error (.config ("cache_size (" ++ toString config.cacheSizeMb ++
      " MiB = " ++ toString config.cacheSizeBytes ++
      " bytes) must be a multiple of block_size (" ++
      toString config.blockSize ++ ")"))
  else if ¬config.dirtyWatermark.inUnitInterval then
    .error (.config ("dirty_watermark (" ++ config.dirtyWatermark.display ++
      ") must be in [0.0, 1.0]"))
  else if config.flushIntervalSecs = 0 then
    .error (.config "flush_interval_secs must be > 0")
  else .ok ()

end CacheConfig

/-- `AlignedBuffer::new` up to the allocation itself, whose outcome is
`allocated`.  A layout may not exceed `isize::MAX` after rounding up. -/
def alignedBufferNew (allocated : Bool) (size : UInt64) : Except CacheError Unit :=
  if size = 0 then
    .error (.allocation "requested size is zero")
  else if size % pageAlignment ≠ 0 then
    .error (.allocation ("size (" ++ toString size ++
      ") must be a multiple of " ++ toString pageAlignment))
  else if 2 ^ 63 - 4096 < size.toNat then
    .error (.allocation
      "invalid layout: invalid parameters to Layout::from_size_align")
  else if ¬allocated then
    .error (.allocation ("allocator returned null for " ++ toString size ++
      " bytes @ " ++ toString pageAlignment ++ "-byte alignment"))
  else .ok ()

structure PoolShape where
  blockSize : Nat
  capacity : Nat
  blockSize_pos : 0 < blockSize
  page_dvd : 4096 ∣ blockSize
  capacity_pos : 0 < capacity

def memoryPoolNew (allocated : Bool) (totalSize blockSize : UInt64) :
    Except CacheError PoolShape :=
  if hblock : blockSize = 0 ∨ blockSize % pageAlignment ≠ 0 then
    .error (.config ("block_size (" ++ toString blockSize ++
      ") must be a non-zero multiple of " ++ toString pageAlignment))
  else if htotal : totalSize = 0 ∨ totalSize % blockSize ≠ 0 then
    .error (.config ("total_size (" ++ toString totalSize ++
      ") must be a non-zero multiple of block_size (" ++
      toString blockSize ++ ")"))
  else
    match alignedBufferNew allocated totalSize with
    | .error error => .error error
    | .ok () =>
        .ok {
          blockSize := blockSize.toNat
          capacity := (totalSize / blockSize).toNat
          blockSize_pos := toNat_pos_of_ne_zero (not_or.mp hblock).1
          page_dvd := toNat_dvd_of_mod_eq_zero
            (not_not.mp (not_or.mp hblock).2)
          capacity_pos := by
            obtain ⟨hnonzero, hmultiple⟩ := not_or.mp htotal
            rw [UInt64.toNat_div]
            apply Nat.div_pos
            · exact Nat.le_of_dvd (toNat_pos_of_ne_zero hnonzero)
                (toNat_dvd_of_mod_eq_zero (not_not.mp hmultiple))
            · exact toNat_pos_of_ne_zero (not_or.mp hblock).1 }

theorem memoryPoolNew_ok {allocated : Bool} {totalSize blockSize : UInt64}
    {pool : PoolShape}
    (hpool : memoryPoolNew allocated totalSize blockSize = .ok pool) :
    pool.blockSize = blockSize.toNat ∧
      pool.capacity = totalSize.toNat / blockSize.toNat ∧
      pool.capacity * pool.blockSize = totalSize.toNat ∧
      alignedBufferNew allocated totalSize = .ok () := by
  unfold memoryPoolNew at hpool
  split at hpool
  · cases hpool
  · split at hpool
    · cases hpool
    · next htotal =>
      split at hpool
      · cases hpool
      · next halloc =>
        cases hpool
        have hproduct : (totalSize / blockSize).toNat * blockSize.toNat =
            totalSize.toNat := by
          rw [UInt64.toNat_div]
          exact Nat.div_mul_cancel
            (toNat_dvd_of_mod_eq_zero (not_not.mp (not_or.mp htotal).2))
        exact ⟨rfl, UInt64.toNat_div _ _, hproduct, halloc⟩

/-- Everything `CacheEngine::new` fixes for the lifetime of the engine: the
pool's shape, the device size, the access mode and the flush schedule. -/
structure Setup extends PoolShape where
  totalBytes : Nat
  totalBytes_lt : totalBytes < 2 ^ 64
  readOnly : Bool
  schedule : FlushSchedule

def Setup.maxLba (setup : Setup) : Nat :=
  setup.totalBytes / setup.blockSize

/-- `CacheEngine::new`.  `opened` is the outcome of opening the device, with
its size in bytes. -/
def cacheEngineNew (allocated : Bool) (opened : Except CacheError UInt64)
    (config : CacheConfig) : Except CacheError Setup := do
  config.validate
  let pool ← memoryPoolNew allocated config.cacheSizeBytes config.blockSize
  let totalBytes ← opened
  return {
    toPoolShape := pool
    totalBytes := totalBytes.toNat
    totalBytes_lt := totalBytes.toNat_lt
    readOnly := config.readOnly
    schedule := ⟨config.flushIntervalSecs, config.dirtyWatermark⟩ }

theorem cacheEngineNew_ok {allocated : Bool}
    {opened : Except CacheError UInt64} {config : CacheConfig} {setup : Setup}
    (hnew : cacheEngineNew allocated opened config = .ok setup) :
    config.validate = .ok () ∧
      memoryPoolNew allocated config.cacheSizeBytes config.blockSize =
        .ok setup.toPoolShape := by
  unfold cacheEngineNew at hnew
  cases hvalid : config.validate with
  | error error =>
      rw [hvalid] at hnew
      cases hnew
  | ok checked =>
      rw [hvalid] at hnew
      cases hpool : memoryPoolNew allocated config.cacheSizeBytes
          config.blockSize with
      | error error =>
          rw [hpool] at hnew
          cases hnew
      | ok pool =>
          rw [hpool] at hnew
          cases opened with
          | error error => cases hnew
          | ok totalBytes =>
              cases hnew
              exact ⟨rfl, rfl⟩

/-- A small writable geometry: `spare + 1` pool blocks of one mebibyte over a
device of four. -/
def Setup.mini (spare : Nat) : Setup where
  blockSize := 1048576
  capacity := spare + 1
  blockSize_pos := by decide
  page_dvd := by decide
  capacity_pos := Nat.succ_pos spare
  totalBytes := 4194304
  totalBytes_lt := by decide
  readOnly := false
  schedule := {
    intervalSecs := 5
    dirtyWatermark := {
      inUnitInterval := true
      display := "0.75"
      reached := fun dirtyCount totalCount => 3 * totalCount ≤ 4 * dirtyCount } }

instance (spare : Nat) : NeZero (Setup.mini spare).maxLba :=
  ⟨show 4194304 / 1048576 ≠ 0 by decide⟩

instance (spare : Nat) : NeZero (Setup.mini spare).blockSize :=
  ⟨show 1048576 ≠ 0 by decide⟩

def CacheConfig.mini : CacheConfig where
  devicePath := "/dev/sda"
  cacheSizeMb := 1
  blockSize := 1048576
  flushIntervalSecs := 5
  dirtyWatermark := (Setup.mini 0).schedule.dirtyWatermark
  readOnly := false

theorem cacheEngineNew_mini :
    cacheEngineNew true (.ok 4194304) .mini = .ok (Setup.mini 0) :=
  rfl

end AsmCacheInject.Engine

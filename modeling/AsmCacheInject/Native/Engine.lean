import AsmCacheInject.Asm.FastMemcpy
import AsmCacheInject.Engine.BlockTransfer
import AsmCacheInject.Engine.Paths
import AsmCacheInject.Memory.Copy

namespace AsmCacheInject.Native

open AsmCacheInject.Asm
open AsmCacheInject.Cache
open AsmCacheInject.Data
open AsmCacheInject.Data.AddressSpace
open AsmCacheInject.Engine
open AsmCacheInject.Flush
open AsmCacheInject.Io
open AsmCacheInject.Memory

variable {setup : Setup}

/-! The engine over the bytes of its process.  Pool blocks and user buffers are
windows of one memory, blocks move by the copy routines, and the device is
reached through single `pread` and `pwrite` calls.  An operation has no result
when the process faults. -/

/-- What holds as long as the process runs: where the backing buffer of the
pool lies, and whether the CPU reports ERMS. -/
structure Platform (setup : Setup) where
  basePtr : UInt64
  erms : Bool
  aligned : basePtr % 4096 = 0
  fits : basePtr.toNat + setup.capacity * setup.blockSize < 2 ^ 64

/-- The kernel's answers to the calls of one block transfer.  Each of them moves
a byte or ends the transfer, so a transfer cannot use up more than these. -/
structure Answers (setup : Setup) where
  answers : List KernelAnswer
  enough : setup.blockSize ≤ answers.length

structure Surroundings (setup : Setup) where
  now : Instant
  later : Instant
  order : HashOrder (CacheEntry (Lba setup))
  evict : Answers setup
  fetch : Answers setup

structure ReadResult where
  cacheHit : Bool
  deriving DecidableEq, Repr

structure NativeEngine (setup : Setup) where
  table : LbaTable (Lba setup)
  freeList : List Nat
  memory : Memory UInt8
  device : Image
  flusher : Option FlushChannel

def bytesAt (memory : Memory UInt8) (pointer : UInt64) : Block setup :=
  fun index => memory (pointer + UInt64.ofNat index.val)

namespace Platform

def InPool (platform : Platform setup) (address : UInt64) : Prop :=
  Within platform.basePtr (.ofNat (setup.capacity * setup.blockSize)) address

instance (platform : Platform setup) (address : UInt64) :
    Decidable (platform.InPool address) :=
  inferInstanceAs (Decidable (Within _ _ _))

def Apart (platform : Platform setup) (pointer : UInt64) : Prop :=
  ∀ address, Within pointer (.ofNat setup.blockSize) address →
    ¬platform.InPool address

end Platform

namespace NativeEngine

/-- `CacheEngine::new` over a process memory; the backing buffer comes zeroed. -/
def boot (platform : Platform setup) (image : Image)
    (flusher : Option FlushChannel) (memory : Memory UInt8) :
    NativeEngine setup where
  table := .new
  freeList := (List.range setup.capacity).reverse
  memory := fun address => if platform.InPool address then 0 else memory address
  device := image
  flusher := flusher

def pool (platform : Platform setup) (engine : NativeEngine setup) :
    MemoryPool where
  toPoolShape := setup.toPoolShape
  basePtr := platform.basePtr
  freeList := engine.freeList

def getBlock (platform : Platform setup) (slot : Nat)
    (engine : NativeEngine setup) : BlockBuffer :=
  (engine.pool platform).getBlock slot

def allocate (platform : Platform setup) (engine : NativeEngine setup) :
    Except CacheError (Nat × BlockBuffer) × NativeEngine setup :=
  let (result, pool) := (engine.pool platform).allocate
  (result, { engine with freeList := pool.freeList })

def deallocate (platform : Platform setup) (slot : Nat)
    (engine : NativeEngine setup) : NativeEngine setup :=
  { engine with freeList := ((engine.pool platform).deallocate slot).freeList }

def wake (engine : NativeEngine setup) : NativeEngine setup :=
  { engine with flusher := engine.flusher.map FlushChannel.wake }

def host (engine : NativeEngine setup) : Host where
  device := engine.device
  memory := fun address => engine.memory (UInt64.ofNat address)

def readLba (answers : Answers setup) (lba : Lba setup) (block : BlockBuffer)
    (engine : NativeEngine setup) :
    Option (Except CacheError Unit × NativeEngine setup) :=
  let exchange := readLbaInto block.ptr.toNat (.ofNat lba.val)
    (.ofNat setup.blockSize) answers.answers engine.host
  exchange.outcome.map fun result =>
    (result, { engine with
      memory := fun address => exchange.host.memory address.toNat })

def writeLba (answers : Answers setup) (lba : Lba setup) (block : BlockBuffer)
    (engine : NativeEngine setup) :
    Option (Except CacheError Unit × NativeEngine setup) :=
  let exchange := writeLbaFrom block.ptr.toNat (.ofNat lba.val)
    (.ofNat setup.blockSize) answers.answers engine.host
  exchange.outcome.map fun result =>
    (result, { engine with device := exchange.host.device })

def dropVictim (platform : Platform setup)
    (candidate : EvictionCandidate (Lba setup)) (engine : NativeEngine setup) :
    NativeEngine setup :=
  NativeEngine.deallocate platform candidate.poolIndex
    { engine with table := (engine.table.remove candidate.lba).2 }

def allocateOrEvict (platform : Platform setup) (env : Surroundings setup)
    (engine : NativeEngine setup) :
    Option (Except CacheError (Nat × BlockBuffer) × NativeEngine setup) :=
  match engine.allocate platform with
  | (.ok taken, next) => some (.ok taken, next)
  | (.error _, _) =>
      match selectEvictionCandidate env.order engine.table with
      | none =>
          some (.error (.internal
            "pool exhausted but cache table is empty — inconsistent state"),
            engine)
      | some candidate =>
          if candidate.needsFlush then
            match engine.writeLba env.evict candidate.lba
                (engine.getBlock platform candidate.poolIndex) with
            | none => none
            | some (.error error, torn) => some (.error error, torn)
            | some (.ok (), written) =>
                some ((written.wake.dropVictim platform candidate).allocate platform)
          else some ((engine.dropVictim platform candidate).allocate platform)

def cachedRead (platform : Platform setup) (env : Surroundings setup)
    (lba : Lba setup) (target : UInt64) (engine : NativeEngine setup) :
    Option (Except CacheError ReadResult × NativeEngine setup) :=
  match engine.table.getAndTouch env.now lba with
  | (some slot, table) =>
      let block := engine.getBlock platform slot
      some (.ok ⟨true⟩, { engine with
        table := table
        memory := fastCopyTemporal platform.erms target block.ptr
          (.ofNat setup.blockSize) engine.memory })
  | (none, _) =>
      match engine.allocateOrEvict platform env with
      | none => none
      | some (.error error, left) => some (.error error, left)
      | some (.ok (slot, block), held) =>
          match held.readLba env.fetch lba block with
          | none => none
          | some (.error error, left) => some (.error error, left)
          | some (.ok (), loaded) =>
              let entry := CacheEntry.new env.now lba slot
              some (.ok ⟨false⟩, { loaded with
                table := (loaded.table.insert lba entry).2
                memory := fastCopyTemporal platform.erms target block.ptr
                  (.ofNat setup.blockSize) loaded.memory })

def maybeWakeFlusher (engine : NativeEngine setup) : NativeEngine setup :=
  let stats := engine.table.stats
  if setup.schedule.shouldFlushImmediately stats.dirtyEntries
      stats.totalEntries then
    engine.wake
  else engine

def copyIn (block : BlockBuffer) (source : UInt64)
    (engine : NativeEngine setup) : Option (NativeEngine setup) :=
  ((fastCopyNontemporal block.ptr source (.ofNat setup.blockSize)).run
    ⟨engine.memory, []⟩).map fun result =>
      { engine with memory := result.2.memory }

def cachedWrite (platform : Platform setup) (env : Surroundings setup)
    (lba : Lba setup) (source : UInt64) (engine : NativeEngine setup) :
    Option (Except CacheError WriteResult × NativeEngine setup) :=
  if setup.readOnly then
    some (.error (.config "write rejected: engine is in read-only mode"), engine)
  else
    match engine.table.get lba with
    | some entry =>
        match engine.copyIn (engine.getBlock platform entry.poolIndex) source with
        | none => none
        | some stored =>
            let marked :=
              { stored with table := stored.table.markDirty env.now lba }
            some (.ok ⟨true⟩, maybeWakeFlusher marked)
    | none =>
        match engine.allocateOrEvict platform env with
        | none => none
        | some (.error error, left) => some (.error error, left)
        | some (.ok (slot, block), held) =>
            match held.copyIn block source with
            | none => none
            | some stored =>
                let entry :=
                  (CacheEntry.new env.now lba slot).markDirty env.later
                let inserted :=
                  { stored with table := (stored.table.insert lba entry).2 }
                some (.ok ⟨false⟩, maybeWakeFlusher inserted)

def flushLoop (platform : Platform setup) (writes : Lba setup → Answers setup) :
    List (Lba setup × Nat) → Nat → NativeEngine setup →
      Option (Nat × NativeEngine setup)
  | [], flushed, engine => some (flushed, engine)
  | (lba, slot) :: rest, flushed, engine =>
      match engine.writeLba (writes lba) lba (engine.getBlock platform slot) with
      | none => none
      | some (.ok (), written) =>
          flushLoop platform writes rest (flushed + 1)
            { written with table := written.table.markClean lba }
      | some (.error _, torn) => flushLoop platform writes rest flushed torn

def flushDirtyBlocks (platform : Platform setup)
    (order : HashOrder (CacheEntry (Lba setup)))
    (writes : Lba setup → Answers setup) (engine : NativeEngine setup) :
    Option (Nat × NativeEngine setup) :=
  flushLoop platform writes (engine.table.dirtyEntries order) 0 engine

def read (platform : Platform setup) (env : Surroundings setup) (lba : Nat)
    (target : UInt64) (engine : NativeEngine setup) :
    Option (Except CacheError ReadResult × NativeEngine setup) :=
  if hlba : lba < setup.maxLba then
    engine.cachedRead platform env ⟨lba, hlba⟩ target
  else some (.error (.lbaOutOfRange lba setup.maxLba), engine)

def write (platform : Platform setup) (env : Surroundings setup) (lba : Nat)
    (source : UInt64) (engine : NativeEngine setup) :
    Option (Except CacheError WriteResult × NativeEngine setup) :=
  if hlba : lba < setup.maxLba then
    engine.cachedWrite platform env ⟨lba, hlba⟩ source
  else some (.error (.lbaOutOfRange lba setup.maxLba), engine)

end NativeEngine

/-! Sequential runs.  Between its calls the client may store anything anywhere
outside the pool. -/

inductive NativeRequest (setup : Setup)
  | compute (memory : Memory UInt8)
  | read (env : Surroundings setup) (lba : Nat) (target : UInt64)
  | write (env : Surroundings setup) (lba : Nat) (source : UInt64)
  | flush (order : HashOrder (CacheEntry (Lba setup)))
      (writes : Lba setup → Answers setup)

inductive NativeReply
  | computed
  | read (result : Except CacheError ReadResult)
  | write (result : Except CacheError WriteResult)
  | flushed (count : Nat)

namespace NativeEngine

def perform (platform : Platform setup) (engine : NativeEngine setup) :
    NativeRequest setup → Option (NativeReply × NativeEngine setup)
  | .compute memory =>
      some (.computed, { engine with
        memory := fun address =>
          if platform.InPool address then engine.memory address
          else memory address })
  | .read env lba target =>
      (engine.read platform env lba target).map fun (result, next) =>
        (.read result, next)
  | .write env lba source =>
      (engine.write platform env lba source).map fun (result, next) =>
        (.write result, next)
  | .flush order writes =>
      (engine.flushDirtyBlocks platform order writes).map fun (count, next) =>
        (.flushed count, next)

end NativeEngine

/-- What a client learns from one call: the bytes an `Ok` read left in its
buffer, or the bytes an `Ok` write took from it. -/
def NativeRequest.acknowledged (before after : NativeEngine setup) :
    NativeRequest setup → NativeReply → List (BlockEvent setup)
  | .read _ lba target, .read (.ok _) =>
      if hlba : lba < setup.maxLba then
        [.read ⟨lba, hlba⟩ (bytesAt after.memory target)]
      else []
  | .write _ lba source, .write (.ok _) =>
      if hlba : lba < setup.maxLba then
        [.write ⟨lba, hlba⟩ (bytesAt before.memory source)]
      else []
  | _, _ => []

def NativeEngine.runAll (platform : Platform setup)
    (engine : NativeEngine setup) :
    List (NativeRequest setup) →
      Option (List (BlockEvent setup) × NativeEngine setup)
  | [] => some ([], engine)
  | request :: rest =>
      match engine.perform platform request with
      | none => none
      | some (reply, next) =>
          (next.runAll platform rest).map fun (events, final) =>
            (request.acknowledged engine next reply ++ events, final)

end AsmCacheInject.Native

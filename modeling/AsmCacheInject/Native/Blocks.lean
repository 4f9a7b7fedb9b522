import AsmCacheInject.Native.Engine

namespace AsmCacheInject.Native

open AsmCacheInject.Cache
open AsmCacheInject.Data
open AsmCacheInject.Data.AddressSpace
open AsmCacheInject.Data.Word
open AsmCacheInject.Engine
open AsmCacheInject.Io
open AsmCacheInject.Memory

variable {setup : Setup}

/-! The blocks of the pool in memory. -/

namespace Platform

variable {platform : Platform setup} {slot : Nat} {address : UInt64}

theorem pool_lt (platform : Platform setup) :
    setup.capacity * setup.blockSize < 2 ^ 64 := by
  have := platform.fits
  omega

theorem index_lt (platform : Platform setup) (index : Fin setup.blockSize) :
    UInt64.ofNat index.val < UInt64.ofNat setup.blockSize := by
  have hlt := index.isLt
  have hfits := platform.pool_lt
  have hle : setup.blockSize ≤ setup.capacity * setup.blockSize :=
    Nat.le_mul_of_pos_left _ setup.capacity_pos
  rw [UInt64.lt_iff_toNat_lt,
    UInt64.toNat_ofNat_of_lt' (show setup.blockSize < 2 ^ 64 by omega),
    UInt64.toNat_ofNat_of_lt' (show index.val < 2 ^ 64 by omega)]
  exact hlt

/-- The pool with nothing free: where its blocks lie is all that counts here. -/
def backing (platform : Platform setup) : MemoryPool where
  toPoolShape := setup.toPoolShape
  basePtr := platform.basePtr
  freeList := []

def block (platform : Platform setup) (slot : Nat) : BlockBuffer :=
  platform.backing.getBlock slot

theorem toNat_blockSize (platform : Platform setup) :
    (UInt64.ofNat setup.blockSize).toNat = setup.blockSize :=
  @MemoryPool.toNat_blockSize platform.backing platform.pool_lt

theorem block_inPool (hslot : slot < setup.capacity)
    (hcontains : (platform.block slot).Contains address) :
    platform.InPool address := by
  have hinside : (address - platform.basePtr).toNat <
      setup.capacity * setup.blockSize :=
    @MemoryPool.getBlock_inside platform.backing _ _ platform.pool_lt hslot
      hcontains
  have hlength : (UInt64.ofNat (setup.capacity * setup.blockSize)).toNat =
      setup.capacity * setup.blockSize :=
    UInt64.toNat_ofNat_of_lt' platform.pool_lt
  rw [InPool, within_iff_toNat, hlength]
  exact hinside

theorem block_disjoint {other : Nat} (hslot : slot < setup.capacity)
    (hother : other < setup.capacity) (hne : slot ≠ other)
    (hcontains : (platform.block slot).Contains address) :
    ¬(platform.block other).Contains address :=
  @MemoryPool.getBlock_disjoint platform.backing _ _ platform.pool_lt _ hslot
    hother hne hcontains

theorem block_contains {index : Nat} (hindex : index < setup.blockSize) :
    (platform.block slot).Contains
      ((platform.block slot).ptr + UInt64.ofNat index) :=
  within_add (platform.index_lt ⟨index, hindex⟩)

theorem block_end_lt (hslot : slot < setup.capacity) :
    (platform.block slot).ptr.toNat + setup.blockSize < 2 ^ 64 := by
  have hfits := platform.fits
  have hoffset : (UInt64.ofNat slot * UInt64.ofNat setup.blockSize).toNat =
      slot * setup.blockSize :=
    @MemoryPool.toNat_offset platform.backing _ platform.pool_lt hslot
  have hend : slot * setup.blockSize + setup.blockSize ≤
      setup.capacity * setup.blockSize :=
    @MemoryPool.offset_end_le platform.backing _ hslot
  have hsum : platform.basePtr.toNat +
      (UInt64.ofNat slot * UInt64.ofNat setup.blockSize).toNat < 2 ^ 64 := by
    omega
  have hptr : (platform.block slot).ptr.toNat =
      platform.basePtr.toNat +
        (UInt64.ofNat slot * UInt64.ofNat setup.blockSize).toNat :=
    toNat_sum hsum
  omega

theorem toNat_index (hslot : slot < setup.capacity) {index : Nat}
    (hindex : index < setup.blockSize) :
    ((platform.block slot).ptr + UInt64.ofNat index).toNat =
      (platform.block slot).ptr.toNat + index := by
  have hend := platform.block_end_lt hslot
  have hsmall : (UInt64.ofNat index).toNat = index :=
    UInt64.toNat_ofNat_of_lt' (show index < 2 ^ 64 by omega)
  rw [toNat_sum (by omega), hsmall]

theorem outside_block (hslot : slot < setup.capacity)
    (houtside : ¬(platform.block slot).Contains address) :
    address.toNat < (platform.block slot).ptr.toNat ∨
      (platform.block slot).ptr.toNat + setup.blockSize ≤ address.toNat := by
  have hend := platform.block_end_lt hslot
  have hsize : (platform.block slot).size.toNat = setup.blockSize :=
    platform.toNat_blockSize
  have hbound := address.toNat_lt
  rw [BlockBuffer.Contains, within_iff_toNat, UInt64.toNat_sub, hsize] at houtside
  omega

theorem apart_of_le {pointer : UInt64}
    (hbehind : platform.basePtr.toNat + setup.capacity * setup.blockSize ≤
      pointer.toNat)
    (hend : pointer.toNat + setup.blockSize ≤ 2 ^ 64) :
    platform.Apart pointer := by
  intro address hwithin hpool
  have hlength : (UInt64.ofNat (setup.capacity * setup.blockSize)).toNat =
      setup.capacity * setup.blockSize :=
    UInt64.toNat_ofNat_of_lt' platform.pool_lt
  have hbound := address.toNat_lt
  rw [within_iff_toNat, UInt64.toNat_sub, platform.toNat_blockSize] at hwithin
  rw [InPool, within_iff_toNat, UInt64.toNat_sub, hlength] at hpool
  have := platform.basePtr.toNat_lt
  omega

end Platform

def Holds (platform : Platform setup) (memory : Memory UInt8)
    (blocks : Nat → Block setup) : Prop :=
  ∀ slot < setup.capacity, bytesAt memory (platform.block slot).ptr = blocks slot

namespace Holds

variable {platform : Platform setup} {memory next : Memory UInt8}
variable {blocks : Nat → Block setup}

theorem congr (hholds : Holds platform memory blocks)
    (hsame : ∀ address, platform.InPool address → next address = memory address) :
    Holds platform next blocks := by
  intro slot hslot
  rw [← hholds slot hslot]
  funext index
  exact hsame _ (Platform.block_inPool hslot (Platform.block_contains index.isLt))

theorem update (hholds : Holds platform memory blocks) {slot : Nat}
    (hslot : slot < setup.capacity) {block : Block setup}
    (hinside : bytesAt next (platform.block slot).ptr = block)
    (houtside : ∀ address, ¬(platform.block slot).Contains address →
      next address = memory address) :
    Holds platform next (Function.update blocks slot block) := by
  intro other hother
  by_cases heq : other = slot
  · subst heq
    rw [Function.update_self]
    exact hinside
  · rw [Function.update_of_ne heq, ← hholds other hother]
    funext index
    exact houtside _ (Platform.block_disjoint hother hslot heq
      (Platform.block_contains index.isLt))

end Holds

@[simps] def Surroundings.plain (env : Surroundings setup) (evict fetch : IoOutcome setup) :
    OpEnv setup where
  now := env.now
  later := env.later
  order := env.order
  evict := evict
  fetch := fetch

namespace NativeEngine

variable {platform : Platform setup} {engine : NativeEngine setup}
variable {blocks : Nat → Block setup} {slot : Nat} {lba : Lba setup}

/-- The engine of whole blocks whose pool holds `blocks`. -/
@[simps] def view (blocks : Nat → Block setup) (engine : NativeEngine setup) :
    CacheEngine setup where
  table := engine.table
  freeList := engine.freeList
  blocks := blocks
  device := engine.device
  flusher := engine.flusher

/-! Transfers. -/

theorem fetch_eq_fill (outcome : IoOutcome setup) (lba : Lba setup) (slot : Nat)
    (plain : CacheEngine setup) :
    (plain.fetch outcome lba slot).2 =
      plain.fill slot ((plain.fetch outcome lba slot).2.blocks slot) := by
  cases outcome with
  | ok => simp [CacheEngine.fetch]
  | fail error torn => simp [CacheEngine.fetch]

theorem writeBack_eq_device (outcome : IoOutcome setup) (lba : Lba setup)
    (slot : Nat) (plain : CacheEngine setup) :
    (plain.writeBack outcome lba slot).2 =
      { plain with device := (plain.writeBack outcome lba slot).2.device } := by
  cases outcome with
  | ok => rfl
  | fail error torn => rfl

theorem readLba_view (hsize : setup.totalBytes ≤ 2 ^ 63 - 1)
    (hholds : Holds platform engine.memory blocks) (hslot : slot < setup.capacity)
    (lba : Lba setup) (answers : Answers setup) :
    ∃ result next outcome blocksNext,
      engine.readLba answers lba (platform.block slot) = some (result, next) ∧
      (engine.view blocks).fetch outcome lba slot =
        (result, next.view blocksNext) ∧
      Holds platform next.memory blocksNext ∧
      ∀ address, ¬platform.InPool address →
        next.memory address = engine.memory address := by
  have hexact := readBlockInto_exact (lba_transfer_fits hsize lba)
    (platform.block slot).ptr.toNat answers.answers engine.host
  have hends := hexact.ends (by rw [platform.toNat_blockSize]; exact answers.enough)
  obtain ⟨result, hresult⟩ := Option.ne_none_iff_exists'.mp hends
  obtain ⟨outcome, hreply, hblock⟩ :=
    @fetch_of_readLbaInto _ _ _ slot _ _ (engine.view blocks) _ hsize hresult
  have houtside : ∀ address, ¬(platform.block slot).Contains address →
      (readLbaInto (platform.block slot).ptr.toNat (.ofNat lba.val)
        (.ofNat setup.blockSize) answers.answers engine.host).host.memory
          address.toNat = engine.memory address := by
    intro address haddress
    have hwindow := Platform.outside_block hslot haddress
    have hback : engine.host.memory address.toNat = engine.memory address := by
      simp [host]
    rw [← hback]
    cases result with
    | ok success =>
        obtain ⟨hfilled, -⟩ := hexact.ok hresult
        rw [platform.toNat_blockSize] at hfilled
        exact hfilled.outside _ hwindow
    | error failure =>
        obtain ⟨count, hcount, hfilled, -⟩ := hexact.error _ hresult
        rw [platform.toNat_blockSize] at hcount
        exact hfilled.outside _ (by omega)
  refine ⟨result, { engine with memory := _ }, outcome, _,
    congrArg (Option.map _) hresult, Prod.ext hreply (fetch_eq_fill _ _ _ _),
    hholds.update hslot ?_ houtside, ?_⟩
  · rw [hblock]
    funext index
    exact congrArg _ (Platform.toNat_index hslot index.isLt)
  · intro address haddress
    exact houtside address fun hcontains =>
      haddress (Platform.block_inPool hslot hcontains)

theorem writeLba_view (hsize : setup.totalBytes ≤ 2 ^ 63 - 1)
    (hholds : Holds platform engine.memory blocks) (hslot : slot < setup.capacity)
    (lba : Lba setup) (answers : Answers setup) :
    ∃ result next outcome,
      engine.writeLba answers lba (platform.block slot) = some (result, next) ∧
      next.memory = engine.memory ∧
      (engine.view blocks).writeBack outcome lba slot =
        (result, next.view blocks) := by
  have hexact := writeBlockFrom_exact (lba_transfer_fits hsize lba)
    (platform.block slot).ptr.toNat answers.answers engine.host
  have hends := hexact.ends (by rw [platform.toNat_blockSize]; exact answers.enough)
  obtain ⟨result, hresult⟩ := Option.ne_none_iff_exists'.mp hends
  have hbytes : ByteImage.readAt setup.blockSize engine.host.memory
      (platform.block slot).ptr.toNat = blocks slot := by
    rw [← hholds slot hslot]
    funext index
    show engine.memory _ = engine.memory _
    rw [← Platform.toNat_index hslot index.isLt, UInt64.ofNat_toNat]
  obtain ⟨outcome, hreply, hdevice⟩ :=
    @writeBack_of_writeLbaFrom _ _ _ slot _ _ (engine.view blocks) _ hsize hbytes
      hresult
  refine ⟨result, { engine with device := _ }, outcome,
    congrArg (Option.map _) hresult, rfl, Prod.ext hreply ?_⟩
  rw [writeBack_eq_device]
  exact congrArg (fun device => { engine.view blocks with device := device }) hdevice

end NativeEngine

end AsmCacheInject.Native

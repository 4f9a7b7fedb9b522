import AsmCacheInject.Data.AddressSpace
import AsmCacheInject.Data.Run
import AsmCacheInject.Engine.State

namespace AsmCacheInject.Memory

open AsmCacheInject.Data
open AsmCacheInject.Data.AddressSpace
open AsmCacheInject.Data.Word
open AsmCacheInject.Engine

/-! The pool by itself: its free list, the addresses it computes and the
clients that hold its blocks. -/

structure BlockBuffer where
  ptr : UInt64
  size : UInt64
  deriving DecidableEq, Repr

def BlockBuffer.Contains (buffer : BlockBuffer) (address : UInt64) : Prop :=
  Within buffer.ptr buffer.size address

def BlockBuffer.write {Cell : Type} (buffer : BlockBuffer)
    (value : UInt64 → Cell) (memory : Memory Cell) : Memory Cell :=
  store buffer.ptr buffer.size value memory

structure MemoryPool extends PoolShape where
  basePtr : UInt64
  freeList : List Nat

namespace MemoryPool

def new (backing : Option UInt64) (totalSize blockSize : UInt64) :
    Except CacheError MemoryPool := do
  let shape ← memoryPoolNew backing.isSome totalSize blockSize
  return {
    toPoolShape := shape
    basePtr := backing.getD 0
    freeList := (List.range shape.capacity).reverse }

def bufferForIndex (pool : MemoryPool) (index : Nat) : BlockBuffer where
  ptr := pool.basePtr + UInt64.ofNat index * UInt64.ofNat pool.blockSize
  size := UInt64.ofNat pool.blockSize

def allocate (pool : MemoryPool) :
    Except CacheError (Nat × BlockBuffer) × MemoryPool :=
  match pool.freeList with
  | [] => (.error (.poolExhausted pool.capacity pool.capacity), pool)
  | index :: rest =>
      (.ok (index, pool.bufferForIndex index), { pool with freeList := rest })

def deallocate (index : Nat) (pool : MemoryPool) : MemoryPool :=
  { pool with freeList := index :: pool.freeList }

def getBlock (pool : MemoryPool) (index : Nat) : BlockBuffer :=
  pool.bufferForIndex index

def freeCount (pool : MemoryPool) : Nat :=
  pool.freeList.length

/-- `used_count`, an unchecked subtraction. -/
def usedCount (pool : MemoryPool) : UInt64 :=
  UInt64.ofNat pool.capacity - UInt64.ofNat pool.freeCount

end MemoryPool

/-! Histories of calls.  `live` are the indices handed out and not returned. -/

inductive PoolCall
  | allocate
  | deallocate (index : Nat)
  deriving DecidableEq, Repr

structure Tenancy where
  pool : MemoryPool
  live : List Nat

namespace Tenancy

/-- One call; a client only returns what it holds. -/
def step (tenancy : Tenancy) : PoolCall → Option Tenancy
  | .allocate =>
      match tenancy.pool.allocate with
      | (.ok (index, _), pool) => some ⟨pool, index :: tenancy.live⟩
      | (.error _, pool) => some ⟨pool, tenancy.live⟩
  | .deallocate index =>
      if index ∈ tenancy.live then
        some ⟨tenancy.pool.deallocate index, tenancy.live.erase index⟩
      else none

structure Settled (shape : PoolShape) (basePtr : UInt64) (tenancy : Tenancy) :
    Prop where
  same_shape : tenancy.pool.toPoolShape = shape
  same_base : tenancy.pool.basePtr = basePtr
  ledger : (tenancy.pool.freeList ++ tenancy.live).Perm
    (List.range shape.capacity)

namespace Settled

variable {shape : PoolShape} {basePtr : UInt64} {tenancy next : Tenancy}

theorem step {call : PoolCall} (hsettled : tenancy.Settled shape basePtr)
    (hstep : tenancy.step call = some next) : next.Settled shape basePtr := by
  cases call with
  | allocate =>
      simp only [Tenancy.step, MemoryPool.allocate] at hstep
      cases hfree : tenancy.pool.freeList with
      | nil =>
          rw [hfree] at hstep
          cases hstep
          exact hsettled
      | cons index rest =>
          rw [hfree] at hstep
          cases hstep
          refine ⟨hsettled.same_shape, hsettled.same_base, ?_⟩
          have hledger := hsettled.ledger
          rw [hfree] at hledger
          exact List.perm_middle.trans hledger
  | deallocate index =>
      simp only [Tenancy.step] at hstep
      split at hstep
      · next hlive =>
        cases hstep
        refine ⟨hsettled.same_shape, hsettled.same_base, ?_⟩
        have hreturn : (index :: (tenancy.pool.freeList ++
            tenancy.live.erase index)).Perm
            (tenancy.pool.freeList ++ tenancy.live) :=
          List.perm_middle.symm.trans
            ((List.perm_cons_erase hlive).symm.append_left _)
        exact hreturn.trans hsettled.ledger
      · cases hstep

theorem run {calls : List PoolCall} {final : Tenancy}
    (hsettled : tenancy.Settled shape basePtr)
    (hrun : Run.exec Tenancy.step tenancy calls = some final) :
    final.Settled shape basePtr :=
  Run.invariant_state (I := Settled shape basePtr) hsettled
    (fun _ _ _ hstate _ hstep => hstate.step hstep)
    (Run.along_of_forall fun _ _ => trivial) hrun

theorem nodup (hsettled : tenancy.Settled shape basePtr) :
    (tenancy.pool.freeList ++ tenancy.live).Nodup :=
  hsettled.ledger.nodup_iff.mpr List.nodup_range

theorem live_lt (hsettled : tenancy.Settled shape basePtr) {index : Nat}
    (hlive : index ∈ tenancy.live) : index < shape.capacity :=
  List.mem_range.mp
    (hsettled.ledger.mem_iff.mp (List.mem_append_right _ hlive))

theorem count (hsettled : tenancy.Settled shape basePtr) :
    tenancy.pool.freeCount + tenancy.live.length = shape.capacity := by
  have hlength := hsettled.ledger.length_eq
  rwa [List.length_append, List.length_range] at hlength

theorem allocate_error_iff (hsettled : tenancy.Settled shape basePtr) :
    (∃ error, tenancy.pool.allocate.1 = .error error) ↔
      tenancy.live.length = shape.capacity := by
  have hcount := hsettled.count
  unfold MemoryPool.freeCount at hcount
  unfold MemoryPool.allocate
  cases hfree : tenancy.pool.freeList with
  | nil =>
      rw [hfree, List.length_nil, Nat.zero_add] at hcount
      simp [hcount]
  | cons index rest =>
      rw [hfree, List.length_cons] at hcount
      simp only [reduceCtorEq, exists_false, false_iff]
      omega

theorem allocate_fresh (hsettled : tenancy.Settled shape basePtr) {index : Nat}
    {buffer : BlockBuffer}
    (hcall : tenancy.pool.allocate.1 = .ok (index, buffer)) :
    index ∉ tenancy.live := by
  have hnodup := hsettled.nodup
  unfold MemoryPool.allocate at hcall
  cases hfree : tenancy.pool.freeList with
  | nil =>
      rw [hfree] at hcall
      cases hcall
  | cons head rest =>
      rw [hfree] at hcall hnodup
      cases hcall
      intro hlive
      exact (List.nodup_cons.mp hnodup).1 (List.mem_append_right _ hlive)

theorem toNat_usedCount (hsettled : tenancy.Settled shape basePtr)
    (hcapacity : shape.capacity < 2 ^ 64) :
    tenancy.pool.usedCount.toNat = tenancy.live.length := by
  have hcount := hsettled.count
  have hshape : tenancy.pool.capacity = shape.capacity := by
    rw [hsettled.same_shape]
  rw [MemoryPool.usedCount, UInt64.toNat_sub, hshape,
    UInt64.toNat_ofNat_of_lt' hcapacity,
    UInt64.toNat_ofNat_of_lt' (show tenancy.pool.freeCount < 2 ^ 64 by omega)]
  omega

end Settled

end Tenancy

/-! Addresses.  The backing buffer fits into the address space, so the offset
of a block never wraps. -/

namespace MemoryPool

variable {pool : MemoryPool} {index : Nat} {address : UInt64}

theorem offset_end_le (hindex : index < pool.capacity) :
    index * pool.blockSize + pool.blockSize ≤ pool.capacity * pool.blockSize := by
  calc
    index * pool.blockSize + pool.blockSize =
        (index + 1) * pool.blockSize := by rw [Nat.succ_mul]
    _ ≤ pool.capacity * pool.blockSize := Nat.mul_le_mul_right _ hindex

theorem toNat_blockSize (hfits : pool.capacity * pool.blockSize < 2 ^ 64) :
    (UInt64.ofNat pool.blockSize).toNat = pool.blockSize := by
  have hend := offset_end_le pool.capacity_pos
  exact UInt64.toNat_ofNat_of_lt' (show pool.blockSize < 2 ^ 64 by omega)

theorem toNat_offset (hfits : pool.capacity * pool.blockSize < 2 ^ 64)
    (hindex : index < pool.capacity) :
    (UInt64.ofNat index * UInt64.ofNat pool.blockSize).toNat =
      index * pool.blockSize := by
  have hend := offset_end_le hindex
  have hpos := pool.blockSize_pos
  exact toNat_ofNat_product hpos (by omega) (by omega)

theorem getBlock_contains_iff (hfits : pool.capacity * pool.blockSize < 2 ^ 64)
    (hindex : index < pool.capacity) :
    (pool.getBlock index).Contains address ↔
      index * pool.blockSize ≤ (address - pool.basePtr).toNat ∧
        (address - pool.basePtr).toNat <
          index * pool.blockSize + pool.blockSize := by
  have hend := offset_end_le hindex
  have hoffset := toNat_offset hfits hindex
  have hsize := toNat_blockSize hfits
  have hwindow : (UInt64.ofNat index * UInt64.ofNat pool.blockSize).toNat +
      (UInt64.ofNat pool.blockSize).toNat ≤ 2 ^ 64 := by
    omega
  unfold BlockBuffer.Contains getBlock bufferForIndex
  rw [within_offset_iff hwindow, hoffset, hsize]

theorem getBlock_inside (hfits : pool.capacity * pool.blockSize < 2 ^ 64)
    (hindex : index < pool.capacity)
    (hcontains : (pool.getBlock index).Contains address) :
    (address - pool.basePtr).toNat < pool.capacity * pool.blockSize := by
  have hend := offset_end_le hindex
  have := (getBlock_contains_iff hfits hindex).mp hcontains
  omega

theorem getBlock_disjoint (hfits : pool.capacity * pool.blockSize < 2 ^ 64)
    {other : Nat} (hindex : index < pool.capacity)
    (hother : other < pool.capacity) (hne : index ≠ other)
    (hcontains : (pool.getBlock index).Contains address) :
    ¬(pool.getBlock other).Contains address := by
  intro hmeets
  have hfirst := (getBlock_contains_iff hfits hindex).mp hcontains
  have hsecond := (getBlock_contains_iff hfits hother).mp hmeets
  have happart : index * pool.blockSize + pool.blockSize ≤
      other * pool.blockSize ∨
      other * pool.blockSize + pool.blockSize ≤ index * pool.blockSize :=
    ByteImage.numbered_windows_disjoint hne
  omega

theorem getBlock_aligned (hfits : pool.capacity * pool.blockSize < 2 ^ 64)
    (hbase : pool.basePtr % 4096 = 0) (hindex : index < pool.capacity) :
    (pool.getBlock index).ptr % 4096 = 0 := by
  have hbaseNat := congrArg UInt64.toNat hbase
  have hpage : 4096 ∣ index * pool.blockSize :=
    pool.page_dvd.mul_left index
  apply UInt64.toNat_inj.mp
  rw [UInt64.toNat_mod] at hbaseNat ⊢
  rw [getBlock, bufferForIndex, UInt64.toNat_add, toNat_offset hfits hindex]
  simp only [UInt64.reduceToNat] at hbaseNat ⊢
  omega

theorem getBlock_mod_sixteen (hfits : pool.capacity * pool.blockSize < 2 ^ 64)
    (hbase : pool.basePtr % 4096 = 0) (hindex : index < pool.capacity) :
    (pool.getBlock index).ptr % 16 = 0 :=
  mod_eq_zero_of_toNat_dvd
    ((show (16 : UInt64).toNat ∣ (4096 : UInt64).toNat by decide).trans
      (toNat_dvd_of_mod_eq_zero (getBlock_aligned hfits hbase hindex)))

theorem getBlock_size_chunks (hfits : pool.capacity * pool.blockSize < 2 ^ 64)
    (index : Nat) : (pool.getBlock index).size % 64 = 0 := by
  apply mod_eq_zero_of_toNat_dvd
  rw [getBlock, bufferForIndex, toNat_blockSize hfits]
  exact (show (64 : UInt64).toNat ∣ 4096 by decide).trans pool.page_dvd

theorem new_ok {base totalSize blockSize : UInt64}
    (hnew : new (some base) totalSize blockSize = .ok pool) :
    memoryPoolNew true totalSize blockSize = .ok pool.toPoolShape ∧
      pool.basePtr = base ∧
      pool.freeList = (List.range pool.capacity).reverse := by
  unfold new at hnew
  rw [Option.isSome_some] at hnew
  cases hshape : memoryPoolNew true totalSize blockSize with
  | error error =>
      rw [hshape] at hnew
      cases hnew
  | ok shape =>
      rw [hshape] at hnew
      cases hnew
      exact ⟨rfl, rfl, rfl⟩

theorem settled_new {base totalSize blockSize : UInt64}
    (hnew : new (some base) totalSize blockSize = .ok pool) :
    Tenancy.Settled pool.toPoolShape base ⟨pool, []⟩ := by
  obtain ⟨_, hbase, hfree⟩ := new_ok hnew
  refine ⟨rfl, hbase, ?_⟩
  rw [hfree, List.append_nil]
  exact List.reverse_perm _

end MemoryPool

theorem pool_contract {base totalSize blockSize : UInt64} {pool : MemoryPool}
    (hnew : MemoryPool.new (some base) totalSize blockSize = .ok pool)
    (hbase : base % 4096 = 0) {calls : List PoolCall} {tenancy : Tenancy}
    (hrun : Run.exec Tenancy.step ⟨pool, []⟩ calls = some tenancy) :
    ((∃ error, tenancy.pool.allocate.1 = .error error) ↔
      tenancy.live.length = pool.capacity) ∧
    (∀ index buffer, tenancy.pool.allocate.1 = .ok (index, buffer) →
      index ∉ tenancy.live) ∧
    tenancy.live.Nodup ∧
    tenancy.pool.usedCount.toNat = tenancy.live.length ∧
    tenancy.pool.freeCount + tenancy.pool.usedCount.toNat = pool.capacity ∧
    (∀ index ∈ tenancy.live,
      (UInt64.ofNat index * UInt64.ofNat pool.blockSize).toNat =
        index * pool.blockSize ∧
      (tenancy.pool.getBlock index).ptr % 4096 = 0 ∧
      ∀ address, (tenancy.pool.getBlock index).Contains address →
        Within base totalSize address) ∧
    ∀ first ∈ tenancy.live, ∀ second ∈ tenancy.live, first ≠ second →
      (∀ address, (tenancy.pool.getBlock first).Contains address →
        ¬(tenancy.pool.getBlock second).Contains address) ∧
      ∀ (memory : Memory UInt8) value address,
        (tenancy.pool.getBlock second).Contains address →
        (tenancy.pool.getBlock first).write value memory address =
          memory address := by
  obtain ⟨hshape, _, _⟩ := MemoryPool.new_ok hnew
  obtain ⟨_, _, hproduct, _⟩ := memoryPoolNew_ok hshape
  have hsettled := (MemoryPool.settled_new hnew).run hrun
  have hsame := hsettled.same_shape
  have hcapacity : tenancy.pool.capacity = pool.capacity := by rw [hsame]
  have hblock : tenancy.pool.blockSize = pool.blockSize := by rw [hsame]
  have htotal : tenancy.pool.capacity * tenancy.pool.blockSize =
      totalSize.toNat := by
    rw [hcapacity, hblock, hproduct]
  have hfits : tenancy.pool.capacity * tenancy.pool.blockSize < 2 ^ 64 := by
    rw [htotal]
    exact totalSize.toNat_lt
  have hsmall : pool.capacity < 2 ^ 64 := by
    have hle : tenancy.pool.capacity ≤
        tenancy.pool.capacity * tenancy.pool.blockSize :=
      Nat.le_mul_of_pos_right _ tenancy.pool.blockSize_pos
    omega
  have hlive : ∀ index ∈ tenancy.live, index < tenancy.pool.capacity := by
    intro index hindex
    rw [hcapacity]
    exact hsettled.live_lt hindex
  have hused := hsettled.toNat_usedCount hsmall
  refine ⟨hsettled.allocate_error_iff, ?_, hsettled.nodup.of_append_right, hused,
    ?_, ?_, ?_⟩
  · intro index buffer hcall
    exact hsettled.allocate_fresh hcall
  · rw [hused]
    exact hsettled.count
  · intro index hindex
    refine ⟨?_, ?_, ?_⟩
    · rw [← hblock]
      exact MemoryPool.toNat_offset hfits (hlive index hindex)
    · apply MemoryPool.getBlock_aligned hfits _ (hlive index hindex)
      rw [hsettled.same_base]
      exact hbase
    · intro address hcontains
      rw [within_iff_toNat, ← htotal, ← hsettled.same_base]
      exact MemoryPool.getBlock_inside hfits (hlive index hindex) hcontains
  · intro first hfirst second hsecond hne
    have hdisjoint : ∀ address,
        (tenancy.pool.getBlock first).Contains address →
          ¬(tenancy.pool.getBlock second).Contains address :=
      fun address => MemoryPool.getBlock_disjoint hfits (hlive first hfirst)
        (hlive second hsecond) hne
    refine ⟨hdisjoint, ?_⟩
    intro memory value address hcontains
    apply store_outside
    intro hwithin
    exact hdisjoint address hwithin hcontains

def MemoryPool.pair : MemoryPool where
  blockSize := 4096
  capacity := 2
  blockSize_pos := by decide
  page_dvd := by decide
  capacity_pos := by decide
  basePtr := 65536
  freeList := [1, 0]

/-- Two blocks taken, one returned and taken again. -/
theorem pair_exhausted :
    ∃ error, (MemoryPool.allocate { MemoryPool.pair with freeList := [] }).1 =
      .error error := by
  have hnew : MemoryPool.new (some 65536) 8192 4096 = .ok .pair := rfl
  have hrun : Run.exec Tenancy.step ⟨.pair, []⟩
      [.allocate, .allocate, .deallocate 1, .allocate] =
        some ⟨{ MemoryPool.pair with freeList := [] }, [1, 0]⟩ := rfl
  exact (pool_contract hnew rfl hrun).1.mpr rfl

end AsmCacheInject.Memory

namespace AsmCacheInject.Engine

/-- The pool of an engine whose backing buffer lies at `basePtr`. -/
def CacheEngine.pool {setup : Setup} (basePtr : UInt64)
    (engine : CacheEngine setup) : Memory.MemoryPool where
  toPoolShape := setup.toPoolShape
  basePtr := basePtr
  freeList := engine.freeList

end AsmCacheInject.Engine

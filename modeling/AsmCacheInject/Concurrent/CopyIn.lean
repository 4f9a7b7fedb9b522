import AsmCacheInject.Concurrent.Steps
import AsmCacheInject.Memory.Copy

namespace AsmCacheInject.Concurrent

open AsmCacheInject.Cache
open AsmCacheInject.Data
open AsmCacheInject.Data.AddressSpace
open AsmCacheInject.Engine
open AsmCacheInject.Flush
open AsmCacheInject.Memory

variable {setup : Setup} {n : Nat}

/-! The copies of the write path.  Whatever the clients and the flush thread
do, a slot number never leaves the range the pool was built with, so the target
of every copy is a block of the pool. -/

def Pc.slots : Pc setup → List Nat
  | .readHit _ slot => [slot]
  | .flushVictim _ victim => [victim.poolIndex]
  | .wakeForVictim _ victim => [victim.poolIndex]
  | .removeVictim _ victim => [victim.poolIndex]
  | .freeVictim _ victim => [victim.poolIndex]
  | .fetch _ slot => [slot]
  | .insertRead _ slot => [slot]
  | .copyRead _ slot => [slot]
  | .writeHit _ _ slot => [slot]
  | .fill _ _ slot => [slot]
  | .insertWrite _ _ slot => [slot]
  | _ => []

/-- The slot `fast_copy_nontemporal` is about to copy the user buffer into. -/
def Pc.copyTarget : Pc setup → Option Nat
  | .writeHit _ _ slot => some slot
  | .fill _ _ slot => some slot
  | _ => none

@[simp] theorem Miss.slots_filling (miss : Miss setup) (slot : Nat) :
    (miss.filling slot).slots = [slot] := by
  cases miss <;> rfl

@[simp] theorem Call.slots_enter (call : Call setup) : call.enter.slots = [] :=
  call.enter_induction (fun _ => rfl) (fun _ => rfl) fun _ _ => rfl

theorem Pc.copyTarget_mem_slots {pc : Pc setup} {slot : Nat}
    (hcopy : pc.copyTarget = some slot) : slot ∈ pc.slots := by
  cases pc with
  | writeHit lba buf target =>
      cases hcopy
      exact List.mem_singleton_self _
  | fill lba buf target =>
      cases hcopy
      exact List.mem_singleton_self _
  | _ => cases hcopy

structure EngineInPool (engine : CacheEngine setup) : Prop where
  free : ∀ slot ∈ engine.freeList, slot < setup.capacity
  mapped : ∀ lba slot, engine.table.slotOf lba = some slot →
    slot < setup.capacity

section Step

variable {choice : Choice setup} {engine nextEngine : CacheEngine setup}
variable {pc next : Pc setup}

theorem EngineInPool.same_slots (hpool : EngineInPool engine)
    (hfree : nextEngine.freeList = engine.freeList)
    (hslots : nextEngine.table.slotOf = engine.table.slotOf) :
    EngineInPool nextEngine :=
  ⟨by rw [hfree]; exact hpool.free, by rw [hslots]; exact hpool.mapped⟩

theorem EngineInPool.take (hpool : EngineInPool engine) {slot : Nat}
    {rest : List Nat} (hfree : engine.freeList = slot :: rest) :
    slot < setup.capacity ∧
      EngineInPool { engine with freeList := rest } := by
  have hall := hpool.free
  rw [hfree] at hall
  exact ⟨hall slot List.mem_cons_self,
    fun other hother => hall other (List.mem_cons_of_mem _ hother),
    hpool.mapped⟩

theorem EngineInPool.insert (hpool : EngineInPool engine) (lba : Lba setup)
    {entry : CacheEntry (Lba setup)} (hslot : entry.poolIndex < setup.capacity) :
    EngineInPool { engine with table := (engine.table.insert lba entry).2 } := by
  refine ⟨hpool.free, ?_⟩
  intro other slot hmapped
  simp only [LbaTable.slotOf_insert] at hmapped
  split at hmapped
  · cases hmapped
    exact hslot
  · exact hpool.mapped other slot hmapped

theorem EngineInPool.remove (hpool : EngineInPool engine) (lba : Lba setup) :
    EngineInPool { engine with table := (engine.table.remove lba).2 } := by
  refine ⟨hpool.free, ?_⟩
  intro other slot hmapped
  simp only [LbaTable.slotOf_remove] at hmapped
  split at hmapped
  · cases hmapped
  · exact hpool.mapped other slot hmapped

theorem EngineInPool.victim (hpool : EngineInPool engine)
    {order : HashOrder (CacheEntry (Lba setup))}
    {victim : EvictionCandidate (Lba setup)}
    (hselect : selectEvictionCandidate order engine.table = some victim) :
    victim.poolIndex < setup.capacity := by
  obtain ⟨lba, entry, hentry, rfl⟩ := selectEvictionCandidate_expendable hselect
  exact hpool.mapped lba entry.poolIndex
    (LbaTable.slotOf_eq_some_iff.mpr ⟨entry, hentry.stored, rfl⟩)

theorem ClientStep.inPool (hstep : ClientStep choice engine pc next nextEngine)
    (hpool : EngineInPool engine)
    (hcarried : ∀ slot ∈ pc.slots, slot < setup.capacity) :
    EngineInPool nextEngine ∧ ∀ slot ∈ next.slots, slot < setup.capacity := by
  cases hstep with
  | lookupHit hslot =>
      refine ⟨hpool.same_slots rfl (LbaTable.slotOf_getAndTouch _ _ _), ?_⟩
      simpa [Pc.slots] using hpool.mapped _ _ hslot
  | takeFree hfree => simpa using (hpool.take hfree).symm
  | retake hfree => simpa using (hpool.take hfree).symm
  | chooseDirty hselect hflush =>
      exact ⟨hpool, by simpa [Pc.slots] using hpool.victim hselect⟩
  | chooseClean hselect hflush =>
      exact ⟨hpool, by simpa [Pc.slots] using hpool.victim hselect⟩
  | removeVictim => exact ⟨hpool.remove _, hcarried⟩
  | freeVictim =>
      refine ⟨⟨?_, hpool.mapped⟩, by simp [Pc.slots]⟩
      intro slot hmem
      rcases List.mem_cons.mp hmem with heq | hfree
      · rw [heq]
        exact hcarried _ (List.mem_singleton_self _)
      · exact hpool.free slot hfree
  | insertRead =>
      exact ⟨hpool.insert _ (hcarried _ (List.mem_singleton_self _)), hcarried⟩
  | insertWrite =>
      exact ⟨hpool.insert _ (hcarried _ (List.mem_singleton_self _)),
        by simp [Pc.slots]⟩
  | writeLookupHit hslot =>
      exact ⟨hpool, by simpa [Pc.slots] using hpool.mapped _ _ hslot⟩
  | markDirty =>
      exact ⟨hpool.same_slots rfl (LbaTable.slotOf_markDirty _ _ _),
        by simp [Pc.slots]⟩
  | victimWritten hio => exact ⟨hpool.same_slots rfl rfl, hcarried⟩
  | wakeForVictim => exact ⟨hpool.same_slots rfl rfl, hcarried⟩
  | fetched hio => exact ⟨hpool.same_slots rfl rfl, hcarried⟩
  | fill => exact ⟨hpool.same_slots rfl rfl, hcarried⟩
  | _ => exact ⟨hpool.same_slots rfl rfl, by simp [Pc.slots]⟩

theorem FlusherStep.inPool {flusherPc nextPc : FlusherPc setup}
    (hstep : FlusherStep choice engine flusherPc nextPc nextEngine)
    (hpool : EngineInPool engine) : EngineInPool nextEngine := by
  cases hstep with
  | cleaned => exact hpool.same_slots rfl (LbaTable.slotOf_markClean _ _)
  | _ => exact hpool.same_slots rfl rfl

end Step

namespace Machine

structure InPool (machine : Machine setup n) : Prop where
  engine : EngineInPool machine.engine
  carried : ∀ thread, ∀ slot ∈ (machine.client thread).slots,
    slot < setup.capacity

theorem inPool_init (setup : Setup) (n : Nat) (image : Image) :
    (init setup n image).InPool where
  engine := ⟨by simp [init, CacheEngine.boot], by simp [init, CacheEngine.boot]⟩
  carried := by simp [init, Pc.slots]

theorem InPool.step {machine next : Machine setup n} {action : Action setup n}
    (hpool : machine.InPool) (hstep : machine.step action = some next) :
    next.InPool := by
  have hupdated : ∀ (thread : Fin n) (pc : Pc setup),
      (∀ slot ∈ pc.slots, slot < setup.capacity) →
      ∀ other, ∀ slot ∈ (Function.update machine.client thread pc other).slots,
        slot < setup.capacity := by
    intro thread pc hpc other
    by_cases heq : other = thread
    · subst heq
      simpa using hpc
    · simpa [heq] using hpool.carried other
  cases step_cases hstep with
  | invoke howner hidle =>
      exact ⟨hpool.engine, hupdated _ _ (by simp)⟩
  | client hclient =>
      obtain ⟨hengine, hpc⟩ := hclient.inPool hpool.engine (hpool.carried _)
      exact ⟨hengine, hupdated _ _ hpc⟩
  | respond hdone => exact ⟨hpool.engine, hupdated _ _ (by simp [Pc.slots])⟩
  | flush hflush => exact ⟨hflush.inPool hpool.engine, hpool.carried⟩
  | owner howner =>
      exact ⟨hpool.engine.same_slots rfl rfl, hpool.carried⟩

theorem inPool_run {image : Image} {run : List (Action setup n)}
    {machine : Machine setup n}
    (hrun : Run.exec step (init setup n image) run = some machine) :
    machine.InPool :=
  Run.invariant_state (I := InPool) (inPool_init setup n image)
    (fun _ _ _ hpool _ hstep => hpool.step hstep)
    (Run.along_of_forall fun _ _ => trivial) hrun

end Machine

/-! The preconditions of `nt_memcpy` at the calls the write path makes. -/

/-- A call with `dst`, `src` and `len` keeps the contract of `nt_memcpy`, and
its target lies in the backing buffer of `pool`. -/
structure CopyReady (pool : MemoryPool) (dst src len : UInt64) : Prop where
  dst_aligned : dst % 16 = 0
  src_aligned : src % 16 = 0
  len_chunks : len % 64 = 0
  inside : ∀ address, Within dst len address →
    (address - pool.basePtr).toNat < pool.capacity * pool.blockSize

theorem getBlock_copyReady {pool : MemoryPool}
    (hfits : pool.capacity * pool.blockSize < 2 ^ 64)
    (hbase : pool.basePtr % 4096 = 0) {slot : Nat} (hslot : slot < pool.capacity)
    {source : UInt64} (hsource : source % 16 = 0) :
    CopyReady pool (pool.getBlock slot).ptr source
      (UInt64.ofNat pool.blockSize) where
  dst_aligned := MemoryPool.getBlock_mod_sixteen hfits hbase hslot
  src_aligned := hsource
  len_chunks := MemoryPool.getBlock_size_chunks hfits slot
  inside := fun _ hwithin => MemoryPool.getBlock_inside hfits hslot hwithin

/-- The write path leaves one obligation to its caller: the alignment of the
user buffer. -/
theorem copy_in_ready_iff {allocated : Bool}
    {opened : Except CacheError UInt64} {config : CacheConfig} {setup : Setup}
    (hnew : cacheEngineNew allocated opened config = .ok setup)
    {base : UInt64} (hbase : base % 4096 = 0) {n : Nat} {image : Image}
    {run : List (Action setup n)} {machine : Machine setup n}
    (hrun : Run.exec Machine.step (.init setup n image) run = some machine)
    {thread : Fin n} {slot : Nat}
    (hcopy : (machine.client thread).copyTarget = some slot)
    (source : UInt64) :
    CopyReady (machine.engine.pool base)
        ((machine.engine.pool base).getBlock slot).ptr source
        (UInt64.ofNat setup.blockSize) ↔
      source % 16 = 0 := by
  obtain ⟨_, hshape⟩ := cacheEngineNew_ok hnew
  obtain ⟨_, _, hproduct, _⟩ := memoryPoolNew_ok hshape
  have hfits : setup.capacity * setup.blockSize < 2 ^ 64 := by
    rw [hproduct]
    exact config.cacheSizeBytes.toNat_lt
  have hslot : slot < setup.capacity :=
    (Machine.inPool_run hrun).carried thread slot
      (Pc.copyTarget_mem_slots hcopy)
  constructor
  · exact CopyReady.src_aligned
  · exact getBlock_copyReady hfits hbase hslot

def firstCopy : List (Action (.mini 0) 1) :=
  .invoke lone (.write 0 fun _ => 5) :: advance lone 2 1

theorem firstCopy_ready :
    ∃ machine, Run.exec Machine.step (.init (.mini 0) 1 stripes) firstCopy =
        some machine ∧
      CopyReady (machine.engine.pool 4096)
        ((machine.engine.pool 4096).getBlock 0).ptr 64
        (UInt64.ofNat (Setup.mini 0).blockSize) := by
  have hcopy : (Run.exec Machine.step (.init (.mini 0) 1 stripes) firstCopy).map
      (fun machine => (machine.client lone).copyTarget) = some (some 0) := by
    decide +kernel
  obtain ⟨machine, hrun, hcopy⟩ := Option.map_eq_some_iff.mp hcopy
  exact ⟨machine, hrun, (copy_in_ready_iff cacheEngineNew_mini rfl hrun
    hcopy 64).mpr rfl⟩

/-- Nothing in the contract of `CacheEngine::write` keeps a caller from passing
a buffer at an odd address. -/
theorem odd_buffer_not_ready :
    ¬∀ (allocated : Bool) (opened : Except CacheError UInt64)
      (config : CacheConfig) (setup : Setup),
      cacheEngineNew allocated opened config = .ok setup →
      ∀ (base : UInt64), base % 4096 = 0 →
      ∀ (n : Nat) (image : Image) (run : List (Action setup n))
        (machine : Machine setup n),
        Run.exec Machine.step (.init setup n image) run = some machine →
      ∀ (thread : Fin n) (slot : Nat),
        (machine.client thread).copyTarget = some slot →
      ∀ source : UInt64,
        CopyReady (machine.engine.pool base)
          ((machine.engine.pool base).getBlock slot).ptr
          source (UInt64.ofNat setup.blockSize) := by
  intro halways
  have hcopy : (Run.exec Machine.step (.init (.mini 0) 1 stripes) firstCopy).map
      (fun machine => (machine.client lone).copyTarget) = some (some 0) := by
    decide +kernel
  obtain ⟨machine, hrun, hcopy⟩ := Option.map_eq_some_iff.mp hcopy
  have hready := halways _ _ _ _ cacheEngineNew_mini 4096 rfl 1 stripes firstCopy
    machine hrun lone 0 hcopy 1
  exact absurd hready.src_aligned (by decide)

end AsmCacheInject.Concurrent

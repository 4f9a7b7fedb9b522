import AsmCacheInject.Concurrent.Steps
import AsmCacheInject.Data.Ownership

namespace AsmCacheInject.Concurrent

open AsmCacheInject.Cache
open AsmCacheInject.Data
open AsmCacheInject.Engine
open AsmCacheInject.Flush

variable {setup : Setup} {n : Nat}

/-! Who owns a pool slot.  Between `deallocate` and `insert` a slot is neither
free nor mapped: it is in the hands of one client. -/

def Pc.held : Pc setup → Option Nat
  | .freeVictim _ victim => some victim.poolIndex
  | .fetch _ slot => some slot
  | .insertRead _ slot => some slot
  | .fill _ _ slot => some slot
  | .insertWrite _ _ slot => some slot
  | _ => none

def Pc.removes : Pc setup → Option (Lba setup × Nat)
  | .removeVictim _ victim => some (victim.lba, victim.poolIndex)
  | _ => none

/-- The table still maps the LBA of the pair to its slot. -/
def PairCurrent (engine : CacheEngine setup) (pair : Lba setup × Nat) : Prop :=
  engine.table.slotOf pair.1 = some pair.2

instance (engine : CacheEngine setup) (pair : Lba setup × Nat) :
    Decidable (PairCurrent engine pair) :=
  inferInstanceAs (Decidable (_ = _))

@[simp] theorem Miss.held_filling (miss : Miss setup) (slot : Nat) :
    (miss.filling slot).held = some slot := by
  cases miss <;> rfl

@[simp] theorem Call.held_enter (call : Call setup) : call.enter.held = none :=
  call.enter_induction (fun _ => rfl) (fun _ => rfl) fun _ _ => rfl

namespace Machine

def held (machine : Machine setup n) : Fin n → Option Nat :=
  fun thread => (machine.client thread).held

/-- Every slot has at most one owner. -/
def Owned (machine : Machine setup n) : Prop :=
  Exclusive machine.engine.freeList machine.engine.table.slotOf machine.held

theorem held_update (machine : Machine setup n) (thread : Fin n) (pc : Pc setup) :
    (fun other => (Function.update machine.client thread pc other).held) =
      Function.update machine.held thread pc.held := by
  funext other
  by_cases heq : other = thread
  · subst heq
    simp
  · simp [heq, held]

end Machine

/-! One client step moves at most one slot, along one of the rules of
`Exclusive`. -/

section Step

variable {choice : Choice setup} {engine nextEngine : CacheEngine setup}
variable {pc next : Pc setup} {held : Fin n → Option Nat} {thread : Fin n}

theorem ClientStep.exclusive
    (hstep : ClientStep choice engine pc next nextEngine)
    (howned : Exclusive engine.freeList engine.table.slotOf held)
    (hheld : held thread = pc.held)
    (hvictim : ∀ pair ∈ pc.removes, PairCurrent engine pair) :
    Exclusive nextEngine.freeList nextEngine.table.slotOf
      (Function.update held thread next.held) := by
  have hkeeps : next.held = pc.held →
      Function.update held thread next.held = held := by
    intro hsame
    rw [hsame, ← hheld]
    exact Function.update_eq_self thread held
  cases hstep with
  | lookupHit hslot =>
      rw [hkeeps rfl]
      simpa using howned
  | takeFree hfree =>
      rw [Miss.held_filling]
      rw [hfree] at howned
      exact howned.take
  | retake hfree =>
      rw [Miss.held_filling]
      rw [hfree] at howned
      exact howned.take
  | removeVictim =>
      simp only [LbaTable.slotOf_remove_eq_update]
      exact howned.unbind (hvictim _ rfl) thread
  | freeVictim => exact howned.give hheld
  | fetchTorn hio => exact howned.forget thread
  | insertRead =>
      simp only [LbaTable.slotOf_insert_eq_update]
      exact howned.bind hheld _
  | insertWrite =>
      simp only [LbaTable.slotOf_insert_eq_update]
      exact howned.bind hheld _
  | markDirty =>
      rw [hkeeps rfl]
      simpa using howned
  | _ =>
      rw [hkeeps rfl]
      exact howned

/-- A client stores only into the slot in its hands, or on a write hit. -/
theorem ClientStep.blocks_eq {slot : Nat}
    (hstep : ClientStep choice engine pc next nextEngine)
    (hheld : pc.held ≠ some slot) (hhit : ∀ lba buf, pc ≠ .writeHit lba buf slot) :
    nextEngine.blocks slot = engine.blocks slot := by
  cases hstep with
  | fetched hio =>
      apply CacheEngine.fill_blocks_of_ne
      intro heq
      subst heq
      exact hheld rfl
  | fetchTorn hio =>
      apply CacheEngine.fill_blocks_of_ne
      intro heq
      subst heq
      exact hheld rfl
  | writeHit =>
      apply CacheEngine.fill_blocks_of_ne
      intro heq
      subst heq
      exact hhit _ _ rfl
  | fill =>
      apply CacheEngine.fill_blocks_of_ne
      intro heq
      subst heq
      exact hheld rfl
  | _ => rfl

theorem FlusherStep.blocks_eq {flusherPc nextPc : FlusherPc setup}
    (hstep : FlusherStep choice engine flusherPc nextPc nextEngine) :
    nextEngine.blocks = engine.blocks := by
  cases hstep <;> rfl

theorem FlusherStep.exclusive {flusherPc nextPc : FlusherPc setup}
    (hstep : FlusherStep choice engine flusherPc nextPc nextEngine)
    (howned : Exclusive engine.freeList engine.table.slotOf held) :
    Exclusive nextEngine.freeList nextEngine.table.slotOf held := by
  cases hstep with
  | cleaned => simpa using howned
  | _ => exact howned

end Step

namespace Machine

/-- A client that takes its victim out of the table finds the entry it
selected. -/
def EvictsOwnSlot (machine : Machine setup n) : Action setup n → Prop
  | .client thread _ =>
      ∀ pair ∈ (machine.client thread).removes, PairCurrent machine.engine pair
  | _ => True

instance (machine : Machine setup n) : (action : Action setup n) →
    Decidable (machine.EvictsOwnSlot action)
  | .client _ _ => inferInstanceAs (Decidable (∀ pair ∈ Pc.removes _, _))
  | .invoke _ _ | .respond _ | .flush _ | .start | .stop => isTrue trivial

theorem owned_init (setup : Setup) (n : Nat) (image : Image) :
    (init setup n image).Owned where
  free_nodup := by simp [init, CacheEngine.boot, List.nodup_range]
  free_unmapped := by simp [init, CacheEngine.boot]
  mapped_unique := by simp [init, CacheEngine.boot]
  held_not_free := by simp [held, init, Pc.held]
  held_unmapped := by simp [held, init, Pc.held]
  held_unique := by simp [held, init, Pc.held]

theorem Owned.step {machine next : Machine setup n} {action : Action setup n}
    (howned : machine.Owned) (hguard : machine.EvictsOwnSlot action)
    (hstep : machine.step action = some next) : next.Owned := by
  cases step_cases hstep with
  | invoke howner hidle =>
      unfold Owned held
      rw [held_update, Call.held_enter]
      exact howned.forget _
  | client hclient =>
      unfold Owned held
      rw [held_update]
      exact hclient.exclusive howned rfl hguard
  | respond hdone =>
      unfold Owned held
      rw [held_update]
      exact howned.forget _
  | flush hflush => exact hflush.exclusive howned
  | owner howner => exact howned

theorem Owned.blocks_held_elsewhere {machine : Machine setup n}
    (howned : machine.Owned) {thread other : Fin n}
    {choice : Choice setup} {pc : Pc setup} {engine : CacheEngine setup}
    (hstep : ClientStep choice machine.engine (machine.client thread) pc engine)
    (hhit : ∀ lba buf slot, machine.client thread = .writeHit lba buf slot →
      machine.engine.table.slotOf lba = some slot)
    (hne : other ≠ thread) {slot : Nat}
    (hheld : (machine.client other).held = some slot) :
    engine.blocks slot = machine.engine.blocks slot := by
  apply hstep.blocks_eq
  · intro hsame
    exact hne (howned.held_unique other thread slot hheld hsame)
  · intro lba buf hpc
    exact howned.held_unmapped other slot hheld lba (hhit lba buf slot hpc)

/-- No index is twice on the free list, on the free list and in the table, or
in the table under two LBAs. -/
structure SlotsDisjoint (machine : Machine setup n) : Prop where
  free_nodup : machine.engine.freeList.Nodup
  free_unmapped : ∀ slot ∈ machine.engine.freeList,
    ∀ lba, machine.engine.table.slotOf lba ≠ some slot
  mapped_unique : ∀ first second slot,
    machine.engine.table.slotOf first = some slot →
    machine.engine.table.slotOf second = some slot → first = second

/-- Any number of clients beside the flush thread, under any interleaving and
any I/O failures. -/
theorem slots_disjoint {image : Image} {run : List (Action setup n)}
    {machine : Machine setup n}
    (hguard : Run.Along step EvictsOwnSlot (init setup n image) run)
    (hrun : Run.exec step (init setup n image) run = some machine) :
    machine.SlotsDisjoint := by
  have howned : machine.Owned :=
    Run.invariant_state (owned_init setup n image)
      (fun _ _ _ howned hguard hstep => howned.step hguard hstep) hguard hrun
  exact ⟨howned.free_nodup, howned.free_unmapped, howned.mapped_unique⟩

def evictionRun : List (Action (.mini 0) 2) :=
  List.flatten [
    [.invoke clientA (.read 0)], advance clientA 5 1,
    [.invoke clientB (.read 1)], advance clientB 8 2]

theorem slots_disjoint_after_eviction :
    ∃ machine, Run.exec step (init (.mini 0) 2 fun _ => 0) evictionRun =
      some machine ∧ machine.SlotsDisjoint := by
  have hruns : (Run.exec step (init (.mini 0) 2 fun _ => 0)
      evictionRun).isSome = true := by
    decide +kernel
  obtain ⟨machine, hrun⟩ := Option.isSome_iff_exists.mp hruns
  exact ⟨machine, hrun, slots_disjoint (by decide +kernel) hrun⟩

/-- Two misses select the same clean victim.  The second `remove` finds
nothing, its result is ignored, and the slot is freed twice. -/
def doubleEviction : List (Action (.mini 0) 2) :=
  List.flatten [
    [.invoke clientA (.read 0)], advance clientA 5 1, [.respond clientA],
    [.invoke clientA (.read 1)], advance clientA 3 2,
    [.invoke clientB (.read 2)], advance clientB 3 3,
    advance clientA 2 4, advance clientB 2 5]

theorem doubleEviction_frees_slot_twice :
    ¬∀ (setup : Setup) (n : Nat) (image : Image) (run : List (Action setup n))
      (machine : Machine setup n), 2 ≤ n →
      (∀ action ∈ run, action.faultless = true) →
      Run.exec step (init setup n image) run = some machine →
      machine.SlotsDisjoint := by
  intro hdisjoint
  have hfree : (Run.exec step (init (.mini 0) 2 fun _ => 0)
      doubleEviction).map (·.engine.freeList) = some [0, 0] := by
    decide +kernel
  obtain ⟨machine, hrun, htwice⟩ := Option.map_eq_some_iff.mp hfree
  have hnodup := (hdisjoint (.mini 0) 2 _ _ machine le_rfl
    (by decide +kernel) hrun).free_nodup
  rw [htwice] at hnodup
  exact absurd hnodup (by decide)

end Machine

end AsmCacheInject.Concurrent

import AsmCacheInject.Concurrent.Coherence

namespace AsmCacheInject.Concurrent

open AsmCacheInject.Cache
open AsmCacheInject.Data
open AsmCacheInject.Engine
open AsmCacheInject.Flush

variable {setup : Setup}

/-! One client beside the flush thread.  The client is always orderly towards
itself; what is left to ask is about the flush thread. -/

def Pc.flags : Pc setup → Option (Lba setup)
  | .markDirty lba _ => some lba
  | .insertWrite lba _ _ => some lba
  | _ => none

namespace Machine

/-- The client sets no flag between the flush thread's pwrite of the block and
its `mark_clean`, and the flush thread's write-backs are orderly. -/
def FlushesSafely (machine : Machine setup 1) : Action setup 1 → Prop
  | .client thread _ =>
      ∀ lba ∈ (machine.client thread).flags, machine.flusher.clearing ≠ some lba
  | .flush _ => machine.flusher.Orderly machine
  | _ => True

instance (machine : Machine setup 1) : (action : Action setup 1) →
    Decidable (machine.FlushesSafely action)
  | .client _ _ => inferInstanceAs (Decidable (∀ lba ∈ Pc.flags _, _))
  | .flush _ => inferInstanceAs (Decidable (FlusherPc.Orderly _ _))
  | .invoke _ _ | .respond _ | .start | .stop => isTrue trivial

variable {machine next : Machine setup 1} {action : Action setup 1}

theorem Alone.orderly (halone : machine.Alone)
    (hsafe : machine.FlushesSafely action) : machine.Orderly action := by
  cases action with
  | client thread choice =>
      obtain rfl : thread = 0 := Subsingleton.elim thread 0
      have hcurrent := halone.current
      have hflags : ∀ lba ∈ (machine.client 0).flags,
        machine.flusher.clearing ≠ some lba := hsafe
      simp only [Orderly]
      cases hpc : machine.client 0 with
      | select miss =>
          intro victim hselect hflush other
          rw [Subsingleton.elim other 0, hpc]
          exact (Option.some_ne_none _).symm
      | flushVictim miss victim =>
          rw [hpc] at hcurrent
          refine ⟨hcurrent.2, fun other => ?_⟩
          rw [Subsingleton.elim other 0, hpc]
          exact (Option.some_ne_none _).symm
      | removeVictim miss victim =>
          rw [hpc] at hcurrent
          exact hcurrent.2
      | insertRead lba slot =>
          rw [hpc] at hcurrent
          exact hcurrent
      | writeHit lba buf slot =>
          rw [hpc] at hcurrent
          refine ⟨hcurrent, fun other => ?_⟩
          rw [Subsingleton.elim other 0, hpc]
          exact (Option.some_ne_none _).symm
      | markDirty lba buf =>
          rw [hpc] at hflags
          exact hflags lba rfl
      | insertWrite lba buf slot =>
          rw [hpc] at hflags
          refine ⟨fun other => ?_, hflags lba rfl⟩
          rw [Subsingleton.elim other 0, hpc]
          exact (Option.some_ne_none _).symm
      | _ => trivial
  | flush choice => exact hsafe
  | _ => trivial

theorem clean_blocks_on_device {image : Image} {run : List (Action setup 1)}
    (hfaultless : ∀ action ∈ run, action.faultless = true)
    (hguard : Run.Along step FlushesSafely (init setup 1 image) run)
    (hrun : Run.exec step (init setup 1 image) run = some machine)
    (hidle : machine.client 0 = .idle) (lba : Lba setup) (slot : Nat)
    (hslot : machine.engine.table.slotOf lba = some slot)
    (hclean : machine.engine.table.dirtyOf lba = some false) :
    machine.engine.blocks slot = readLba machine.engine.device lba := by
  have hinv : machine.Alone ∧ machine.Coherent := by
    apply Run.invariant_state
      ⟨alone_init setup image, coherent_init setup 1 image⟩ ?_
      (Run.along_and (Run.along_of_forall hfaultless) hguard) hrun
    intro state action next hinv hallowed hstep
    obtain ⟨halone, hcoherent⟩ := hinv
    obtain ⟨hio, hsafe⟩ := hallowed
    exact ⟨halone.step hstep, hcoherent.step (halone.orderly hsafe) hio hstep⟩
  rcases hinv.2.clean lba hclean with hsaved | ⟨thread, hmarking⟩
  · exact hsaved slot hslot
  · rw [Subsingleton.elim thread 0, hidle] at hmarking
    cases hmarking

/-- The client evicts block 0 for block 1 between the pwrite of the flush
thread and its `mark_clean`. -/
def evictedFlush : List (Action (.mini 0) 1) :=
  List.flatten [
    [.start, .invoke lone (.write 0 fun _ => 5)], advance lone 6 1,
    [.respond lone], .replicate 3 (.flush (.calm 2)),
    [.invoke lone (.read 1)], advance lone 11 3,
    [.respond lone, .flush (.calm 4)]]

theorem evictedFlush_on_device :
    ∃ machine, Run.exec step (init (.mini 0) 1 stripes) evictedFlush =
        some machine ∧
      machine.engine.table.dirtyOf 1 = some false ∧
      machine.engine.blocks 0 = readLba machine.engine.device 1 := by
  have hflushed : (Run.exec step (init (.mini 0) 1 stripes) evictedFlush).map
      (fun machine => ((machine.client 0).isIdle, machine.engine.table.slotOf 1,
        machine.engine.table.dirtyOf 1)) = some (true, some 0, some false) := by
    decide +kernel
  obtain ⟨machine, hrun, hfinal⟩ := Option.map_eq_some_iff.mp hflushed
  obtain ⟨hidle, hslot, hclean⟩ : (machine.client 0).isIdle = true ∧
      machine.engine.table.slotOf 1 = some 0 ∧
      machine.engine.table.dirtyOf 1 = some false := by
    simpa only [Prod.mk.injEq] using hfinal
  have hguard : Run.Along step FlushesSafely (init (.mini 0) 1 stripes)
      evictedFlush := by
    decide +kernel
  exact ⟨machine, hrun, hclean, clean_blocks_on_device (by decide +kernel) hguard
    hrun (Pc.isIdle_iff.mp hidle) 1 0 hslot hclean⟩

/-- The client writes block 0 again between the pwrite of the flush thread and
its `mark_clean`. -/
def lostFlag : List (Action (.mini 0) 1) :=
  List.flatten [
    [.start, .invoke lone (.write 0 fun _ => 5)], advance lone 6 1,
    [.respond lone], .replicate 3 (.flush (.calm 2)),
    [.invoke lone (.write 0 fun _ => 6)], advance lone 5 3,
    [.respond lone, .flush (.calm 4)]]

theorem lostFlag_leaves_unsaved_clean_block :
    ¬∀ (setup : Setup) (image : Image) (run : List (Action setup 1))
      (machine : Machine setup 1),
      (∀ action ∈ run, action.faultless = true) →
      Run.exec step (init setup 1 image) run = some machine →
      machine.client 0 = .idle → ∀ lba slot,
      machine.engine.table.slotOf lba = some slot →
      machine.engine.table.dirtyOf lba = some false →
      machine.engine.blocks slot = readLba machine.engine.device lba := by
  intro hsaved
  have hlost : (Run.exec step (init (.mini 0) 1 stripes) lostFlag).map
      (fun machine => ((machine.client 0).isIdle, machine.engine.table.slotOf 0,
        machine.engine.table.dirtyOf 0, machine.engine.blocks 0 0,
        readLba machine.engine.device (0 : Lba (.mini 0)) 0)) =
      some (true, some 0, some false, 6, 5) := by
    decide +kernel
  obtain ⟨machine, hrun, hfinal⟩ := Option.map_eq_some_iff.mp hlost
  obtain ⟨hidle, hslot, hclean, hblock, hdevice⟩ :
      (machine.client 0).isIdle = true ∧
      machine.engine.table.slotOf 0 = some 0 ∧
      machine.engine.table.dirtyOf 0 = some false ∧
      machine.engine.blocks 0 0 = 6 ∧
      readLba machine.engine.device (0 : Lba (.mini 0)) 0 = 5 := by
    simpa only [Prod.mk.injEq] using hfinal
  have hsame := hsaved (.mini 0) stripes lostFlag machine (by decide +kernel) hrun
    (Pc.isIdle_iff.mp hidle) 0 0 hslot hclean
  rw [hsame, hdevice] at hblock
  exact absurd hblock (by decide)

end Machine

end AsmCacheInject.Concurrent

import AsmCacheInject.Concurrent.Content
import AsmCacheInject.Concurrent.Writeback

namespace AsmCacheInject.Concurrent

open AsmCacheInject.Cache
open AsmCacheInject.Data
open AsmCacheInject.Engine
open AsmCacheInject.Flush

variable {setup : Setup}

/-! `CacheEngine::stop` on a started engine with one client.  Two arguments
meet when `stop` returns: the engine's content is what the acknowledged writes
left, and no entry is dirty. -/

/-! Acknowledged writes and the content. -/

section Step

variable {choice : Choice setup} {engine nextEngine : CacheEngine setup}
variable {pc next : Pc setup}

theorem ClientStep.unreported (hstep : ClientStep choice engine pc next nextEngine)
    (initial : Lba setup → Block setup) :
    Register.replay initial next.unreported =
      applyWrite (Register.replay initial pc.unreported) pc.commits := by
  cases hstep with
  | takeFree hfree =>
      rw [Miss.unreported_filling]
      rfl
  | retake hfree =>
      rw [Miss.unreported_filling]
      rfl
  | _ => rfl

end Step

/-! The cycle the flush thread is in when the stop flag goes up. -/

/-- The flush thread still comes to `lba` before its next stop check. -/
def FlusherPc.Ahead (lba : Lba setup) : FlusherPc setup → Prop
  | .waiting => True
  | .snapshot _ => True
  | .writing _ target _ rest _ => lba = target ∨ lba ∈ rest.map Prod.fst
  | .cleaning _ target rest _ => lba = target ∨ lba ∈ rest.map Prod.fst
  | _ => False

instance (lba : Lba setup) : (pc : FlusherPc setup) → Decidable (pc.Ahead lba)
  | .waiting | .snapshot _ => isTrue trivial
  | .writing _ _ _ _ _ => inferInstanceAs (Decidable (_ ∨ _ ∈ _))
  | .cleaning _ _ _ _ => inferInstanceAs (Decidable (_ ∨ _ ∈ _))
  | .off | .syncing _ | .checking _ | .exited => isFalse id

theorem FlusherPc.ahead_resume {lba : Lba setup} {rest : List (Lba setup × Nat)}
    (hmem : lba ∈ rest.map Prod.fst) (signal : Option FlushSignal) (flushed : Nat) :
    (FlusherPc.resume signal rest flushed).Ahead lba := by
  cases rest with
  | nil => cases hmem
  | cons pair rest => exact List.mem_cons.mp hmem

section Cycle

variable {choice : Choice setup} {engine nextEngine : CacheEngine setup}
variable {flusherPc nextPc : FlusherPc setup} {lba : Lba setup}

theorem FlusherStep.dirty_before
    (hstep : FlusherStep choice engine flusherPc nextPc nextEngine)
    (hdirty : nextEngine.table.dirtyOf lba = some true) :
    engine.table.dirtyOf lba = some true := by
  cases hstep with
  | cleaned =>
      simp only [LbaTable.dirtyOf_markClean] at hdirty
      split at hdirty
      · obtain ⟨_, _, hfalse⟩ := Option.map_eq_some_iff.mp hdirty
        cases hfalse
      · exact hdirty
  | _ => exact hdirty

theorem FlusherStep.ahead
    (hstep : FlusherStep choice engine flusherPc nextPc nextEngine)
    (hkeyed : engine.table.SelfKeyed) (hio : choice.io.succeeds = true)
    (hahead : ∀ lba, engine.table.dirtyOf lba = some true → flusherPc.Ahead lba)
    (hdirty : nextEngine.table.dirtyOf lba = some true) : nextPc.Ahead lba := by
  cases hstep with
  | disconnected hchannel => trivial
  | received hchannel => trivial
  | snapshot =>
      exact FlusherPc.ahead_resume
        (LbaTable.dirty_mem_dirtyEntries hkeyed _ lba hdirty) _ _
  | written hok => exact hahead lba hdirty
  | torn hfail => exact absurd hfail (IoOutcome.ne_fail hio _ _)
  | @cleaned signal target rest flushed =>
      simp only [LbaTable.dirtyOf_markClean] at hdirty
      split at hdirty
      · obtain ⟨_, _, hfalse⟩ := Option.map_eq_some_iff.mp hdirty
        cases hfalse
      · next hne =>
        apply FlusherPc.ahead_resume
        exact (hahead lba hdirty).resolve_left hne
  | synced => exact hahead lba hdirty
  | exit hstop => exact hahead lba hdirty
  | again hsignal hstop => trivial

end Cycle

namespace Machine

/-- What makes `stop` flush everything.  The flush thread writes back current
pairs, the client sets no flag that is about to be cleared, and when the stop
flag goes up, every dirty entry is ahead of the flush thread. -/
def DrainsOnStop (machine : Machine setup 1) : Action setup 1 → Prop
  | .client thread _ =>
      ∀ lba ∈ (machine.client thread).flags, machine.flusher.clearing ≠ some lba
  | .flush _ =>
      ∀ pair ∈ machine.flusher.accesses, PairCurrent machine.engine pair
  | .stop =>
      machine.owner = .storing →
        ∀ lba, machine.engine.table.dirtyOf lba = some true →
          machine.flusher.Ahead lba
  | _ => True

instance (machine : Machine setup 1) : (action : Action setup 1) →
    Decidable (machine.DrainsOnStop action)
  | .client _ _ => inferInstanceAs (Decidable (∀ lba ∈ Pc.flags _, _))
  | .flush _ => inferInstanceAs (Decidable (∀ pair ∈ FlusherPc.accesses _, _))
  | .stop => inferInstanceAs (Decidable (_ = _ → ∀ _, _ = _ → _))
  | .invoke _ _ | .respond _ | .start => isTrue trivial

variable {machine next : Machine setup 1} {action : Action setup 1}

theorem Alone.inserting_absent (halone : machine.Alone) {lba : Lba setup}
    (hinserting : (machine.client 0).inserting = some lba) :
    machine.engine.table.slotOf lba = none := by
  have hcurrent := halone.current
  cases hpc : machine.client 0 with
  | insertRead target slot =>
      rw [hpc] at hinserting hcurrent
      cases hinserting
      exact hcurrent
  | _ =>
      rw [hpc] at hinserting
      cases hinserting

theorem Alone.flushesSafely (halone : machine.Alone)
    (hdrains : machine.DrainsOnStop action) : machine.FlushesSafely action := by
  cases action with
  | client thread choice => exact hdrains
  | flush choice =>
      have hpairs : ∀ pair ∈ machine.flusher.accesses,
        PairCurrent machine.engine pair := hdrains
      simp only [FlushesSafely]
      cases hflusher : machine.flusher with
      | writing signal lba slot rest flushed =>
          rw [hflusher] at hpairs
          have hpair : machine.engine.table.slotOf lba = some slot := hpairs _ rfl
          constructor
          · intro mapped hmapped
            exact Option.some.inj (hmapped.symm.trans hpair)
          · intro thread hinserting
            rw [Subsingleton.elim thread 0] at hinserting
            cases hpair.symm.trans (halone.inserting_absent hinserting)
      | _ => trivial
  | _ => trivial

theorem Alone.keepsContent (halone : machine.Alone)
    (hdrains : machine.DrainsOnStop action) : machine.KeepsContent action := by
  refine ⟨halone.orderly (halone.flushesSafely hdrains), ?_⟩
  cases action with
  | flush choice => exact hdrains
  | _ => trivial

theorem reports_step (hstep : machine.step action = some next)
    (initial : Lba setup → Block setup) :
    Register.replay initial
        (machine.emitted action ++ (next.client 0).unreported) =
      applyWrite (Register.replay initial (machine.client 0).unreported)
        (machine.commits action) := by
  cases step_cases hstep with
  | @invoke thread call howner hidle =>
      obtain rfl : thread = 0 := Subsingleton.elim thread 0
      simp only [Function.update_self, Call.unreported_enter, hidle]
      rfl
  | @client thread choice pc engine hclient =>
      obtain rfl : thread = 0 := Subsingleton.elim thread 0
      simp only [Function.update_self]
      exact hclient.unreported initial
  | @respond thread outcome hdone =>
      obtain rfl : thread = 0 := Subsingleton.elim thread 0
      simp only [Function.update_self, emitted, hdone, Pc.unreported,
        List.append_nil]
      rfl
  | flush hflush => rfl
  | owner howner => cases howner <;> rfl

/-- The content is what the run's reports left behind, plus the write that is
visible but not reported yet. -/
structure Faithful (image : Image) (past : List (Action setup 1))
    (machine : Machine setup 1) : Prop where
  reached : Run.exec step (init setup 1 image) past = some machine
  alone : machine.Alone
  staged : machine.Staged
  content : machine.engine.content =
    Register.replay (readLba image)
      (Run.trace step emitted (init setup 1 image) past ++
        (machine.client 0).unreported)

theorem faithful_init (setup : Setup) (image : Image) :
    (init setup 1 image).Faithful image [] where
  reached := rfl
  alone := alone_init setup image
  staged := staged_init setup 1 image
  content := by
    funext lba
    exact CacheEngine.content_of_absent (LbaTable.slotOf_new lba)

theorem Faithful.step {image : Image} {past : List (Action setup 1)}
    (hfaithful : machine.Faithful image past)
    (hdrains : machine.DrainsOnStop action) (hio : action.faultless = true)
    (hstep : machine.step action = some next) :
    next.Faithful image (past ++ [action]) := by
  have hkeeps := hfaithful.alone.keepsContent hdrains
  refine {
    reached := Run.exec_concat_eq_some.mpr ⟨machine, hfaithful.reached, hstep⟩
    alone := hfaithful.alone.step hstep
    staged := hfaithful.staged.step hkeeps.1 hio hstep
    content := ?_ }
  rw [hfaithful.staged.content_step hkeeps hio hstep, hfaithful.content,
    Run.trace_append hfaithful.reached, Run.trace_singleton, List.append_assoc,
    Register.replay_append, Register.replay_append, reports_step hstep]

/-- The shutdown protocol.  The client stays out of the engine, no dirty entry
falls behind the flush thread once the flag is up, and nothing is dirty after
the join. -/
structure Winding (machine : Machine setup 1) : Prop where
  idle : machine.owner ≠ .running → machine.client 0 = .idle
  ahead : machine.owner = .sending ∨ machine.owner = .joining →
    ∀ lba, machine.engine.table.dirtyOf lba = some true → machine.flusher.Ahead lba
  drained : machine.owner = .returned →
    ∀ lba, machine.engine.table.dirtyOf lba ≠ some true

theorem winding_of_running (hrunning : machine.owner = .running) :
    machine.Winding where
  idle := fun hne => absurd hrunning hne
  ahead := fun howner => by
    rw [hrunning] at howner
    rcases howner with howner | howner <;> cases howner
  drained := fun howner => by
    rw [hrunning] at howner
    cases howner

theorem Winding.step (hwinding : machine.Winding)
    (hkeyed : machine.engine.table.SelfKeyed)
    (hdrains : machine.DrainsOnStop action) (hio : action.faultless = true)
    (hstep : machine.step action = some next) : next.Winding := by
  cases step_cases hstep with
  | invoke hrunning hidle => exact winding_of_running hrunning
  | @client thread choice pc engine hclient =>
      obtain rfl : thread = 0 := Subsingleton.elim thread 0
      apply winding_of_running
      by_contra hne
      rw [hwinding.idle hne] at hclient
      cases hclient
  | @respond thread outcome hdone =>
      obtain rfl : thread = 0 := Subsingleton.elim thread 0
      apply winding_of_running
      by_contra hne
      rw [hwinding.idle hne] at hdone
      cases hdone
  | flush hflush =>
      refine ⟨hwinding.idle, ?_, ?_⟩
      · intro howner lba
        exact hflush.ahead hkeyed hio (hwinding.ahead howner)
      · intro howner lba hdirty
        exact hwinding.drained howner lba (hflush.dirty_before hdirty)
  | owner howner =>
      cases howner with
      | startSkipped => exact hwinding
      | started hrunning hchannel => exact winding_of_running hrunning
      | stopSkipped hrunning => exact winding_of_running hrunning
      | stopCalled hrunning hquiet hchannel =>
          refine ⟨fun _ => Pc.isIdle_iff.mp (hquiet 0), ?_, ?_⟩
          · intro howner
            rcases howner with howner | howner <;> cases howner
          · intro howner
            cases howner
      | flagStored hstoring =>
          refine ⟨fun _ => hwinding.idle ?_, fun _ => hdrains hstoring, ?_⟩
          · rw [hstoring]
            decide
          · intro howner
            cases howner
      | signalSent hsending =>
          refine ⟨fun _ => hwinding.idle ?_,
            fun _ => hwinding.ahead (.inl hsending), ?_⟩
          · rw [hsending]
            decide
          · intro howner
            cases howner
      | joined hjoining hexited =>
          refine ⟨fun _ => hwinding.idle ?_, ?_, ?_⟩
          · rw [hjoining]
            decide
          · intro howner
            rcases howner with howner | howner <;> cases howner
          · intro _ lba hdirty
            have hahead := hwinding.ahead (.inr hjoining) lba hdirty
            rw [hexited] at hahead
            exact hahead
      | stopReturned hreturned => exact winding_of_running rfl

theorem Coherent.device_eq_content (hcoherent : machine.Coherent)
    (hidle : machine.client 0 = .idle)
    (hdrained : ∀ lba, machine.engine.table.dirtyOf lba ≠ some true)
    (lba : Lba setup) :
    readLba machine.engine.device lba = machine.engine.content lba := by
  cases hslot : machine.engine.table.slotOf lba with
  | none => exact (CacheEngine.content_of_absent hslot).symm
  | some slot =>
      have hclean : machine.engine.table.dirtyOf lba = some false := by
        cases hdirty : machine.engine.table.dirtyOf lba with
        | none => cases hslot.symm.trans (LbaTable.dirtyOf_eq_none_iff.mp hdirty)
        | some dirty =>
            cases dirty with
            | false => rfl
            | true => exact absurd hdirty (hdrained lba)
      rw [CacheEngine.content_of_cached hslot]
      rcases hcoherent.clean lba hclean with hsaved | ⟨thread, hmarking⟩
      · exact (hsaved slot hslot).symm
      · rw [Subsingleton.elim thread 0, hidle] at hmarking
        cases hmarking

/-- When `stop` returns no entry is dirty, and the device holds for every LBA
the last acknowledged write, or what it held at the beginning. -/
theorem stop_flushes_everything {image : Image} {run : List (Action setup 1)}
    (hfaultless : ∀ action ∈ run, action.faultless = true)
    (hguard : Run.Along step DrainsOnStop (init setup 1 image) run)
    (hrun : Run.exec step (init setup 1 image) run = some machine)
    (hreturned : machine.owner = .returned) :
    (∀ lba, machine.engine.table.dirtyOf lba ≠ some true) ∧
      ∀ lba, readLba machine.engine.device lba =
        (Register.lastWrite lba
          (Run.trace step emitted (init setup 1 image) run)).getD
          (readLba image lba) := by
  obtain ⟨hfaithful, hwinding⟩ :
      machine.Faithful image run ∧ machine.Winding := by
    apply Run.invariant
      (I := fun past machine => Faithful image past machine ∧ Winding machine)
      ⟨faithful_init setup image, winding_of_running rfl⟩ ?_
      (Run.along_and (Run.along_of_forall hfaultless) hguard) hrun
    intro past state action next hinv hallowed hstep
    obtain ⟨hfaithful, hwinding⟩ := hinv
    obtain ⟨hio, hdrains⟩ := hallowed
    exact ⟨hfaithful.step hdrains hio hstep,
      hwinding.step hfaithful.alone.keyed hdrains hio hstep⟩
  have hdrained := hwinding.drained hreturned
  have hidle : machine.client 0 = .idle := by
    apply hwinding.idle
    rw [hreturned]
    decide
  have hreported : (machine.client 0).unreported = [] := by
    rw [hidle]
    rfl
  refine ⟨hdrained, fun lba => ?_⟩
  rw [hfaithful.staged.coherent.device_eq_content hidle hdrained,
    hfaithful.content, hreported, List.append_nil]
  exact Register.replay_eq_lastWrite _ _ lba

/-- Block 0 is written back by the flush thread and again by an eviction
before `stop` is called. -/
def drainedStop : List (Action (.mini 0) 1) :=
  List.flatten [
    [.start, .invoke lone (.write 0 fun _ => 5)], advance lone 6 1,
    [.respond lone], .replicate 3 (.flush (.calm 2)),
    [.invoke lone (.read 1)], advance lone 11 3, [.respond lone],
    .replicate 3 (.flush (.calm 4)), .replicate 3 .stop,
    .replicate 3 (.flush (.calm 5)), [.stop]]

theorem drainedStop_flushes_everything :
    ∃ machine, Run.exec step (init (.mini 0) 1 stripes) drainedStop =
        some machine ∧ machine.owner = .returned ∧
      (∀ lba, machine.engine.table.dirtyOf lba ≠ some true) ∧
      readLba machine.engine.device (0 : Lba (.mini 0)) = fun _ => 5 := by
  have hlast : Register.lastWrite 0 (Run.trace step emitted
      (init (.mini 0) 1 stripes) drainedStop) = some fun _ => 5 := rfl
  have hstops : (Run.exec step (init (.mini 0) 1 stripes) drainedStop).map
      (·.owner) = some .returned := by
    decide +kernel
  obtain ⟨machine, hrun, hreturned⟩ := Option.map_eq_some_iff.mp hstops
  have hguard : Run.Along step DrainsOnStop (init (.mini 0) 1 stripes)
      drainedStop := by
    decide +kernel
  obtain ⟨hdrained, hdevice⟩ :=
    stop_flushes_everything (by decide +kernel) hguard hrun hreturned
  exact ⟨machine, hrun, hreturned, hdrained, by rw [hdevice 0, hlast]; rfl⟩

/-- The write is acknowledged after the last snapshot and before the stop
check that follows it. -/
def lateWrite : List (Action (.mini 0) 1) :=
  List.flatten [
    [.start], .replicate 2 (.flush (.calm 1)),
    [.invoke lone (.write 0 fun _ => 5)], advance lone 6 2, [.respond lone],
    .replicate 3 .stop, [.flush (.calm 3), .stop]]

theorem lateWrite_stays_dirty :
    ¬∀ (setup : Setup) (image : Image) (run : List (Action setup 1))
      (machine : Machine setup 1),
      (∀ action ∈ run, action.faultless = true) →
      Run.exec step (init setup 1 image) run = some machine →
      machine.owner = .returned →
      (∀ lba, machine.engine.table.dirtyOf lba ≠ some true) ∧
        ∀ lba, readLba machine.engine.device lba =
          (Register.lastWrite lba
            (Run.trace step emitted (init setup 1 image) run)).getD
            (readLba image lba) := by
  intro hflushes
  have hdirty : (Run.exec step (init (.mini 0) 1 stripes) lateWrite).map
      (fun machine => (machine.owner, machine.engine.table.dirtyOf 0)) =
      some (.returned, some true) := by
    decide +kernel
  obtain ⟨machine, hrun, hfinal⟩ := Option.map_eq_some_iff.mp hdirty
  obtain ⟨hreturned, hdirty⟩ := Prod.mk.inj hfinal
  exact (hflushes (.mini 0) stripes lateWrite machine (by decide +kernel) hrun
    hreturned).1 0 hdirty

end Machine

end AsmCacheInject.Concurrent

import AsmCacheInject.Cache.Stats
import AsmCacheInject.Concurrent.Resident
import AsmCacheInject.Concurrent.Signalling

namespace AsmCacheInject.Concurrent

open AsmCacheInject.Cache
open AsmCacheInject.Data
open AsmCacheInject.Engine
open AsmCacheInject.Flush

variable {setup : Setup} {n : Nat}

/-! `CacheEngine::stop` returns.  Once the flag is up and the signal is sent,
the flush thread finishes the cycle it is in or runs one more, and leaves. -/

def FlusherPc.stepsLeft : FlusherPc setup → Nat
  | .off => 0
  | .waiting => 2 * setup.maxLba + 4
  | .snapshot _ => 2 * setup.maxLba + 3
  | .writing _ _ _ rest _ => 2 * rest.length + 4
  | .cleaning _ _ rest _ => 2 * rest.length + 3
  | .syncing _ => 2
  | .checking _ => 1
  | .exited => 0

theorem FlusherPc.stepsLeft_resume_le (signal : Option FlushSignal)
    (pairs : List (Lba setup × Nat)) (flushed : Nat) :
    (FlusherPc.resume signal pairs flushed).stepsLeft ≤ 2 * pairs.length + 2 := by
  cases pairs with
  | nil =>
      simp only [FlusherPc.resume]
      split <;> simp [FlusherPc.stepsLeft]
  | cons pair rest =>
      simp only [FlusherPc.resume, FlusherPc.stepsLeft, List.length_cons]
      omega

theorem FlusherPc.stepsLeft_le {pc : FlusherPc setup}
    (hshort : pc.pairs.length ≤ setup.maxLba) :
    pc.stepsLeft ≤ 2 * setup.maxLba + 4 := by
  cases pc with
  | writing signal lba slot rest flushed =>
      simp only [FlusherPc.pairs, List.length_cons] at hshort
      simp only [FlusherPc.stepsLeft]
      omega
  | cleaning signal lba rest flushed =>
      simp only [FlusherPc.pairs] at hshort
      simp only [FlusherPc.stepsLeft]
      omega
  | _ =>
      simp only [FlusherPc.stepsLeft]
      omega

theorem length_dirtyEntries_le (order : HashOrder (CacheEntry (Lba setup)))
    (table : LbaTable (Lba setup)) :
    (table.dirtyEntries order).length ≤ setup.maxLba := by
  have hperm := (order.arrange_perm (Keyed.rows table)).filter (·.dirty)
  calc
    (table.dirtyEntries order).length = table.stats.dirtyEntries := by
      simp only [LbaTable.dirtyEntries, List.length_map]
      exact hperm.length_eq
    _ = table.dirty.card := table.stats_dirtyEntries
    _ ≤ setup.maxLba := by simpa using Finset.card_le_univ table.dirty

section Step

variable {choice : Choice setup} {engine nextEngine : CacheEngine setup}

theorem FlusherStep.short {pc next : FlusherPc setup}
    (hstep : FlusherStep choice engine pc next nextEngine)
    (hshort : pc.pairs.length ≤ setup.maxLba) :
    next.pairs.length ≤ setup.maxLba := by
  cases hstep with
  | snapshot =>
      rw [FlusherPc.pairs_resume]
      exact length_dirtyEntries_le choice.order engine.table
  | written hok =>
      simp only [FlusherPc.pairs, List.length_cons] at hshort ⊢
      omega
  | torn hfail =>
      rw [FlusherPc.pairs_resume]
      simp only [FlusherPc.pairs, List.length_cons] at hshort
      omega
  | cleaned =>
      rw [FlusherPc.pairs_resume]
      exact hshort
  | _ => exact hshort

theorem FlusherStep.stepsLeft {pc next : FlusherPc setup}
    (hstep : FlusherStep choice engine pc next nextEngine)
    (hflag : engine.flusher.map (·.stop) = some true) :
    next.stepsLeft < pc.stepsLeft := by
  cases hstep with
  | disconnected hchannel => simp [FlusherPc.stepsLeft]
  | received hchannel => simp [FlusherPc.stepsLeft]
  | @snapshot signal =>
      have hle := FlusherPc.stepsLeft_resume_le signal
        (engine.table.dirtyEntries choice.order) 0
      have hlength := length_dirtyEntries_le choice.order engine.table
      simp only [FlusherPc.stepsLeft] at hle ⊢
      omega
  | written hok => simp [FlusherPc.stepsLeft]
  | @torn signal lba slot rest flushed error block hfail =>
      have hle := FlusherPc.stepsLeft_resume_le signal rest flushed
      simp only [FlusherPc.stepsLeft] at hle ⊢
      omega
  | @cleaned signal lba rest flushed =>
      have hle := FlusherPc.stepsLeft_resume_le signal rest (flushed + 1)
      simp only [FlusherPc.stepsLeft] at hle ⊢
      omega
  | synced => simp [FlusherPc.stepsLeft]
  | exit hstop => simp [FlusherPc.stepsLeft]
  | again hsignal hstop => exact absurd hflag hstop

theorem FlusherStep.stop_eq {pc next : FlusherPc setup}
    (hstep : FlusherStep choice engine pc next nextEngine) :
    nextEngine.flusher.map (·.stop) = engine.flusher.map (·.stop) := by
  cases hstep with
  | received hchannel => simp [hchannel]
  | _ => rfl

theorem ClientStep.stop_eq {pc next : Pc setup}
    (hstep : ClientStep choice engine pc next nextEngine) :
    nextEngine.flusher.map (·.stop) = engine.flusher.map (·.stop) := by
  rcases hstep.notifying with ⟨hflusher, _⟩ | ⟨hflusher, _, _⟩ | ⟨hflusher, _, _⟩
  · rw [hflusher]
  · rw [hflusher]
  · rw [hflusher, Option.map_map]
    congr 1
    funext channel
    exact channel.trySend_stop .wake

theorem FlusherPc.step_isSome {pc : FlusherPc setup} (hoff : pc ≠ .off)
    (hexited : pc ≠ .exited) (choice : Choice setup)
    (engine : CacheEngine setup) : (pc.step choice engine).isSome = true := by
  cases pc with
  | off => exact absurd rfl hoff
  | exited => exact absurd rfl hexited
  | waiting =>
      simp only [FlusherPc.step]
      split <;> rfl
  | writing signal lba slot rest flushed =>
      simp only [FlusherPc.step]
      split <;> rfl
  | checking signal =>
      simp only [FlusherPc.step]
      split <;> rfl
  | _ => rfl

end Step

def OwnerPc.stopping : OwnerPc → Bool
  | .storing => true
  | .sending => true
  | .joining => true
  | _ => false

/-- The owner has raised the flag and not joined the thread yet. -/
def OwnerPc.flagged : OwnerPc → Bool
  | .sending => true
  | .joining => true
  | _ => false

theorem OwnerPc.stopping_of_flagged {owner : OwnerPc}
    (hflagged : owner.flagged = true) : owner.stopping = true := by
  cases owner <;> first | rfl | cases hflagged

namespace Machine

structure Closable (machine : Machine setup n) : Prop where
  manned : machine.engine.flusher.isSome = true → machine.flusher ≠ .off
  started : machine.owner.stopping = true →
    machine.engine.flusher.isSome = true
  quiet : machine.owner.stopping = true → machine.Quiet
  flag : machine.owner.flagged = true →
    machine.engine.flusher.map (·.stop) = some true
  short : machine.flusher.pairs.length ≤ setup.maxLba

variable {machine next : Machine setup n} {action : Action setup n}

theorem closable_init (setup : Setup) (n : Nat) (image : Image) :
    (init setup n image).Closable where
  manned := fun hsome => by cases hsome
  started := fun hstopping => by cases hstopping
  quiet := fun hstopping => by cases hstopping
  flag := fun hflagged => by cases hflagged
  short := Nat.zero_le _

theorem isSome_eq_of_stop_eq {first second : Option FlushChannel}
    (hstop : first.map (·.stop) = second.map (·.stop)) :
    first.isSome = second.isSome := by
  simpa using congrArg Option.isSome hstop

theorem Closable.step (hclosable : machine.Closable)
    (hstep : machine.step action = some next) : next.Closable := by
  cases step_cases hstep with
  | @invoke thread call hrunning hidle =>
      refine ⟨hclosable.manned, ?_, ?_, ?_, hclosable.short⟩
      · simp [hrunning, OwnerPc.stopping]
      · simp [hrunning, OwnerPc.stopping]
      · simp [hrunning, OwnerPc.flagged]
  | @client thread choice pc engine hclient =>
      have hsome := isSome_eq_of_stop_eq hclient.stop_eq
      refine ⟨?_, ?_, ?_, ?_, hclosable.short⟩
      · simp only [hsome]
        exact hclosable.manned
      · simp only [hsome]
        exact hclosable.started
      · intro hstopping
        have hidle := Pc.isIdle_iff.mp (hclosable.quiet hstopping thread)
        rw [hidle] at hclient
        cases hclient
      · simp only [hclient.stop_eq]
        exact hclosable.flag
  | @respond thread outcome hdone =>
      refine ⟨hclosable.manned, hclosable.started, ?_, hclosable.flag,
        hclosable.short⟩
      intro hstopping
      have hidle := Pc.isIdle_iff.mp (hclosable.quiet hstopping thread)
      cases hidle.symm.trans hdone
  | @flush choice pc engine hflush =>
      have hsome := isSome_eq_of_stop_eq hflush.stop_eq
      refine ⟨fun _ => hflush.ne_off, ?_, hclosable.quiet, ?_,
        hflush.short hclosable.short⟩
      · simp only [hsome]
        exact hclosable.started
      · simp only [hflush.stop_eq]
        exact hclosable.flag
  | owner howner =>
      cases howner with
      | startSkipped => exact ⟨hclosable.manned, hclosable.started,
          hclosable.quiet, hclosable.flag, hclosable.short⟩
      | started hrunning hnone =>
          refine ⟨fun _ => by simp, fun _ => rfl, ?_, ?_, Nat.zero_le _⟩
          · simp [hrunning, OwnerPc.stopping]
          · simp [hrunning, OwnerPc.flagged]
      | stopSkipped hrunning => exact ⟨hclosable.manned, hclosable.started,
          hclosable.quiet, hclosable.flag, hclosable.short⟩
      | stopCalled hrunning hquiet hsome =>
          refine ⟨hclosable.manned, fun _ => hsome, fun _ => hquiet, ?_,
            hclosable.short⟩
          simp [OwnerPc.flagged]
      | flagStored hstoring =>
          have hstopping : machine.owner.stopping = true := by
            rw [hstoring]
            rfl
          obtain ⟨channel, hchannel⟩ :=
            Option.isSome_iff_exists.mp (hclosable.started hstopping)
          refine ⟨?_, ?_, fun _ => hclosable.quiet hstopping, ?_, hclosable.short⟩
          · exact fun _ => hclosable.manned (hclosable.started hstopping)
          · simp [hchannel]
          · simp [hchannel, FlushChannel.storeStop]
      | signalSent hsending =>
          have hflagged : machine.owner.flagged = true := by
            rw [hsending]
            rfl
          have hstopping := OwnerPc.stopping_of_flagged hflagged
          have hflag := hclosable.flag hflagged
          obtain ⟨channel, hchannel⟩ :=
            Option.isSome_iff_exists.mp (hclosable.started hstopping)
          rw [hchannel] at hflag
          refine ⟨?_, ?_, fun _ => hclosable.quiet hstopping, ?_, hclosable.short⟩
          · exact fun _ => hclosable.manned (hclosable.started hstopping)
          · simp [hchannel]
          · intro _
            rw [hchannel]
            exact (congrArg some (channel.trySend_stop .shutdown)).trans hflag
      | joined hjoining hexited =>
          refine ⟨by simp, ?_, ?_, ?_, Nat.zero_le _⟩
          · simp [OwnerPc.stopping]
          · simp [OwnerPc.stopping]
          · simp [OwnerPc.flagged]
      | stopReturned hreturned =>
          refine ⟨hclosable.manned, ?_, ?_, ?_, hclosable.short⟩
          · simp [OwnerPc.stopping]
          · simp [OwnerPc.stopping]
          · simp [OwnerPc.flagged]

def stepsLeft (machine : Machine setup n) : Nat :=
  if machine.owner = .joining then machine.flusher.stepsLeft + 1 else 0

theorem Closable.stepsLeft_lt (hclosable : machine.Closable)
    (hjoining : machine.owner = .joining)
    (hstep : machine.step action = some next) :
    next.stepsLeft < machine.stepsLeft := by
  have hquiet := hclosable.quiet (by rw [hjoining]; rfl)
  have hflag := hclosable.flag (by rw [hjoining]; rfl)
  unfold stepsLeft
  rw [if_pos hjoining]
  cases step_cases hstep with
  | invoke hrunning hidle => cases hjoining.symm.trans hrunning
  | @client thread choice pc engine hclient =>
      rw [Pc.isIdle_iff.mp (hquiet thread)] at hclient
      cases hclient
  | @respond thread outcome hdone =>
      cases (Pc.isIdle_iff.mp (hquiet thread)).symm.trans hdone
  | flush hflush =>
      rw [if_pos hjoining]
      exact Nat.add_lt_add_right (hflush.stepsLeft hflag) 1
  | owner howner =>
      cases howner with
      | startSkipped => simp [Machine.step, hjoining] at hstep
      | started hrunning hnone => cases hjoining.symm.trans hrunning
      | stopSkipped hrunning => cases hjoining.symm.trans hrunning
      | stopCalled hrunning hidle hsome => cases hjoining.symm.trans hrunning
      | flagStored hstoring => cases hjoining.symm.trans hstoring
      | signalSent hsending => cases hjoining.symm.trans hsending
      | joined _ hexited => simp
      | stopReturned hreturned => cases hjoining.symm.trans hreturned

/-- While the owner waits for the thread, one of them can take a step. -/
theorem Closable.enabled (hclosable : machine.Closable)
    (hjoining : machine.owner = .joining) (choice : Choice setup) :
    (machine.step (.flush choice)).isSome = true ∨
      (machine.step .stop).isSome = true := by
  have hstopping : machine.owner.stopping = true := by
    rw [hjoining]
    rfl
  have hoff := hclosable.manned (hclosable.started hstopping)
  by_cases hexited : machine.flusher = .exited
  · right
    simp only [Machine.step, stop, hjoining, hexited]
    rfl
  · left
    obtain ⟨⟨pc, engine⟩, hflush⟩ := Option.isSome_iff_exists.mp
      (FlusherPc.step_isSome hoff hexited choice machine.engine)
    simp only [Machine.step, hflush]
    rfl

/-- Any number of clients, any interleaving and any I/O failures: once `stop`
has raised the flag and sent its signal, it waits for a bounded number of steps
in all, whoever takes them, and is never stuck before it returns. -/
theorem stop_terminates {image : Image} {run more : List (Action setup n)}
    {final : Machine setup n}
    (hrun : Run.exec step (init setup n image) run = some machine)
    (hwaits : Run.Along step (fun machine _ => machine.owner = .joining) machine
      more)
    (hmore : Run.exec step machine more = some final) :
    more.length ≤ 2 * setup.maxLba + 5 ∧
      (final.owner = .joining → ∀ choice,
        (final.step (.flush choice)).isSome = true ∨
          (final.step .stop).isSome = true) := by
  have hreachable : ∀ {start state : Machine setup n} {actions},
      start.Closable → Run.exec step start actions = some state →
      state.Closable := by
    intro start state actions hstart hactions
    have hany : Run.Along step (fun _ _ => True) start actions :=
      Run.along_of_forall fun _ _ => trivial
    exact Run.invariant_state hstart
      (fun _ _ _ hclosable _ hstep => hclosable.step hstep) hany hactions
  have hclosable := hreachable (closable_init setup n image) hrun
  constructor
  · have hlength := Run.length_le_rank stepsLeft hclosable
      (fun _ _ _ hclosable hjoining hstep =>
        ⟨hclosable.step hstep, hclosable.stepsLeft_lt hjoining hstep⟩) hwaits hmore
    have hle := FlusherPc.stepsLeft_le hclosable.short
    have hsteps : machine.stepsLeft ≤ machine.flusher.stepsLeft + 1 := by
      unfold stepsLeft
      split <;> omega
    omega
  · exact fun hjoining => (hreachable hclosable hmore).enabled hjoining

/-- `stop` begins while a written block is still dirty, and the thread flushes
it in its last cycle. -/
def lastCycle : List (Action (.mini 0) 1) :=
  List.flatten [
    [.start, .invoke lone (.write 0 fun _ => 5)], advance lone 6 1,
    [.respond lone, .stop, .stop, .stop]]

theorem lastCycle_terminates :
    ∃ machine final,
      Run.exec step (init (.mini 0) 1 stripes) lastCycle = some machine ∧
      Run.exec step machine (List.replicate 6 (.flush (.calm 2)) ++ [.stop]) =
        some final ∧ final.owner = .returned ∧ 7 ≤ 2 * (Setup.mini 0).maxLba + 5 := by
  have hreached : (Run.exec step (init (.mini 0) 1 stripes) lastCycle).isSome =
      true := by
    decide +kernel
  obtain ⟨machine, hrun⟩ := Option.isSome_iff_exists.mp hreached
  have hjoined : (Run.exec step (init (.mini 0) 1 stripes) (lastCycle ++
      (List.replicate 6 (.flush (.calm 2)) ++ [.stop]))).map (·.owner) =
      some .returned := by
    decide +kernel
  have hwaits : ∀ machine ∈ Run.exec step (init (.mini 0) 1 stripes) lastCycle,
      Run.Along step (fun machine _ => machine.owner = .joining) machine
        (List.replicate 6 (.flush (.calm 2)) ++ [.stop]) := by
    decide +kernel
  rw [Run.exec_append, hrun, Option.bind_some] at hjoined
  obtain ⟨final, hmore, howner⟩ := Option.map_eq_some_iff.mp hjoined
  exact ⟨machine, final, hrun, hmore, howner,
    (stop_terminates hrun (hwaits machine hrun) hmore).1⟩

end Machine

end AsmCacheInject.Concurrent

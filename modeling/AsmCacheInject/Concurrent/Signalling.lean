import AsmCacheInject.Concurrent.Steps
import AsmCacheInject.Flush.Signals

namespace AsmCacheInject.Concurrent

open AsmCacheInject.Data
open AsmCacheInject.Engine
open AsmCacheInject.Flush

variable {setup : Setup} {n : Nat}

/-! The engine's own use of the flush channel.  From `start` to the join in
`stop`, the clients and the owner are the notifiers of one signal machine and
the flush thread is its loop. -/

def Pc.notifying : Pc setup → NotifierPc
  | .wakeForVictim _ _ => .waking
  | .wakeForWrite _ _ _ => .waking
  | _ => .idle

def OwnerPc.notifying : OwnerPc → NotifierPc
  | .storing => .storing
  | .sending => .sending
  | _ => .idle

/-- At most two steps for each pair that is left, and one for the sync. -/
def FlusherPc.loop : FlusherPc setup → LoopPc
  | .off => .exited
  | .waiting => .waiting
  | .snapshot signal => .collecting signal
  | .writing signal _ _ rest _ => .flushing signal (2 * rest.length + 3)
  | .cleaning signal _ rest _ => .flushing signal (2 * rest.length + 2)
  | .syncing signal => .flushing signal 1
  | .checking signal => .flushing signal 0
  | .exited => .exited

theorem Call.notifying_enter (call : Call setup) : call.enter.notifying = .idle :=
  call.enter_induction (fun _ => rfl) (fun _ => rfl) fun _ _ => rfl

theorem Miss.notifying_filling (miss : Miss setup) (slot : Nat) :
    (miss.filling slot).notifying = .idle := by
  cases miss <;> rfl

theorem FlusherPc.loop_resume (signal : Option FlushSignal)
    (pairs : List (Lba setup × Nat)) (flushed : Nat) :
    ∃ left ≤ 2 * pairs.length + 1,
      (FlusherPc.resume signal pairs flushed).loop = .flushing signal left := by
  cases pairs with
  | nil =>
      by_cases hflushed : 0 < flushed
      · exact ⟨1, le_rfl, by simp [FlusherPc.resume, hflushed, FlusherPc.loop]⟩
      · exact ⟨0, by simp, by simp [FlusherPc.resume, hflushed, FlusherPc.loop]⟩
  | cons pair rest =>
      refine ⟨2 * rest.length + 3, ?_, rfl⟩
      rw [List.length_cons]
      omega

section Step

variable {choice : Choice setup} {engine nextEngine : CacheEngine setup}

theorem ClientStep.notifying {pc next : Pc setup}
    (hstep : ClientStep choice engine pc next nextEngine) :
    (nextEngine.flusher = engine.flusher ∧ next.notifying = pc.notifying) ∨
      (nextEngine.flusher = engine.flusher ∧ pc.notifying = .idle ∧
        next.notifying = .waking) ∨
      (nextEngine.flusher = engine.flusher.map FlushChannel.wake ∧
        pc.notifying = .waking ∧ next.notifying = .idle) := by
  cases hstep with
  | takeFree hfree => exact .inl ⟨rfl, Miss.notifying_filling _ _⟩
  | retake hfree => exact .inl ⟨rfl, Miss.notifying_filling _ _⟩
  | victimWritten hio => exact .inr (.inl ⟨rfl, rfl, rfl⟩)
  | wakeForVictim => exact .inr (.inr ⟨rfl, rfl, rfl⟩)
  | statsAbove => exact .inr (.inl ⟨rfl, rfl, rfl⟩)
  | wakeForWrite => exact .inr (.inr ⟨rfl, rfl, rfl⟩)
  | _ => exact .inl ⟨rfl, rfl⟩

theorem FlusherStep.turn {pc next : FlusherPc setup} {channel : FlushChannel}
    (hstep : FlusherStep choice engine pc next nextEngine)
    (hchannel : engine.flusher = some channel)
    (signals : Signals n) (hsignals : signals.channel = channel)
    (hloop : signals.loop = pc.loop) :
    ∃ action nextChannel, nextEngine.flusher = some nextChannel ∧
      signals.step action = some { signals with
        channel := nextChannel
        loop := next.loop } := by
  subst hsignals
  cases hstep with
  | disconnected hnone => cases hnone.symm.trans hchannel
  | @received received hreceived =>
      obtain rfl : received = signals.channel :=
        Option.some.inj (hreceived.symm.trans hchannel)
      cases hpending : signals.channel.pending with
      | none =>
          refine ⟨.timeout, signals.channel, ?_, ?_⟩
          · simp only [← hpending]
          · simp only [Signals.step, hloop, FlusherPc.loop]
      | some signal =>
          refine ⟨.receive, { signals.channel with pending := none }, rfl, ?_⟩
          simp only [Signals.step, Signals.receive, hloop, FlusherPc.loop,
            hpending, FlushChannel.receive]
  | @snapshot signal =>
      obtain ⟨left, _, hnext⟩ := FlusherPc.loop_resume signal
        (engine.table.dirtyEntries choice.order) 0
      have hcollecting : signals.loop = .collecting signal := hloop
      refine ⟨.collect left, signals.channel, hchannel, ?_⟩
      simp only [Signals.step, hcollecting, hnext]
  | @written signal lba slot rest flushed hio =>
      refine ⟨.work (2 * rest.length + 2), signals.channel, hchannel, ?_⟩
      simp [Signals.step, hloop, FlusherPc.loop]
  | @torn signal lba slot rest flushed error block hio =>
      obtain ⟨left, hleft, hnext⟩ := FlusherPc.loop_resume signal rest flushed
      have hflushing : signals.loop = .flushing signal (2 * rest.length + 3) := hloop
      refine ⟨.work left, signals.channel, hchannel, ?_⟩
      simp only [Signals.step, hflushing, hnext]
      rw [if_pos (by omega)]
  | @cleaned signal lba rest flushed =>
      obtain ⟨left, hleft, hnext⟩ :=
        FlusherPc.loop_resume signal rest (flushed + 1)
      have hflushing : signals.loop = .flushing signal (2 * rest.length + 2) := hloop
      refine ⟨.work left, signals.channel, hchannel, ?_⟩
      simp only [Signals.step, hflushing, hnext]
      rw [if_pos (by omega)]
  | synced =>
      refine ⟨.work 0, signals.channel, hchannel, ?_⟩
      simp [Signals.step, hloop, FlusherPc.loop]
  | @exit signal hstop =>
      have hstops : signals.Stops signal := by
        simpa [Signals.Stops, hchannel] using hstop
      refine ⟨.check, signals.channel, hchannel, ?_⟩
      simp only [Signals.step, hloop, FlusherPc.loop, if_pos hstops]
  | @again signal hsignal hstop =>
      have hruns : ¬signals.Stops signal := by
        simpa [Signals.Stops, hchannel, hsignal] using hstop
      refine ⟨.check, signals.channel, hchannel, ?_⟩
      simp only [Signals.step, hloop, FlusherPc.loop, if_neg hruns]

end Step

namespace Machine

variable {machine next : Machine setup n} {action : Action setup n}
variable {channel : FlushChannel}

/-- The clients come first among the notifiers, the owner last. -/
def notifiers (machine : Machine setup n) : Fin (n + 1) → NotifierPc :=
  Fin.snoc (fun thread => (machine.client thread).notifying)
    machine.owner.notifying

def signals (machine : Machine setup n) (channel : FlushChannel) :
    Signals (n + 1) where
  channel := channel
  connected := true
  notifier := machine.notifiers
  loop := machine.flusher.loop

theorem notifiers_client (machine : Machine setup n) (thread : Fin n) :
    machine.notifiers thread.castSucc = (machine.client thread).notifying :=
  Fin.snoc_castSucc ..

theorem notifiers_owner (machine : Machine setup n) :
    machine.notifiers (Fin.last n) = machine.owner.notifying :=
  Fin.snoc_last ..

theorem notifiers_update (machine : Machine setup n) (thread : Fin n)
    (pc : Pc setup) (engine : CacheEngine setup) :
    notifiers { machine with
      engine := engine
      client := Function.update machine.client thread pc } =
      Function.update machine.notifiers thread.castSucc pc.notifying := by
  have hclients : (fun other =>
      (Function.update machine.client thread pc other).notifying) =
      Function.update (fun other => (machine.client other).notifying) thread
        pc.notifying := by
    funext other
    exact Function.apply_update (fun _ => Pc.notifying) machine.client thread pc
      other
  simp only [notifiers, hclients]
  exact Fin.snoc_update ..

theorem notifiers_setOwner (machine : Machine setup n)
    (engine : CacheEngine setup) (flusher : FlusherPc setup) (owner : OwnerPc) :
    notifiers { machine with
      engine := engine
      flusher := flusher
      owner := owner } =
      Function.update machine.notifiers (Fin.last n) owner.notifying :=
  (Fin.update_snoc_last ..).symm

/-- The channel of a running flusher is given up in the join only. -/
def KeepsFlusher (machine : Machine setup n) : Action setup n → Prop
  | .stop => machine.owner ≠ .joining
  | _ => True

/-- The signal machine can follow from one state of the engine to another. -/
def Follows (machine : Machine setup n) (channel : FlushChannel)
    (next : Machine setup n) (actions : List (SignalAction (n + 1))) : Prop :=
  ∃ nextChannel, next.engine.flusher = some nextChannel ∧
    Run.exec Signals.step (machine.signals channel) actions =
      some (next.signals nextChannel)

theorem follows_nil (hchannel : next.engine.flusher = some channel)
    (hnotifiers : next.notifiers = machine.notifiers)
    (hflusher : next.flusher = machine.flusher) :
    machine.Follows channel next [] := by
  refine ⟨channel, hchannel, ?_⟩
  simp only [Run.exec, signals, hnotifiers, hflusher]

theorem follows_one {nextChannel : FlushChannel} {action : SignalAction (n + 1)}
    (hchannel : next.engine.flusher = some nextChannel)
    (hstep : (machine.signals channel).step action =
      some (next.signals nextChannel)) :
    machine.Follows channel next [action] := by
  refine ⟨nextChannel, hchannel, ?_⟩
  rw [Run.exec_cons, hstep]
  rfl

theorem follows_client {thread : Fin n} {choice : Choice setup} {pc : Pc setup}
    {engine : CacheEngine setup}
    (hclient : ClientStep choice machine.engine (machine.client thread) pc engine)
    (hchannel : machine.engine.flusher = some channel) :
    ∃ actions, machine.Follows channel { machine with
      engine := engine
      client := Function.update machine.client thread pc } actions := by
  have hnotifiers := machine.notifiers_update thread pc engine
  have hthread := machine.notifiers_client thread
  rcases hclient.notifying with ⟨hflusher, hsame⟩ | ⟨hflusher, hidle, hwaking⟩ |
    ⟨hflusher, hwaking, hidle⟩
  · refine ⟨[], follows_nil (hflusher.trans hchannel) ?_ rfl⟩
    rw [hnotifiers, hsame, ← hthread, Function.update_eq_self]
  · refine ⟨[.callWake thread.castSucc],
      follows_one (hflusher.trans hchannel) ?_⟩
    rw [hidle] at hthread
    simp only [Signals.step, signals, hthread, hnotifiers, hwaking, and_self,
      if_true]
  · rw [hchannel] at hflusher
    refine ⟨[.notify thread.castSucc], follows_one hflusher ?_⟩
    rw [hwaking] at hthread
    simp only [Signals.step, Signals.notify, signals, hthread, hnotifiers, hidle]

theorem follows_owner {nextChannel : Option FlushChannel}
    {flusher : FlusherPc setup} {owner : OwnerPc}
    (howner : OwnerStep machine action nextChannel flusher owner)
    (hchannel : machine.engine.flusher = some channel)
    (hkeeps : machine.KeepsFlusher action) :
    ∃ actions, machine.Follows channel { machine with
        engine := { machine.engine with flusher := nextChannel }
        flusher := flusher
        owner := owner } actions ∧
      (owner = .joining → machine.owner ≠ .joining →
        .shutDown (Fin.last n) ∈ Run.trace Signals.step Signals.emitted
          (machine.signals channel) actions) := by
  have hlast := machine.notifiers_owner
  have hnotifiers := machine.notifiers_setOwner
    { machine.engine with flusher := nextChannel } flusher owner
  cases howner with
  | startSkipped =>
      exact ⟨[], follows_nil hchannel rfl rfl, fun hnext hne => absurd hnext hne⟩
  | started hrunning hnone => cases hnone.symm.trans hchannel
  | stopSkipped hrunning =>
      exact ⟨[], follows_nil hchannel rfl rfl, fun hnext hne => absurd hnext hne⟩
  | stopCalled hrunning hquiet hsome =>
      refine ⟨[.callShutdown (Fin.last n)], follows_one hchannel ?_,
        fun hnext => by cases hnext⟩
      rw [hrunning] at hlast
      simp only [Signals.step, signals, hlast, hnotifiers, OwnerPc.notifying,
        and_self, if_true]
  | flagStored hstoring =>
      rw [hstoring] at hlast
      rw [hchannel] at hnotifiers ⊢
      refine ⟨[.notify (Fin.last n)], follows_one rfl ?_,
        fun hnext => by cases hnext⟩
      simp only [Signals.step, Signals.notify, signals, hlast, hnotifiers,
        OwnerPc.notifying]
  | signalSent hsending =>
      rw [hsending] at hlast
      rw [hchannel] at hnotifiers ⊢
      refine ⟨[.notify (Fin.last n)], follows_one rfl ?_, fun _ _ => ?_⟩
      · simp only [Signals.step, Signals.notify, signals, hlast, hnotifiers,
          OwnerPc.notifying]
      · rw [Run.trace_singleton]
        simp [Signals.emitted, signals, hlast, OwnerPc.notifying]
  | joined hjoining hexited => exact absurd hjoining hkeeps
  | stopReturned hreturned =>
      refine ⟨[], follows_nil hchannel ?_ rfl, fun hnext => by cases hnext⟩
      rw [hreturned] at hlast
      rw [hnotifiers, Function.update_eq_self_iff, hlast]
      rfl

theorem follows_step (hchannel : machine.engine.flusher = some channel)
    (hkeeps : machine.KeepsFlusher action)
    (hstep : machine.step action = some next) :
    ∃ actions, machine.Follows channel next actions ∧
      (next.owner = .joining → machine.owner ≠ .joining →
        .shutDown (Fin.last n) ∈ Run.trace Signals.step Signals.emitted
          (machine.signals channel) actions) := by
  cases step_cases hstep with
  | @invoke thread call howner hidle =>
      refine ⟨[], follows_nil hchannel ?_ rfl, fun hnext hne => absurd hnext hne⟩
      rw [notifiers_update machine thread call.enter machine.engine,
        Function.update_eq_self_iff, notifiers_client, hidle,
        call.notifying_enter]
      rfl
  | client hclient =>
      obtain ⟨actions, hfollows⟩ := follows_client hclient hchannel
      exact ⟨actions, hfollows, fun hnext hne => absurd hnext hne⟩
  | @respond thread outcome hdone =>
      refine ⟨[], follows_nil hchannel ?_ rfl, fun hnext hne => absurd hnext hne⟩
      rw [notifiers_update machine thread .idle machine.engine,
        Function.update_eq_self_iff, notifiers_client, hdone]
      rfl
  | flush hflush =>
      obtain ⟨turn, nextChannel, hnext, hmoved⟩ :=
        hflush.turn hchannel (machine.signals channel) rfl rfl
      exact ⟨[turn], follows_one hnext hmoved,
        fun hnext hne => absurd hnext hne⟩
  | owner howner => exact follows_owner howner hchannel hkeeps

theorem signals_started (hwaiting : machine.flusher = .waiting)
    (hrunning : machine.owner = .running) (hquiet : machine.Quiet) :
    machine.signals .fresh = Signals.init (n + 1) := by
  have hnotifiers : machine.notifiers = fun _ => .idle := by
    funext thread
    induction thread using Fin.lastCases with
    | last =>
        rw [notifiers_owner, hrunning]
        rfl
    | cast thread =>
        rw [notifiers_client, Pc.isIdle_iff.mp (hquiet thread)]
        rfl
  simp only [signals, hnotifiers, hwaiting, FlusherPc.loop, Signals.init]

/-- From `start` to the join, a run of the engine is a run of the signal
machine, in which the owner's `shutdown` has returned when it joins. -/
theorem run_signals {started final : Machine setup n}
    {run : List (Action setup n)}
    (hfresh : started.engine.flusher = some .fresh)
    (hwaiting : started.flusher = .waiting) (hrunning : started.owner = .running)
    (hquiet : started.Quiet)
    (hkeeps : Run.Along step KeepsFlusher started run)
    (hrun : Run.exec step started run = some final) :
    ∃ channel actions, final.engine.flusher = some channel ∧
      Run.exec Signals.step (Signals.init (n + 1)) actions =
        some (final.signals channel) ∧
      (final.owner = .joining →
        .shutDown (Fin.last n) ∈ Signals.history actions) := by
  apply Run.invariant_state
    (I := fun machine => ∃ channel actions,
      machine.engine.flusher = some channel ∧
      Run.exec Signals.step (Signals.init (n + 1)) actions =
        some (signals machine channel) ∧
      (machine.owner = .joining →
        .shutDown (Fin.last n) ∈ Signals.history actions))
    ⟨.fresh, [], hfresh, ?_, ?_⟩ ?_ hkeeps hrun
  · rw [signals_started hwaiting hrunning hquiet]
    rfl
  · intro hjoining
    cases hrunning.symm.trans hjoining
  intro machine action next hmachine hkeeps hstep
  obtain ⟨channel, actions, hchannel, hactions, hreturned⟩ := hmachine
  obtain ⟨more, ⟨nextChannel, hnext, hmore⟩, hsent⟩ :=
    follows_step hchannel hkeeps hstep
  refine ⟨nextChannel, actions ++ more, hnext, ?_, ?_⟩
  · rw [Run.exec_append, hactions]
    exact hmore
  · intro hjoining
    rw [Signals.history, Run.trace_append hactions]
    by_cases hbefore : machine.owner = .joining
    · exact List.mem_append_left _ (hreturned hbefore)
    · exact List.mem_append_right _ (hsent hjoining hbefore)

/-- While `stop` waits for the flush thread, the thread does not wait for its
interval to elapse. -/
theorem join_does_not_block {started final : Machine setup n}
    {run : List (Action setup n)}
    (hfresh : started.engine.flusher = some .fresh)
    (hwaiting : started.flusher = .waiting) (hrunning : started.owner = .running)
    (hquiet : started.Quiet)
    (hkeeps : Run.Along step KeepsFlusher started run)
    (hrun : Run.exec step started run = some final)
    (hjoining : final.owner = .joining) (hblocked : final.flusher = .waiting) :
    ∃ channel, final.engine.flusher = some channel ∧ channel.pending ≠ none := by
  obtain ⟨channel, actions, hchannel, hactions, hreturned⟩ :=
    run_signals hfresh hwaiting hrunning hquiet hkeeps hrun
  have hheeded := (Signals.heeded_run hactions).shutDown _ (hreturned hjoining)
  refine ⟨channel, hchannel, hheeded.2 ?_⟩
  simp only [signals, hblocked, FlusherPc.loop]

end Machine

end AsmCacheInject.Concurrent

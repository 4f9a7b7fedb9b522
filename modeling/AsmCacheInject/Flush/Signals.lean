import AsmCacheInject.Data.History
import AsmCacheInject.Data.Run
import AsmCacheInject.Flush.Sync

namespace AsmCacheInject.Flush

open AsmCacheInject.Data

variable {n : Nat}

/-! The channel between the notifiers and the flush thread, on its own.  Any
number of threads hold a clone of the notifier.  What a flush cycle does
between its snapshot and the stop check touches neither the channel nor the
flag; only how much of it is left is kept. -/

inductive NotifierPc
  | idle
  | waking
  | storing
  | sending
  deriving DecidableEq, Repr

inductive LoopPc
  | waiting
  | collecting (signal : Option FlushSignal)
  | flushing (signal : Option FlushSignal) (left : Nat)
  | exited
  deriving DecidableEq, Repr

structure Signals (n : Nat) where
  channel : FlushChannel
  connected : Bool
  notifier : Fin n → NotifierPc
  loop : LoopPc

inductive SignalAction (n : Nat)
  | callWake (thread : Fin n)
  | callShutdown (thread : Fin n)
  | notify (thread : Fin n)
  | hangUp
  | receive
  | timeout
  | collect (left : Nat)
  | work (left : Nat)
  | check
  deriving DecidableEq

namespace Signals

def init (n : Nat) : Signals n where
  channel := .fresh
  connected := true
  notifier := fun _ => .idle
  loop := .waiting

def notify (signals : Signals n) (thread : Fin n) : Option (Signals n) :=
  match signals.notifier thread with
  | .idle => none
  | .waking =>
      some { signals with
        channel := signals.channel.wake
        notifier := Function.update signals.notifier thread .idle }
  | .storing =>
      some { signals with
        channel := signals.channel.storeStop
        notifier := Function.update signals.notifier thread .sending }
  | .sending =>
      some { signals with
        channel := signals.channel.sendShutdown
        notifier := Function.update signals.notifier thread .idle }

/-- `recv_timeout` hands out the buffered signal first and reports the lost
senders only after it. -/
def receive (signals : Signals n) : Option (Signals n) :=
  match signals.loop, signals.channel.pending with
  | .waiting, some _ =>
      some { signals with
        channel := signals.channel.receive.2
        loop := .collecting signals.channel.receive.1 }
  | .waiting, none =>
      if signals.connected then none
      else some { signals with loop := .collecting (some .shutdown) }
  | _, _ => none

def Stops (signals : Signals n) (signal : Option FlushSignal) : Prop :=
  signal = some .shutdown ∨ signals.channel.stop = true

instance (signals : Signals n) (signal : Option FlushSignal) :
    Decidable (signals.Stops signal) :=
  inferInstanceAs (Decidable (_ ∨ _))

/-- The timeout may fire although a signal has just arrived. -/
def step (signals : Signals n) : SignalAction n → Option (Signals n)
  | .callWake thread =>
      if signals.connected = true ∧ signals.notifier thread = .idle then
        some { signals with
          notifier := Function.update signals.notifier thread .waking }
      else none
  | .callShutdown thread =>
      if signals.connected = true ∧ signals.notifier thread = .idle then
        some { signals with
          notifier := Function.update signals.notifier thread .storing }
      else none
  | .notify thread => signals.notify thread
  | .hangUp =>
      if ∀ thread, signals.notifier thread = .idle then
        some { signals with connected := false }
      else none
  | .receive => signals.receive
  | .timeout =>
      match signals.loop with
      | .waiting => some { signals with loop := .collecting none }
      | _ => none
  | .collect left =>
      match signals.loop with
      | .collecting signal => some { signals with loop := .flushing signal left }
      | _ => none
  | .work next =>
      match signals.loop with
      | .flushing signal left =>
          if next < left then
            some { signals with loop := .flushing signal next }
          else none
      | _ => none
  | .check =>
      match signals.loop with
      | .flushing signal 0 =>
          if signals.Stops signal then some { signals with loop := .exited }
          else some { signals with loop := .waiting }
      | _ => none

end Signals

inductive SignalEvent (n : Nat)
  | woken (thread : Fin n)
  | shutDown (thread : Fin n)
  | collected
  | resumed
  | left
  deriving DecidableEq

def Signals.emitted (signals : Signals n) :
    SignalAction n → List (SignalEvent n)
  | .notify thread =>
      match signals.notifier thread with
      | .waking => [.woken thread]
      | .sending => [.shutDown thread]
      | _ => []
  | .collect _ => [.collected]
  | .check =>
      match signals.loop with
      | .flushing signal 0 =>
          if signals.Stops signal then [.left] else [.resumed]
      | _ => []
  | _ => []

inductive SignalStep (signals : Signals n) :
    SignalAction n → List (SignalEvent n) → Signals n → Prop
  | callWake {thread} :
      SignalStep signals (.callWake thread) [] { signals with
        notifier := Function.update signals.notifier thread .waking }
  | callShutdown {thread} :
      SignalStep signals (.callShutdown thread) [] { signals with
        notifier := Function.update signals.notifier thread .storing }
  | wakeSent {thread} (hpc : signals.notifier thread = .waking) :
      SignalStep signals (.notify thread) [.woken thread] { signals with
        channel := signals.channel.wake
        notifier := Function.update signals.notifier thread .idle }
  | flagStored {thread} (hpc : signals.notifier thread = .storing) :
      SignalStep signals (.notify thread) [] { signals with
        channel := signals.channel.storeStop
        notifier := Function.update signals.notifier thread .sending }
  | shutdownSent {thread} (hpc : signals.notifier thread = .sending) :
      SignalStep signals (.notify thread) [.shutDown thread] { signals with
        channel := signals.channel.sendShutdown
        notifier := Function.update signals.notifier thread .idle }
  | hangUp : SignalStep signals .hangUp [] { signals with connected := false }
  | received {signal} (hloop : signals.loop = .waiting)
      (hpending : signals.channel.pending = some signal) :
      SignalStep signals .receive [] { signals with
        channel := { signals.channel with pending := none }
        loop := .collecting (some signal) }
  | disconnected (hloop : signals.loop = .waiting) :
      SignalStep signals .receive [] { signals with
        loop := .collecting (some .shutdown) }
  | timedOut (hloop : signals.loop = .waiting) :
      SignalStep signals .timeout [] { signals with loop := .collecting none }
  | collected {signal left} (hloop : signals.loop = .collecting signal) :
      SignalStep signals (.collect left) [.collected] { signals with
        loop := .flushing signal left }
  | worked {signal left next} (hloop : signals.loop = .flushing signal left)
      (hless : next < left) :
      SignalStep signals (.work next) [] { signals with
        loop := .flushing signal next }
  | left {signal} (hloop : signals.loop = .flushing signal 0)
      (hstops : signals.Stops signal) :
      SignalStep signals .check [.left] { signals with loop := .exited }
  | resumed {signal} (hloop : signals.loop = .flushing signal 0)
      (hruns : ¬signals.Stops signal) :
      SignalStep signals .check [.resumed] { signals with loop := .waiting }

namespace Signals

variable {signals next : Signals n} {action : SignalAction n}

theorem step_cases (hstep : signals.step action = some next) :
    SignalStep signals action (signals.emitted action) next := by
  cases action with
  | callWake thread =>
      simp only [step] at hstep
      split at hstep <;> cases hstep
      exact .callWake
  | callShutdown thread =>
      simp only [step] at hstep
      split at hstep <;> cases hstep
      exact .callShutdown
  | notify thread =>
      simp only [step, notify] at hstep
      simp only [emitted]
      cases hpc : signals.notifier thread with
      | idle =>
          rw [hpc] at hstep
          cases hstep
      | waking =>
          rw [hpc] at hstep
          cases hstep
          exact .wakeSent hpc
      | storing =>
          rw [hpc] at hstep
          cases hstep
          exact .flagStored hpc
      | sending =>
          rw [hpc] at hstep
          cases hstep
          exact .shutdownSent hpc
  | hangUp =>
      simp only [step] at hstep
      split at hstep <;> cases hstep
      exact .hangUp
  | receive =>
      simp only [step, receive] at hstep
      split at hstep
      · next signal hloop hpending =>
        cases hstep
        simp only [FlushChannel.receive, hpending]
        exact .received hloop hpending
      · next hloop hpending =>
        split at hstep <;> cases hstep
        exact .disconnected hloop
      · cases hstep
  | timeout =>
      simp only [step] at hstep
      split at hstep
      · next hloop =>
        cases hstep
        exact .timedOut hloop
      · cases hstep
  | collect left =>
      simp only [step] at hstep
      split at hstep
      · next signal hloop =>
        cases hstep
        exact .collected hloop
      · cases hstep
  | work left =>
      simp only [step] at hstep
      split at hstep
      · next signal remaining hloop =>
        split at hstep
        · next hless =>
          cases hstep
          exact .worked hloop hless
        · cases hstep
      · cases hstep
  | check =>
      simp only [step] at hstep
      split at hstep
      · next signal hloop =>
        simp only [emitted, hloop]
        split at hstep
        · next hstops =>
          cases hstep
          rw [if_pos hstops]
          exact .left hloop hstops
        · next hruns =>
          cases hstep
          rw [if_neg hruns]
          exact .resumed hloop hruns
      · cases hstep

end Signals

/-! Where a signal is, until the flush thread acts on it. -/

theorem FlushChannel.trySend_pending (channel : FlushChannel)
    (signal : FlushSignal) : (channel.trySend signal).pending ≠ none := by
  unfold trySend
  split
  · simp
  · next hpending => simp [hpending]

theorem FlushChannel.trySend_stop (channel : FlushChannel)
    (signal : FlushSignal) : (channel.trySend signal).stop = channel.stop := by
  unfold trySend
  split <;> rfl

def LoopPc.cyclesAhead : LoopPc → Nat
  | .waiting => 1
  | .collecting _ => 1
  | .flushing _ _ => 0
  | .exited => 0

namespace Signals

/-- The flush thread is past its wait and before its snapshot, or a signal
keeps it from blocking in the wait, or it is gone. -/
def Attentive (signals : Signals n) : Prop :=
  signals.loop = .exited ∨ (∃ signal, signals.loop = .collecting signal) ∨
    signals.channel.pending ≠ none

structure Heeded (trace : List (SignalEvent n)) (signals : Signals n) : Prop where
  flagged : ∀ thread, signals.notifier thread = .sending →
    signals.channel.stop = true
  woken : History.Since (fun event => ∃ thread, event = .woken thread)
    (fun later => .collected ∈ later ∨ signals.Attentive) trace
  shutDown : ∀ thread, .shutDown thread ∈ trace →
    signals.channel.stop = true ∧
      (signals.loop = .waiting → signals.channel.pending ≠ none)
  last : History.Since (fun event => ∃ thread, event = .shutDown thread)
    (fun later => .resumed ∉ later ∧
      later.count .collected + signals.loop.cyclesAhead ≤ 1) trace
  left : .left ∈ trace → signals.loop = .exited

theorem heeded_init (n : Nat) : (init n).Heeded [] where
  flagged := fun thread hpc => by cases hpc
  woken := History.since_nil
  shutDown := fun thread hmem => by cases hmem
  last := History.since_nil
  left := fun hmem => by cases hmem

variable {signals next : Signals n} {action : SignalAction n}
variable {trace events : List (SignalEvent n)}

theorem Heeded.flagged_step (hheeded : signals.Heeded trace)
    (hstep : SignalStep signals action events next) (thread : Fin n)
    (hpc : next.notifier thread = .sending) : next.channel.stop = true := by
  have hflagged := hheeded.flagged thread
  cases hstep with
  | @callWake active =>
      by_cases heq : thread = active
      · subst heq
        simp at hpc
      · exact hflagged (by simpa [heq] using hpc)
  | @callShutdown active =>
      by_cases heq : thread = active
      · subst heq
        simp at hpc
      · exact hflagged (by simpa [heq] using hpc)
  | @wakeSent active hwaking =>
      by_cases heq : thread = active
      · subst heq
        simp at hpc
      · rw [FlushChannel.wake, FlushChannel.trySend_stop]
        exact hflagged (by simpa [heq] using hpc)
  | flagStored hstoring => rfl
  | @shutdownSent active hsending =>
      rw [FlushChannel.sendShutdown, FlushChannel.trySend_stop]
      exact hheeded.flagged active hsending
  | _ => exact hflagged hpc

theorem Heeded.woken_step (hheeded : signals.Heeded trace)
    (hstep : SignalStep signals action events next) :
    History.Since (fun event => ∃ thread, event = .woken thread)
      (fun later => .collected ∈ later ∨ next.Attentive) (trace ++ events) := by
  have hattentive : next.Attentive →
      History.Since (fun event => ∃ thread, event = SignalEvent.woken thread)
        (fun later => .collected ∈ later ∨ next.Attentive) (trace ++ events) :=
    fun hnext _ _ _ _ _ => .inr hnext
  have hsilent : events = [] → (signals.Attentive → next.Attentive) →
      History.Since (fun event => ∃ thread, event = SignalEvent.woken thread)
        (fun later => .collected ∈ later ∨ next.Attentive) (trace ++ events) := by
    intro hnil hkept
    rw [hnil, List.append_nil]
    exact hheeded.woken.mono fun _ => Or.imp_right hkept
  cases hstep with
  | callWake => exact hsilent rfl id
  | callShutdown => exact hsilent rfl id
  | wakeSent hwaking =>
      exact hattentive (.inr (.inr (FlushChannel.trySend_pending _ _)))
  | flagStored hstoring => exact hsilent rfl id
  | shutdownSent hsending =>
      exact hattentive (.inr (.inr (FlushChannel.trySend_pending _ _)))
  | hangUp => exact hsilent rfl id
  | received hloop hpending => exact hattentive (.inr (.inl ⟨_, rfl⟩))
  | disconnected hloop => exact hattentive (.inr (.inl ⟨_, rfl⟩))
  | timedOut hloop => exact hattentive (.inr (.inl ⟨_, rfl⟩))
  | collected hloop =>
      refine History.Since.concat (hheeded.woken.mono ?_) ?_
      · intro later _
        exact .inl (List.mem_append_right _ List.mem_cons_self)
      · rintro ⟨thread, hevent⟩
        cases hevent
  | worked hloop hless =>
      apply hsilent rfl
      simp [Attentive, hloop]
  | left hloop hstops => exact hattentive (.inl rfl)
  | resumed hloop hruns =>
      refine History.Since.concat (hheeded.woken.mono ?_) ?_
      · intro later hlater
        simpa [Attentive, hloop] using hlater
      · rintro ⟨thread, hevent⟩
        cases hevent

theorem Heeded.shutDown_step (hheeded : signals.Heeded trace)
    (hstep : SignalStep signals action events next) (thread : Fin n)
    (hmem : .shutDown thread ∈ trace ++ events) :
    next.channel.stop = true ∧
      (next.loop = .waiting → next.channel.pending ≠ none) := by
  have hold : ∀ {event}, .shutDown thread ∈ trace ++ [event] →
      event ≠ .shutDown thread → signals.channel.stop = true ∧
        (signals.loop = .waiting → signals.channel.pending ≠ none) := by
    intro event hmem hne
    rcases List.mem_append.mp hmem with hearlier | hlast
    · exact hheeded.shutDown thread hearlier
    · exact absurd (List.mem_singleton.mp hlast).symm hne
  have hsilent := hheeded.shutDown thread
  cases hstep with
  | callWake => exact hsilent (by simpa using hmem)
  | callShutdown => exact hsilent (by simpa using hmem)
  | wakeSent hwaking =>
      refine ⟨?_, fun _ => FlushChannel.trySend_pending _ _⟩
      rw [FlushChannel.wake, FlushChannel.trySend_stop]
      exact (hold hmem (by simp)).1
  | flagStored hstoring => exact ⟨rfl, (hsilent (by simpa using hmem)).2⟩
  | @shutdownSent active hsending =>
      refine ⟨?_, fun _ => FlushChannel.trySend_pending _ _⟩
      rw [FlushChannel.sendShutdown, FlushChannel.trySend_stop]
      exact hheeded.flagged active hsending
  | hangUp => exact hsilent (by simpa using hmem)
  | received hloop hpending =>
      exact ⟨(hsilent (by simpa using hmem)).1, by simp⟩
  | disconnected hloop => exact ⟨(hsilent (by simpa using hmem)).1, by simp⟩
  | timedOut hloop => exact ⟨(hsilent (by simpa using hmem)).1, by simp⟩
  | collected hloop => exact ⟨(hold hmem (by simp)).1, by simp⟩
  | worked hloop hless => exact ⟨(hsilent (by simpa using hmem)).1, by simp⟩
  | left hloop hstops => exact ⟨(hold hmem (by simp)).1, by simp⟩
  | resumed hloop hruns => exact absurd (.inr (hold hmem (by simp)).1) hruns

/-- After a `shutdown` no check lets the flush thread go on, so its cycles are
numbered. -/
theorem Heeded.last_step (hheeded : signals.Heeded trace)
    (hstep : SignalStep signals action events next) :
    History.Since (fun event => ∃ thread, event = .shutDown thread)
      (fun later => .resumed ∉ later ∧
        later.count .collected + next.loop.cyclesAhead ≤ 1)
      (trace ++ events) := by
  have hsilent : events = [] → next.loop.cyclesAhead ≤ signals.loop.cyclesAhead →
      History.Since (fun event => ∃ thread, event = SignalEvent.shutDown thread)
        (fun later => .resumed ∉ later ∧
          later.count .collected + next.loop.cyclesAhead ≤ 1)
        (trace ++ events) := by
    intro hnil hle
    rw [hnil, List.append_nil]
    refine hheeded.last.mono ?_
    intro later hlater
    exact ⟨hlater.1, by omega⟩
  cases hstep with
  | callWake => exact hsilent rfl le_rfl
  | callShutdown => exact hsilent rfl le_rfl
  | wakeSent hwaking =>
      refine History.Since.concat (hheeded.last.mono ?_) ?_
      · intro later hlater
        simpa using hlater
      · rintro ⟨thread, hevent⟩
        cases hevent
  | flagStored hstoring => exact hsilent rfl le_rfl
  | shutdownSent hsending =>
      refine History.Since.concat (hheeded.last.mono ?_) ?_
      · intro later hlater
        simpa using hlater
      · intro _
        cases signals.loop <;> simp [LoopPc.cyclesAhead]
  | hangUp => exact hsilent rfl le_rfl
  | received hloop hpending => exact hsilent rfl (by rw [hloop]; exact le_rfl)
  | disconnected hloop => exact hsilent rfl (by rw [hloop]; exact le_rfl)
  | timedOut hloop => exact hsilent rfl (by rw [hloop]; exact le_rfl)
  | collected hloop =>
      refine History.Since.concat (hheeded.last.mono ?_) ?_
      · intro later hlater
        simpa [hloop, LoopPc.cyclesAhead] using hlater
      · rintro ⟨thread, hevent⟩
        cases hevent
  | worked hloop hless => exact hsilent rfl (by rw [hloop]; exact le_rfl)
  | left hloop hstops =>
      refine History.Since.concat (hheeded.last.mono ?_) ?_
      · intro later hlater
        simpa [hloop, LoopPc.cyclesAhead] using hlater
      · rintro ⟨thread, hevent⟩
        cases hevent
  | resumed hloop hruns =>
      intro earlier event later hsplit hshutDown
      obtain ⟨thread, hevent⟩ := hshutDown
      have hmem : SignalEvent.shutDown thread ∈ trace := by
        have hmem : SignalEvent.shutDown thread ∈ trace ++ [.resumed] := by
          rw [hsplit, ← hevent]
          simp
        simpa using hmem
      exact absurd (.inr (hheeded.shutDown thread hmem).1) hruns

theorem loop_exited_step (hexited : signals.loop = .exited)
    (hstep : SignalStep signals action events next) : next.loop = .exited := by
  cases hstep with
  | received hloop hpending => cases hloop.symm.trans hexited
  | disconnected hloop => cases hloop.symm.trans hexited
  | timedOut hloop => cases hloop.symm.trans hexited
  | collected hloop => cases hloop.symm.trans hexited
  | worked hloop hless => cases hloop.symm.trans hexited
  | left hloop hstops => rfl
  | resumed hloop hruns => cases hloop.symm.trans hexited
  | _ => exact hexited

theorem Heeded.left_step (hheeded : signals.Heeded trace)
    (hstep : SignalStep signals action events next)
    (hmem : .left ∈ trace ++ events) : next.loop = .exited := by
  rcases List.mem_append.mp hmem with hearlier | hnow
  · exact loop_exited_step (hheeded.left hearlier) hstep
  · cases hstep with
    | left hloop hstops => rfl
    | _ => simp at hnow

theorem Heeded.step (hheeded : signals.Heeded trace)
    (hstep : SignalStep signals action events next) :
    next.Heeded (trace ++ events) where
  flagged := hheeded.flagged_step hstep
  woken := hheeded.woken_step hstep
  shutDown := hheeded.shutDown_step hstep
  last := hheeded.last_step hstep
  left := hheeded.left_step hstep

end Signals

/-! Progress.  Only the flush thread moves its own control point. -/

def SignalAction.turn : SignalAction n → Bool
  | .receive | .timeout | .collect _ | .work _ | .check => true
  | _ => false

def LoopPc.turnsToCollect : LoopPc → Nat
  | .waiting => 2
  | .collecting _ => 1
  | .flushing _ left => left + 3
  | .exited => 0

namespace Signals

variable {signals next final : Signals n} {action : SignalAction n}
variable {events : List (SignalEvent n)}

/-- The flush thread has a turn that does not need the timeout. -/
def Ready (signals : Signals n) : Prop :=
  ∃ action next, action.turn = true ∧ action ≠ .timeout ∧
    signals.step action = some next

theorem ready_of_not_blocked (hexited : signals.loop ≠ .exited)
    (hwaiting : signals.loop = .waiting → signals.channel.pending ≠ none) :
    signals.Ready := by
  cases hloop : signals.loop with
  | waiting =>
      obtain ⟨signal, hpending⟩ := Option.ne_none_iff_exists'.mp (hwaiting hloop)
      refine ⟨.receive, { signals with
        channel := signals.channel.receive.2
        loop := .collecting signals.channel.receive.1 }, rfl, by simp, ?_⟩
      simp only [step, receive, hloop, hpending]
  | collecting signal =>
      refine ⟨.collect 0, { signals with loop := .flushing signal 0 }, rfl,
        by simp, ?_⟩
      simp only [step, hloop]
  | flushing signal left =>
      cases left with
      | zero =>
          by_cases hstops : signals.Stops signal
          · refine ⟨.check, { signals with loop := .exited }, rfl, by simp, ?_⟩
            simp only [step, hloop, if_pos hstops]
          · refine ⟨.check, { signals with loop := .waiting }, rfl, by simp, ?_⟩
            simp only [step, hloop, if_neg hstops]
      | succ left =>
          refine ⟨.work 0, { signals with loop := .flushing signal 0 }, rfl,
            by simp, ?_⟩
          simp only [step, hloop, Nat.zero_lt_succ, if_true]
  | exited => exact absurd hloop hexited

theorem turn_progress (hstep : SignalStep signals action events next) :
    if action.turn then
      .collected ∈ events ∨ next.loop = .exited ∨
        next.loop.turnsToCollect < signals.loop.turnsToCollect
    else next.loop = signals.loop := by
  cases hstep with
  | received hloop hpending =>
      simp [SignalAction.turn, hloop, LoopPc.turnsToCollect]
  | disconnected hloop => simp [SignalAction.turn, hloop, LoopPc.turnsToCollect]
  | timedOut hloop => simp [SignalAction.turn, hloop, LoopPc.turnsToCollect]
  | collected hloop => simp [SignalAction.turn]
  | worked hloop hless =>
      simpa [SignalAction.turn, hloop, LoopPc.turnsToCollect] using hless
  | left hloop hstops => simp [SignalAction.turn]
  | resumed hloop hruns => simp [SignalAction.turn, hloop, LoopPc.turnsToCollect]
  | _ => rfl

theorem loop_exited_run {more : List (SignalAction n)}
    (hexited : signals.loop = .exited)
    (hmore : Run.exec step signals more = some final) : final.loop = .exited :=
  Run.invariant_state (I := fun signals => signals.loop = .exited) hexited
    (fun _ _ _ hexited _ hstep => loop_exited_step hexited (step_cases hstep))
    (Run.along_of_forall fun _ _ => trivial) hmore

/-- Enough turns of the flush thread, among any steps of the notifiers, take a
snapshot unless the thread stops. -/
theorem collects_within {more : List (SignalAction n)}
    (hmore : Run.exec step signals more = some final)
    (hturns : signals.loop.turnsToCollect ≤ more.countP (·.turn)) :
    .collected ∈ Run.trace step emitted signals more ∨ final.loop = .exited := by
  induction more generalizing signals with
  | nil =>
      cases hmore
      right
      cases hloop : final.loop with
      | exited => rfl
      | _ => simp [hloop, LoopPc.turnsToCollect] at hturns
  | cons action rest ih =>
      obtain ⟨middle, hstep, hrest⟩ := Option.bind_eq_some_iff.mp hmore
      have hprogress := turn_progress (step_cases hstep)
      simp only [Run.trace, hstep, List.mem_append]
      rw [List.countP_cons] at hturns
      cases hturn : action.turn with
      | false =>
          simp only [hturn, Bool.false_eq_true, if_false] at hprogress hturns
          rw [← hprogress] at hturns
          exact (ih hrest hturns).imp_left .inr
      | true =>
          simp only [hturn, if_true] at hprogress hturns
          rcases hprogress with hcollected | hexited | hcloser
          · exact .inl (.inl hcollected)
          · exact .inr (loop_exited_run hexited hrest)
          · exact (ih hrest (by omega)).imp_left .inr

def history (run : List (SignalAction n)) : List (SignalEvent n) :=
  Run.trace step emitted (init n) run

/-- What the notifiers can rely on. -/
structure Delivered (past : List (SignalEvent n)) (signals : Signals n) : Prop where
  /-- A wake without a snapshot since keeps the flush thread from blocking. -/
  wake : ∀ earlier thread later, past = earlier ++ .woken thread :: later →
    .collected ∉ later →
      (signals.loop = .exited ∨ (∃ signal, signals.loop = .collecting signal) ∨
        signals.channel.pending ≠ none) ∧
      (signals.loop = .exited ∨ signals.Ready)
  /-- The snapshot comes after that many turns at most. -/
  cycle : ∀ more final, Run.exec step signals more = some final →
    signals.loop.turnsToCollect ≤ more.countP (·.turn) →
      .collected ∈ Run.trace step emitted signals more ∨ final.loop = .exited
  shutdown : ∀ thread, .shutDown thread ∈ past →
    (signals.loop = .exited ∨ (∃ signal, signals.loop = .collecting signal) ∨
      (∃ signal left, signals.loop = .flushing signal left) ∨
      signals.channel.pending ≠ none) ∧
    (signals.loop = .exited ∨ signals.Ready)
  /-- After a shutdown at most one cycle starts and every check leaves. -/
  lastCycle : ∀ earlier thread later,
    past = earlier ++ .shutDown thread :: later →
      later.count .collected ≤ 1 ∧ .resumed ∉ later
  checked : ∀ next, signals.channel.stop = true →
    signals.step .check = some next → next.loop = .exited
  gone : .left ∈ past → signals.loop = .exited

theorem Heeded.delivered {past : List (SignalEvent n)}
    (hheeded : signals.Heeded past) : signals.Delivered past where
  wake := by
    intro earlier thread later hsplit hnone
    have hattentive : signals.Attentive :=
      (hheeded.woken earlier _ later hsplit ⟨thread, rfl⟩).resolve_left hnone
    refine ⟨hattentive, ?_⟩
    by_cases hexited : signals.loop = .exited
    · exact .inl hexited
    · refine .inr (ready_of_not_blocked hexited fun hwaiting => ?_)
      simpa [Attentive, hwaiting] using hattentive
  cycle := fun _ _ => collects_within
  shutdown := by
    intro thread hmem
    have hwaiting := (hheeded.shutDown thread hmem).2
    constructor
    · cases hloop : signals.loop with
      | waiting => exact .inr (.inr (.inr (hwaiting hloop)))
      | collecting signal => exact .inr (.inl ⟨signal, rfl⟩)
      | flushing signal left => exact .inr (.inr (.inl ⟨signal, left, rfl⟩))
      | exited => exact .inl rfl
    · by_cases hexited : signals.loop = .exited
      · exact .inl hexited
      · exact .inr (ready_of_not_blocked hexited hwaiting)
  lastCycle := by
    intro earlier thread later hsplit
    obtain ⟨hresumed, hcount⟩ :=
      hheeded.last earlier _ later hsplit ⟨thread, rfl⟩
    exact ⟨by omega, hresumed⟩
  checked := by
    intro next hstop hstep
    have hcheck := step_cases hstep
    generalize signals.emitted .check = events at hcheck
    cases hcheck with
    | left hloop hstops => rfl
    | resumed hloop hruns => exact absurd (.inr hstop) hruns
  gone := hheeded.left

theorem heeded_run {run : List (SignalAction n)}
    (hrun : Run.exec step (init n) run = some final) :
    final.Heeded (history run) := by
  apply Run.invariant_trace (I := Heeded) (heeded_init n) ?_
    (Run.along_of_forall fun _ _ => trivial) hrun
  intro past signals action next hheeded _ hstep
  exact hheeded.step (step_cases hstep)

/-- No wake and no shutdown is lost, whatever the notifiers and the flush
thread do in whatever order. -/
theorem signals_delivered (run : List (SignalAction n)) (final : Signals n)
    (hrun : Run.exec step (init n) run = some final) :
    final.Delivered (history run) :=
  (heeded_run hrun).delivered

def crowded : List (SignalAction 2) :=
  [.callWake 0, .callWake 1, .notify 0, .timeout, .notify 1, .collect 1,
    .callShutdown 0, .notify 0, .notify 0, .work 0]

theorem crowded_delivered :
    ∃ final, Run.exec step (init 2) crowded = some final ∧
      final.channel.pending = some .wake ∧ .shutDown 0 ∈ history crowded ∧
      final.Delivered (history crowded) := by
  have hruns : (Run.exec step (init 2) crowded).map (·.channel.pending) =
      some (some .wake) := by
    decide +kernel
  obtain ⟨final, hrun, hpending⟩ := Option.map_eq_some_iff.mp hruns
  exact ⟨final, hrun, hpending, by decide +kernel,
    signals_delivered crowded final hrun⟩

end Signals

end AsmCacheInject.Flush

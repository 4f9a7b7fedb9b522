import AsmCacheInject.Concurrent.Shutdown
import AsmCacheInject.Concurrent.Syscalls

namespace AsmCacheInject.Concurrent

open AsmCacheInject.Cache
open AsmCacheInject.Data
open AsmCacheInject.Engine
open AsmCacheInject.Flush

variable {setup : Setup}

/-! The whole life of an engine, up to its drop.  The fields are dropped in
declaration order: the device, which closes the descriptor, comes before the
flusher, whose own drop raises the flag, sends the signal and joins. -/

inductive DropPhase
  | live
  | closed
  | dropped
  deriving DecidableEq, Repr

structure Lifecycle (setup : Setup) where
  machine : Machine setup 1
  phase : DropPhase

inductive LifeAction (setup : Setup)
  | call (action : Action setup 1)
  | drop

/-- A transfer on a closed descriptor is refused and moves nothing. -/
def Machine.refused (machine : Machine setup 1) (choice : Choice setup) :
    Choice setup :=
  match machine.flusher with
  | .writing _ lba _ _ _ =>
      { choice with
        io := .fail ⟨.other, "Bad file descriptor (os error 9)"⟩
          (readLba machine.engine.device lba) }
  | _ => choice

/-- What the client is told, each marked whether a flusher is running. -/
def Machine.heard (machine : Machine setup 1) (action : Action setup 1) :
    List (Bool × BlockEvent setup) :=
  (machine.emitted action).map fun event =>
    (machine.engine.flusher.isSome, event)

namespace Lifecycle

def launch (setup : Setup) (image : Image) : Lifecycle setup where
  machine := .init setup 1 image
  phase := .live

/-- The drop of the flusher runs the same `shutdown` as `CacheEngine::stop`. -/
def drop (life : Lifecycle setup) : Option (Lifecycle setup) :=
  match life.phase with
  | .live =>
      if life.machine.owner = .running ∧ life.machine.Quiet then
        some { life with phase := .closed }
      else none
  | .closed =>
      if life.machine.engine.flusher.isSome then
        life.machine.stop.map fun machine => { life with machine := machine }
      else some { life with phase := .dropped }
  | .dropped => none

def step (life : Lifecycle setup) :
    LifeAction setup → Option (Lifecycle setup)
  | .call action =>
      match life.phase, action with
      | .live, action =>
          (life.machine.step action).map fun machine =>
            { life with machine := machine }
      | .closed, .flush choice =>
          (life.machine.step (.flush (life.machine.refused choice))).map
            fun machine => { life with machine := machine }
      | _, _ => none
  | .drop => life.drop

def issued (life : Lifecycle setup) :
    LifeAction setup → List (Bool × Syscall setup)
  | .call action =>
      (life.machine.issued action).map fun call =>
        (decide (life.phase = .live), call)
  | .drop => []

def heard (life : Lifecycle setup) :
    LifeAction setup → List (Bool × BlockEvent setup)
  | .call action => life.machine.heard action
  | .drop => []

inductive LifeStep (life : Lifecycle setup) :
    LifeAction setup → Lifecycle setup → Prop
  | called {action machine} (hlive : life.phase = .live)
      (hstep : life.machine.step action = some machine) :
      LifeStep life (.call action) ⟨machine, .live⟩
  | flushed {choice machine} (hclosed : life.phase = .closed)
      (hstep : life.machine.step (.flush (life.machine.refused choice)) =
        some machine) :
      LifeStep life (.call (.flush choice)) ⟨machine, .closed⟩
  | close (hlive : life.phase = .live)
      (howner : life.machine.owner = .running) (hquiet : life.machine.Quiet) :
      LifeStep life .drop ⟨life.machine, .closed⟩
  | shutdown {machine} (hclosed : life.phase = .closed)
      (hstep : life.machine.step .stop = some machine) :
      LifeStep life .drop ⟨machine, .closed⟩
  | finish (hclosed : life.phase = .closed)
      (hchannel : life.machine.engine.flusher = none) :
      LifeStep life .drop ⟨life.machine, .dropped⟩

theorem step_cases {life next : Lifecycle setup} {action : LifeAction setup}
    (hstep : life.step action = some next) : LifeStep life action next := by
  obtain ⟨machine, phase⟩ := life
  cases action with
  | call action =>
      cases phase with
      | live =>
          obtain ⟨moved, hmoved, rfl⟩ := Option.map_eq_some_iff.mp hstep
          exact .called rfl hmoved
      | closed =>
          cases action with
          | flush choice =>
              obtain ⟨moved, hmoved, rfl⟩ := Option.map_eq_some_iff.mp hstep
              exact .flushed rfl hmoved
          | _ => cases hstep
      | dropped => cases action <;> cases hstep
  | drop =>
      cases phase with
      | live =>
          simp only [step, drop] at hstep
          split at hstep
          · next hready =>
            cases hstep
            exact .close rfl hready.1 hready.2
          · cases hstep
      | closed =>
          simp only [step, drop] at hstep
          split at hstep
          · obtain ⟨moved, hmoved, rfl⟩ := Option.map_eq_some_iff.mp hstep
            exact .shutdown rfl hmoved
          · next hchannel =>
            cases hstep
            exact .finish rfl (by simpa using hchannel)
      | dropped => cases hstep

end Lifecycle

/-! No I/O on a closed descriptor. -/

/-- The flush thread stands inside a cycle that found dirty entries. -/
def FlusherPc.midCycle : FlusherPc setup → Bool
  | .writing _ _ _ _ _ => true
  | .cleaning _ _ _ _ => true
  | .syncing _ => true
  | _ => false

theorem FlusherPc.issued_of_not_midCycle {pc : FlusherPc setup}
    (hpc : pc.midCycle = false) : pc.issued = [] := by
  cases pc with
  | writing signal lba slot rest flushed => cases hpc
  | syncing signal => cases hpc
  | _ => rfl

section Step

variable {choice : Choice setup} {engine nextEngine : CacheEngine setup}

theorem ClientStep.channel_none_iff {pc next : Pc setup}
    (hstep : ClientStep choice engine pc next nextEngine) :
    nextEngine.flusher = none ↔ engine.flusher = none := by
  cases hstep with
  | wakeForVictim => exact Option.map_eq_none_iff
  | wakeForWrite => exact Option.map_eq_none_iff
  | _ => exact Iff.rfl

theorem FlusherStep.channel {pc next : FlusherPc setup}
    (hstep : FlusherStep choice engine pc next nextEngine) :
    pc ≠ .off ∧ next ≠ .off ∧
      (nextEngine.flusher = none ↔ engine.flusher = none) := by
  refine ⟨?_, hstep.ne_off, ?_⟩
  · cases hstep with
    | _ => simp
  · cases hstep with
    | received hchannel => simp [hchannel]
    | _ => exact Iff.rfl

theorem FlusherStep.not_midCycle {pc next : FlusherPc setup}
    (hstep : FlusherStep choice engine pc next nextEngine)
    (hkeyed : engine.table.SelfKeyed) (hpc : pc.midCycle = false)
    (hclean : ∀ lba, engine.table.dirtyOf lba ≠ some true) :
    next.midCycle = false := by
  cases hstep with
  | snapshot =>
      have hnil : engine.table.dirtyEntries choice.order = [] := by
        rw [List.eq_nil_iff_forall_not_mem]
        intro pair hpair
        exact hclean pair.1
          ((LbaTable.mem_dirtyEntries_iff hkeyed choice.order).mp hpair).2
      rw [hnil]
      rfl
  | written hio => cases hpc
  | torn hio => cases hpc
  | cleaned => cases hpc
  | _ => rfl

theorem FlusherStep.device_of_not_midCycle {pc next : FlusherPc setup}
    (hstep : FlusherStep choice engine pc next nextEngine)
    (hpc : pc.midCycle = false) : nextEngine.device = engine.device := by
  cases hstep with
  | written hio => cases hpc
  | torn hio => cases hpc
  | _ => rfl

end Step

namespace Machine

variable {machine next : Machine setup 1} {action : Action setup 1}

/-- The engine holds a flusher exactly while its thread is not joined. -/
def Manned (machine : Machine setup 1) : Prop :=
  machine.engine.flusher = none ↔ machine.flusher = .off

theorem Manned.step (hmanned : machine.Manned)
    (hstep : machine.step action = some next) : next.Manned := by
  unfold Manned at hmanned ⊢
  cases step_cases hstep with
  | invoke howner hidle => exact hmanned
  | client hclient => rw [hclient.channel_none_iff, hmanned]
  | respond hdone => exact hmanned
  | flush hflush =>
      obtain ⟨hbefore, hafter, hchannel⟩ := hflush.channel
      simp only [hchannel, hmanned, hbefore, hafter]
  | owner howner =>
      cases howner with
      | started howner hchannel => simp
      | flagStored howner => simpa using hmanned
      | signalSent howner => simpa using hmanned
      | joined howner hexited => simp
      | _ => exact hmanned

/-- The flush thread has nothing left to do: it is gone, or between two cycles
with nothing dirty. -/
def Settled (machine : Machine setup 1) : Prop :=
  machine.flusher.midCycle = false ∧
    (machine.engine.flusher.isSome = true →
      ∀ lba, machine.engine.table.dirtyOf lba ≠ some true)

instance (machine : Machine setup 1) : Decidable machine.Settled :=
  inferInstanceAs (Decidable (_ ∧ (_ → ∀ _, _)))

theorem Settled.flush (hsettled : machine.Settled) (hmanned : machine.Manned)
    (hkeyed : machine.engine.table.SelfKeyed) {choice : Choice setup}
    (hstep : machine.step (.flush choice) = some next) : next.Settled := by
  cases step_cases hstep with
  | @flush _ pc engine hflush =>
      obtain ⟨hbefore, _, _⟩ := hflush.channel
      have hrunning : machine.engine.flusher.isSome = true := by
        rw [Option.isSome_iff_ne_none]
        exact fun hnone => hbefore (hmanned.mp hnone)
      have hclean := hsettled.2 hrunning
      refine ⟨hflush.not_midCycle hkeyed hsettled.1 hclean, ?_⟩
      intro _ lba hdirty
      exact hclean lba (hflush.dirty_before hdirty)
  | owner howner => cases howner

theorem Settled.stop (hsettled : machine.Settled)
    (hstep : machine.step .stop = some next) : next.Settled := by
  cases step_cases hstep with
  | owner howner =>
      cases howner with
      | flagStored howner => exact ⟨hsettled.1, by simpa using hsettled.2⟩
      | signalSent howner => exact ⟨hsettled.1, by simpa using hsettled.2⟩
      | joined howner hexited => exact ⟨rfl, by simp⟩
      | _ => exact hsettled

end Machine

namespace Lifecycle

variable {life next : Lifecycle setup} {action : LifeAction setup}

/-- The descriptor is closed only when the flush thread is done with it. -/
def ClosesSettled (life : Lifecycle setup) : LifeAction setup → Prop
  | .call _ => True
  | .drop => life.phase = .live → life.machine.Settled

instance (life : Lifecycle setup) : (action : LifeAction setup) →
    Decidable (life.ClosesSettled action)
  | .call _ => isTrue trivial
  | .drop => inferInstanceAs (Decidable (_ = _ → Machine.Settled _))

structure Sealed (life : Lifecycle setup) : Prop where
  alone : life.machine.Alone
  manned : life.machine.Manned
  settled : life.phase ≠ .live → life.machine.Settled

theorem sealed_launch (setup : Setup) (image : Image) :
    (launch setup image).Sealed where
  alone := Machine.alone_init setup image
  manned := by simp [launch, Machine.init, Machine.Manned, CacheEngine.boot]
  settled := fun hphase => absurd rfl hphase

theorem Sealed.step (hsealed : life.Sealed) (hcloses : life.ClosesSettled action)
    (hstep : life.step action = some next) : next.Sealed := by
  cases step_cases hstep with
  | called hlive hmoved =>
      exact ⟨hsealed.alone.step hmoved, hsealed.manned.step hmoved,
        fun hphase => absurd rfl hphase⟩
  | flushed hclosed hmoved =>
      have hsettled := hsealed.settled (by simp [hclosed])
      exact ⟨hsealed.alone.step hmoved, hsealed.manned.step hmoved, fun _ =>
        hsettled.flush hsealed.manned hsealed.alone.keyed hmoved⟩
  | close hlive howner hquiet =>
      exact ⟨hsealed.alone, hsealed.manned, fun _ => hcloses hlive⟩
  | shutdown hclosed hmoved =>
      have hsettled := hsealed.settled (by simp [hclosed])
      exact ⟨hsealed.alone.step hmoved, hsealed.manned.step hmoved, fun _ =>
        hsettled.stop hmoved⟩
  | finish hclosed hchannel =>
      exact ⟨hsealed.alone, hsealed.manned, fun _ =>
        hsealed.settled (by simp [hclosed])⟩

theorem Sealed.issued (hsealed : life.Sealed)
    (hstep : life.step action = some next) {isOpen : Bool} {call : Syscall setup}
    (hissued : (isOpen, call) ∈ life.issued action) : isOpen = true := by
  cases step_cases hstep with
  | called hlive hmoved =>
      simp only [Lifecycle.issued, hlive, List.mem_map] at hissued
      obtain ⟨_, _, hpair⟩ := hissued
      exact (Prod.mk.inj hpair).1.symm
  | flushed hclosed hmoved =>
      have hsettled := hsealed.settled (by simp [hclosed])
      simp only [Lifecycle.issued, Machine.issued,
        FlusherPc.issued_of_not_midCycle hsettled.1] at hissued
      cases hissued
  | _ => cases hissued

theorem issued_before_close {image : Image} {run : List (LifeAction setup)}
    (hguard : Run.Along step ClosesSettled (launch setup image) run)
    (hrun : Run.exec step (launch setup image) run = some life) :
    life.Sealed ∧ ∀ isOpen call, (isOpen, call) ∈
      Run.trace step Lifecycle.issued (launch setup image) run →
        isOpen = true := by
  apply Run.invariant_trace
    (I := fun past life => Sealed life ∧
      ∀ isOpen call, (isOpen, call) ∈ past → isOpen = true)
    ⟨sealed_launch setup image, fun _ _ hmem => by cases hmem⟩ ?_ hguard hrun
  intro past life action next hpast hcloses hstep
  obtain ⟨hsealed, hopen⟩ := hpast
  refine ⟨hsealed.step hcloses hstep, ?_⟩
  intro isOpen call hmem
  rcases List.mem_append.mp hmem with hearlier | hlast
  · exact hopen isOpen call hearlier
  · exact hsealed.issued hstep hlast

end Lifecycle

/-! What the drop leaves on the device. -/

theorem ClientStep.device_cases {choice : Choice setup}
    {engine nextEngine : CacheEngine setup} {pc next : Pc setup}
    (hstep : ClientStep choice engine pc next nextEngine)
    (hcurrent : pc.Current engine.table.slotOf) (hio : choice.io.succeeds = true)
    (lba : Lba setup) :
    readLba nextEngine.device lba = readLba engine.device lba ∨
      pc.unreported = [] ∧ readLba nextEngine.device lba = engine.content lba := by
  cases hstep with
  | @victimWritten miss victim hok =>
      by_cases heq : lba = victim.lba
      · subst heq
        refine .inr ⟨rfl, ?_⟩
        rw [readLba_writeLba, if_pos rfl, CacheEngine.content_of_cached hcurrent.2]
      · refine .inl ?_
        rw [readLba_writeLba, if_neg heq]
  | victimTorn hfail => exact absurd hfail (IoOutcome.ne_fail hio _ _)
  | _ => exact .inl rfl

namespace Machine

variable {machine next : Machine setup 1} {action : Action setup 1}

/-- Without a running flusher, the device keeps what was acknowledged while
there was one. -/
structure Remembered (image : Image) (heard : List (Bool × BlockEvent setup))
    (machine : Machine setup 1) : Prop where
  faithful : ∃ past, machine.Faithful image past ∧
    heard.map Prod.snd = Run.trace step emitted (init setup 1 image) past
  winding : machine.Winding
  resting : machine.engine.flusher = none → ∀ lba,
    Register.Outlasts lba (readLba machine.engine.device lba) heard

theorem remembered_init (setup : Setup) (image : Image) :
    (init setup 1 image).Remembered image [] where
  faithful := ⟨[], faithful_init setup image, rfl⟩
  winding := winding_of_running rfl
  resting := fun _ lba => Register.outlasts_nil lba _

variable {image : Image} {heard : List (Bool × BlockEvent setup)}

theorem Remembered.outlasts (hremembered : machine.Remembered image heard)
    (hreported : (machine.client 0).unreported = []) (lba : Lba setup) :
    Register.Outlasts lba (machine.engine.content lba) heard := by
  obtain ⟨past, hfaithful, htrace⟩ := hremembered.faithful
  rw [hfaithful.content, hreported, List.append_nil, ← htrace]
  exact Register.outlasts_replay _ _ lba

theorem Remembered.drained (hremembered : machine.Remembered image heard)
    (hidle : machine.client 0 = .idle)
    (hclean : ∀ lba, machine.engine.table.dirtyOf lba ≠ some true)
    (lba : Lba setup) :
    Register.Outlasts lba (readLba machine.engine.device lba) heard := by
  obtain ⟨past, hfaithful, htrace⟩ := hremembered.faithful
  rw [hfaithful.staged.coherent.device_eq_content hidle hclean]
  apply hremembered.outlasts
  rw [hidle]
  rfl

theorem Remembered.resting_step (hremembered : machine.Remembered image heard)
    (hmanned : machine.Manned) (hio : action.faultless = true)
    (hstep : machine.step action = some next)
    (hchannel : next.engine.flusher = none) (lba : Lba setup) :
    Register.Outlasts lba (readLba next.engine.device lba)
      (heard ++ machine.heard action) := by
  cases step_cases hstep with
  | invoke howner hidle =>
      simpa [Machine.heard, emitted] using hremembered.resting hchannel lba
  | @client thread choice pc engine hclient =>
      obtain rfl : thread = 0 := Subsingleton.elim thread 0
      obtain ⟨past, hfaithful, _⟩ := hremembered.faithful
      have hnone := hclient.channel_none_iff.mp hchannel
      have hsilent : machine.heard (.client 0 choice) = [] := rfl
      rw [hsilent, List.append_nil]
      rcases hclient.device_cases hfaithful.alone.current hio lba with
        hsame | ⟨hreported, hcontent⟩
      · rw [hsame]
        exact hremembered.resting hnone lba
      · rw [hcontent]
        exact hremembered.outlasts hreported lba
  | @respond thread outcome hdone =>
      have hold := hremembered.resting hchannel lba
      have hchannel' : machine.engine.flusher.isSome = false := by
        rw [show machine.engine.flusher = none from hchannel]
        rfl
      simp only [Machine.heard, emitted, hdone, hchannel']
      cases outcome with
      | failed error => simpa [Outcome.events] using hold
      | readOk target result => exact hold.concat _
      | writeOk target buf result => exact hold.concat _
  | flush hflush =>
      obtain ⟨hbefore, _, hiff⟩ := hflush.channel
      exact absurd (hmanned.mp (hiff.mp hchannel)) hbefore
  | owner howner =>
      have hsilent : machine.heard action = [] := by
        cases howner <;> rfl
      rw [hsilent, List.append_nil]
      cases howner with
      | started howner hnone => cases hchannel
      | flagStored howner =>
          exact hremembered.resting (Option.map_eq_none_iff.mp hchannel) lba
      | signalSent howner =>
          exact hremembered.resting (Option.map_eq_none_iff.mp hchannel) lba
      | joined hjoining hexited =>
          apply hremembered.drained
          · apply hremembered.winding.idle
            rw [hjoining]
            decide
          · intro other hdirty
            have hahead := hremembered.winding.ahead (.inr hjoining) other hdirty
            rw [hexited] at hahead
            exact hahead
      | _ => exact hremembered.resting hchannel lba

theorem Remembered.step (hremembered : machine.Remembered image heard)
    (hmanned : machine.Manned) (hdrains : machine.DrainsOnStop action)
    (hio : action.faultless = true) (hstep : machine.step action = some next) :
    next.Remembered image (heard ++ machine.heard action) := by
  obtain ⟨past, hfaithful, htrace⟩ := hremembered.faithful
  refine ⟨⟨past ++ [action], hfaithful.step hdrains hio hstep, ?_⟩,
    hremembered.winding.step hfaithful.alone.keyed hdrains hio hstep,
    hremembered.resting_step hmanned hio hstep⟩
  rw [List.map_append, htrace, Run.trace_append hfaithful.reached,
    Run.trace_singleton]
  simp [Machine.heard]

end Machine

def LifeAction.faultless : LifeAction setup → Bool
  | .call action => action.faultless
  | .drop => true

namespace Lifecycle

variable {life next : Lifecycle setup} {action : LifeAction setup}
variable {image : Image} {heard : List (Bool × BlockEvent setup)}

def Drains (life : Lifecycle setup) : LifeAction setup → Prop
  | .call action => life.machine.DrainsOnStop action
  | .drop => True

instance (life : Lifecycle setup) : (action : LifeAction setup) →
    Decidable (life.Drains action)
  | .call _ => inferInstanceAs (Decidable (Machine.DrainsOnStop _ _))
  | .drop => isTrue trivial

structure Lasting (image : Image) (heard : List (Bool × BlockEvent setup))
    (life : Lifecycle setup) : Prop where
  live : life.phase = .live → life.machine.Remembered image heard
  ended : life.phase ≠ .live → ∀ lba,
    Register.Outlasts lba (readLba life.machine.engine.device lba) heard

theorem lasting_of_ended (hphase : life.phase ≠ .live)
    (hended : ∀ lba,
      Register.Outlasts lba (readLba life.machine.engine.device lba) heard) :
    life.Lasting image (heard ++ []) := by
  rw [List.append_nil]
  exact ⟨fun hlive => absurd hlive hphase, fun _ => hended⟩

theorem Lasting.step (hlasting : life.Lasting image heard) (hsealed : life.Sealed)
    (hcloses : life.ClosesSettled action) (hdrains : life.Drains action)
    (hio : action.faultless = true) (hstep : life.step action = some next) :
    next.Lasting image (heard ++ life.heard action) := by
  cases step_cases hstep with
  | called hlive hmoved =>
      refine ⟨fun _ => ?_, fun hphase => absurd rfl hphase⟩
      exact (hlasting.live hlive).step hsealed.manned hdrains hio hmoved
  | @flushed choice machine hclosed hmoved =>
      have hphase : life.phase ≠ .live := by simp [hclosed]
      apply lasting_of_ended (by simp)
      intro lba
      cases Machine.step_cases hmoved with
      | flush hflush =>
          simp only [hflush.device_of_not_midCycle (hsealed.settled hphase).1]
          exact hlasting.ended hphase lba
      | owner howner => cases howner
  | close hlive hrunning hquiet =>
      apply lasting_of_ended (by simp)
      intro lba
      have hremembered := hlasting.live hlive
      cases hchannel : life.machine.engine.flusher with
      | none => exact hremembered.resting hchannel lba
      | some channel =>
          apply hremembered.drained (Pc.isIdle_iff.mp (hquiet 0))
          exact (hcloses hlive).2 (by rw [hchannel]; rfl)
  | shutdown hclosed hmoved =>
      apply lasting_of_ended (by simp)
      cases Machine.step_cases hmoved with
      | owner howner => exact hlasting.ended (by simp [hclosed])
  | finish hclosed hchannel =>
      exact lasting_of_ended (by simp) (hlasting.ended (by simp [hclosed]))

theorem lasting_run {run : List (LifeAction setup)}
    (hfaultless : ∀ action ∈ run, action.faultless = true)
    (hcloses : Run.Along step ClosesSettled (launch setup image) run)
    (hdrains : Run.Along step Drains (launch setup image) run)
    (hrun : Run.exec step (launch setup image) run = some life) :
    life.Lasting image
      (Run.trace step Lifecycle.heard (launch setup image) run) := by
  have hinvariant : life.Sealed ∧ life.Lasting image
      (Run.trace step Lifecycle.heard (launch setup image) run) := by
    apply Run.invariant_trace
      (I := fun past life => Sealed life ∧ Lasting image past life)
      ⟨sealed_launch setup image, ?_⟩ ?_
      (Run.along_and (Run.along_of_forall hfaultless)
        (Run.along_and hcloses hdrains)) hrun
    · exact ⟨fun _ => Machine.remembered_init setup image,
        fun hphase => absurd rfl hphase⟩
    intro past life action next hpast hallowed hstep
    obtain ⟨hsealed, hlasting⟩ := hpast
    obtain ⟨hio, hcloses, hdrains⟩ := hallowed
    exact ⟨hsealed.step hcloses hstep,
      hlasting.step hsealed hcloses hdrains hio hstep⟩
  exact hinvariant.2

/-- When the descriptor is closed only after the flush thread is done, nothing
is issued on it afterwards; and on a fault-free device, with calls that drain,
the drop leaves every write that was acknowledged while a flusher was running
on the device, or a later one to the same LBA. -/
theorem drop_after_flusher_done (run : List (LifeAction setup))
    (hcloses : Run.Along step ClosesSettled (launch setup image) run)
    (hrun : Run.exec step (launch setup image) run = some life) :
    (∀ isOpen call, (isOpen, call) ∈
      Run.trace step Lifecycle.issued (launch setup image) run →
        isOpen = true) ∧
    ((∀ action ∈ run, action.faultless = true) →
      Run.Along step Drains (launch setup image) run → life.phase = .dropped →
      ∀ lba, Register.Outlasts lba (readLba life.machine.engine.device lba)
        (Run.trace step Lifecycle.heard (launch setup image) run)) := by
  refine ⟨(issued_before_close hcloses hrun).2, ?_⟩
  intro hfaultless hdrains hdropped
  exact (lasting_run hfaultless hcloses hdrains hrun).ended (by simp [hdropped])

/-- A write, an orderly `stop`, a write that no flusher sees, and the drop. -/
def stoppedFirst : List (LifeAction (.mini 0)) :=
  List.flatten [
    (List.flatten [
      [.start, .invoke lone (.write 0 fun _ => 5)], advance lone 6 1,
      [.respond lone], .replicate 3 .stop, .replicate 6 (.flush (.calm 2)),
      .replicate 2 .stop, [.invoke lone (.write 1 fun _ => 6)],
      advance lone 10 3, [.respond lone]]).map .call,
    .replicate 2 .drop]

theorem stoppedFirst_on_device :
    ∃ life, Run.exec step (launch (.mini 0) stripes) stoppedFirst = some life ∧
      life.phase = .dropped ∧
      (∀ isOpen call, (isOpen, call) ∈ Run.trace step Lifecycle.issued
        (launch (.mini 0) stripes) stoppedFirst → isOpen = true) ∧
      ∀ lba, Register.Outlasts lba (readLba life.machine.engine.device lba)
        (Run.trace step Lifecycle.heard (launch (.mini 0) stripes)
          stoppedFirst) := by
  have hdrops : (Run.exec step (launch (.mini 0) stripes) stoppedFirst).map
      (·.phase) = some .dropped := by
    decide +kernel
  obtain ⟨life, hrun, hdropped⟩ := Option.map_eq_some_iff.mp hdrops
  have hcloses : Run.Along step ClosesSettled (launch (.mini 0) stripes)
      stoppedFirst := by
    decide +kernel
  have hdrains : Run.Along step Drains (launch (.mini 0) stripes)
      stoppedFirst := by
    decide +kernel
  obtain ⟨hopen, hlasts⟩ := drop_after_flusher_done stoppedFirst hcloses hrun
  exact ⟨life, hrun, hdropped, hopen,
    hlasts (by decide +kernel) hdrains hdropped⟩

/-- An early return: the engine is dropped while its flusher runs. -/
def earlyReturn : List (LifeAction (.mini 0)) :=
  List.flatten [
    (List.flatten [
      [.start, .invoke lone (.write 0 fun _ => 5)], advance lone 6 1,
      [.respond lone]]).map .call,
    .replicate 4 .drop, .replicate 4 (.call (.flush (.calm 2))),
    .replicate 2 .drop]

theorem earlyReturn_writes_after_close :
    ¬∀ (setup : Setup) (image : Image) (run : List (LifeAction setup))
      (life : Lifecycle setup), setup.readOnly = false →
      Run.exec step (launch setup image) run = some life →
      (∀ isOpen call, (isOpen, call) ∈
        Run.trace step Lifecycle.issued (launch setup image) run →
          isOpen = true) ∧
      ((∀ action ∈ run, action.faultless = true) → life.phase = .dropped →
        ∀ lba, Register.Outlasts lba (readLba life.machine.engine.device lba)
          (Run.trace step Lifecycle.heard (launch setup image) run)) := by
  intro hholds
  have hruns : (Run.exec step (launch (.mini 0) stripes) earlyReturn).isSome =
      true := by
    decide +kernel
  obtain ⟨life, hrun⟩ := Option.isSome_iff_exists.mp hruns
  have hissued : (false, Syscall.pwrite (0 : Lba (.mini 0))) ∈
      Run.trace step Lifecycle.issued (launch (.mini 0) stripes)
        earlyReturn := by
    decide +kernel
  cases (hholds (.mini 0) stripes earlyReturn life rfl hrun).1 _ _ hissued

end Lifecycle

end AsmCacheInject.Concurrent

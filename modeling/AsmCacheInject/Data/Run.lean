import Mathlib

namespace AsmCacheInject.Data.Run

/-! Finite runs of a partial deterministic transition function.  All
nondeterminism lives in the action, so a schedule is a list of actions and a
run is replayed by `exec`. -/

variable {State Action : Type*}

def exec (step : State → Action → Option State) :
    State → List Action → Option State
  | state, [] => some state
  | state, action :: rest =>
      (step state action).bind fun next => exec step next rest

/-- Every action of the run meets `guard` in the state it is taken in. -/
def Along (step : State → Action → Option State)
    (guard : State → Action → Prop) : State → List Action → Prop
  | _, [] => True
  | state, action :: rest =>
      guard state action ∧
        match step state action with
        | none => True
        | some next => Along step guard next rest

/-- The events a run emits, each computed in the state it is emitted from. -/
def trace {Event : Type*} (step : State → Action → Option State)
    (emit : State → Action → List Event) : State → List Action → List Event
  | _, [] => []
  | state, action :: rest =>
      emit state action ++
        match step state action with
        | none => []
        | some next => trace step emit next rest

/-- The same steps over states that remember the events emitted so far. -/
def logged {Event : Type*} (step : State → Action → Option State)
    (emit : State → Action → List Event) (reached : State × List Event)
    (action : Action) : Option (State × List Event) :=
  (step reached.1 action).map fun next => (next, reached.2 ++ emit reached.1 action)

section Decidability

variable (step : State → Action → Option State)
variable (guard : State → Action → Prop)
variable [∀ state action, Decidable (guard state action)]

instance decidableAlong : (state : State) → (run : List Action) →
    Decidable (Along step guard state run)
  | _, [] => inferInstanceAs (Decidable True)
  | state, action :: rest =>
      letI : Decidable (match step state action with
          | none => True
          | some next => Along step guard next rest) :=
        match step state action with
        | none => isTrue trivial
        | some next => decidableAlong next rest
      inferInstanceAs (Decidable (guard state action ∧ _))

end Decidability

section Replay

variable {step : State → Action → Option State}
variable {guard : State → Action → Prop}

theorem exec_cons (state : State) (action : Action) (rest : List Action) :
    exec step state (action :: rest) =
      (step state action).bind fun next => exec step next rest :=
  rfl

theorem exec_append (state : State) (first second : List Action) :
    exec step state (first ++ second) =
      (exec step state first).bind fun middle => exec step middle second := by
  induction first generalizing state with
  | nil => rfl
  | cons action rest ih =>
      simp only [List.cons_append, exec_cons]
      cases step state action with
      | none => rfl
      | some next => exact ih next

theorem exec_concat_eq_some {state final : State} {past : List Action}
    {action : Action} :
    exec step state (past ++ [action]) = some final ↔
      ∃ middle, exec step state past = some middle ∧
        step middle action = some final := by
  rw [exec_append, Option.bind_eq_some_iff]
  simp [exec]

theorem along_append {state middle : State} {first second : List Action}
    (hfirst : exec step state first = some middle) :
    Along step guard state (first ++ second) ↔
      Along step guard state first ∧ Along step guard middle second := by
  induction first generalizing state with
  | nil =>
      cases hfirst
      simp [Along]
  | cons action rest ih =>
      rw [exec_cons, Option.bind_eq_some_iff] at hfirst
      obtain ⟨next, hstep, hrest⟩ := hfirst
      simp only [List.cons_append, Along, hstep, ih hrest, and_assoc]

theorem trace_append {Event : Type*} {emit : State → Action → List Event}
    {state middle : State} {first : List Action}
    (hfirst : exec step state first = some middle) (second : List Action) :
    trace step emit state (first ++ second) =
      trace step emit state first ++ trace step emit middle second := by
  induction first generalizing state with
  | nil =>
      cases hfirst
      rfl
  | cons action rest ih =>
      rw [exec_cons, Option.bind_eq_some_iff] at hfirst
      obtain ⟨next, hstep, hrest⟩ := hfirst
      simp only [List.cons_append, trace, hstep, ih hrest, List.append_assoc]

theorem trace_singleton {Event : Type*} {emit : State → Action → List Event}
    (state : State) (action : Action) :
    trace step emit state [action] = emit state action := by
  cases hstep : step state action <;> simp [trace, hstep]

theorem exec_logged {Event : Type*} {emit : State → Action → List Event}
    {start final : State} {run : List Action}
    (hrun : exec step start run = some final) (past : List Event) :
    exec (logged step emit) (start, past) run =
      some (final, past ++ trace step emit start run) := by
  induction run generalizing start past with
  | nil =>
      cases hrun
      rw [trace, List.append_nil]
      rfl
  | cons action rest ih =>
      obtain ⟨next, hmoved, hrest⟩ := Option.bind_eq_some_iff.mp hrun
      have hlogged : logged step emit (start, past) action =
          some (next, past ++ emit start action) := by
        simp only [logged, hmoved, Option.map_some]
      rw [exec_cons, hlogged, Option.bind_some, ih hrest]
      simp only [trace, hmoved, List.append_assoc]

theorem mem_trace {Event : Type*} {emit : State → Action → List Event}
    {start : State} {run : List Action} {event : Event}
    (hmem : event ∈ trace step emit start run) :
    ∃ past action rest middle, run = past ++ action :: rest ∧
      exec step start past = some middle ∧ event ∈ emit middle action := by
  induction run generalizing start with
  | nil => cases hmem
  | cons action rest ih =>
      rcases List.mem_append.mp hmem with hfirst | hlater
      · exact ⟨[], action, rest, start, rfl, rfl, hfirst⟩
      · cases hstep : step start action with
        | none =>
            rw [hstep] at hlater
            cases hlater
        | some next =>
            rw [hstep] at hlater
            obtain ⟨past, later, future, middle, hsplit, hpast, hevent⟩ := ih hlater
            refine ⟨action :: past, later, future, middle, ?_, ?_, hevent⟩
            · rw [hsplit, List.cons_append]
            · rw [exec_cons, hstep]
              exact hpast

/-- The invariant rule.  The invariant may look back at the actions already
taken; it only has to survive the steps that meet the guard. -/
theorem invariant {I : List Action → State → Prop} {start final : State}
    {run : List Action} (hinit : I [] start)
    (hstep : ∀ past state action next, I past state →
      guard state action → step state action = some next →
      I (past ++ [action]) next)
    (hguard : Along step guard start run)
    (hrun : exec step start run = some final) : I run final := by
  induction run using List.reverseRecOn generalizing final with
  | nil =>
      cases hrun
      exact hinit
  | append_singleton past action ih =>
      obtain ⟨middle, hpast, hlast⟩ := exec_concat_eq_some.mp hrun
      obtain ⟨hguardPast, hguardLast⟩ := (along_append hpast).mp hguard
      exact hstep past middle action final (ih hguardPast hpast)
        hguardLast.1 hlast

theorem invariant_state {I : State → Prop} {start final : State}
    {run : List Action} (hinit : I start)
    (hstep : ∀ state action next, I state → guard state action →
      step state action = some next → I next)
    (hguard : Along step guard start run)
    (hrun : exec step start run = some final) : I final :=
  invariant (I := fun _ state => I state) hinit
    (fun _ => hstep) hguard hrun

theorem invariant_trace {Event : Type*} {emit : State → Action → List Event}
    {I : List Event → State → Prop} {start final : State} {run : List Action}
    (hinit : I [] start)
    (hstep : ∀ past state action next, I past state → guard state action →
      step state action = some next → I (past ++ emit state action) next)
    (hguard : Along step guard start run)
    (hrun : exec step start run = some final) :
    I (trace step emit start run) final := by
  have hreached : exec step start run = some final ∧
      I (trace step emit start run) final := by
    apply invariant
      (I := fun past state => exec step start past = some state ∧
        I (trace step emit start past) state) ⟨rfl, hinit⟩ ?_ hguard hrun
    intro past state action next hpast hallowed hmoved
    obtain ⟨hreached, hheld⟩ := hpast
    refine ⟨exec_concat_eq_some.mpr ⟨state, hreached, hmoved⟩, ?_⟩
    rw [trace_append hreached, trace_singleton]
    exact hstep _ state action next hheld hallowed hmoved
  exact hreached.2

theorem along_and {first second : State → Action → Prop} {state : State}
    {run : List Action} (hfirst : Along step first state run)
    (hsecond : Along step second state run) :
    Along step (fun state action => first state action ∧ second state action)
      state run := by
  induction run generalizing state with
  | nil => trivial
  | cons action rest ih =>
      refine ⟨⟨hfirst.1, hsecond.1⟩, ?_⟩
      have hfirstRest := hfirst.2
      have hsecondRest := hsecond.2
      cases hstep : step state action with
      | none => trivial
      | some next =>
          rw [hstep] at hfirstRest hsecondRest
          exact ih hfirstRest hsecondRest

theorem along_of_forall {condition : Action → Prop} {state : State}
    {run : List Action} (hall : ∀ action ∈ run, condition action) :
    Along step (fun _ action => condition action) state run := by
  induction run generalizing state with
  | nil => trivial
  | cons action rest ih =>
      refine ⟨hall action List.mem_cons_self, ?_⟩
      cases step state action with
      | none => trivial
      | some next =>
          exact ih fun other hother => hall other (List.mem_cons_of_mem _ hother)

/-- A run along which a rank goes down is no longer than its first rank. -/
theorem length_le_rank {I : State → Prop} (rank : State → Nat)
    {start final : State} {run : List Action} (hinit : I start)
    (hstep : ∀ state action next, I state → guard state action →
      step state action = some next → I next ∧ rank next < rank state)
    (hguard : Along step guard start run)
    (hrun : exec step start run = some final) : run.length ≤ rank start := by
  induction run generalizing start with
  | nil => exact Nat.zero_le _
  | cons action rest ih =>
      obtain ⟨next, hmoved, hrest⟩ := Option.bind_eq_some_iff.mp hrun
      obtain ⟨hallowed, hguardRest⟩ := hguard
      rw [hmoved] at hguardRest
      obtain ⟨hnext, hlower⟩ := hstep start action next hinit hallowed hmoved
      have hlength := ih hnext hguardRest hrest
      rw [List.length_cons]
      omega

end Replay

end AsmCacheInject.Data.Run

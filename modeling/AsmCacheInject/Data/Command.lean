import Mathlib

namespace AsmCacheInject.Data

/-! Commands over a state that may stop early, and rules for total
correctness: `Returns` excludes an early stop, `Stops` forces one. -/

variable {State Exit Value Next Item : Type}

abbrev Command (State Exit Value : Type) := ExceptT Exit (StateM State) Value

namespace Command

def exec (command : Command State Exit Value) (state : State) :
    Except Exit Value × State :=
  StateT.run (ExceptT.run command) state

def ofStep (step : State → Except Exit Value × State) :
    Command State Exit Value :=
  ExceptT.mk step

theorem exec_bind_ok {first : Command State Exit Value}
    {rest : Value → Command State Exit Next} {state next : State} {value : Value}
    (hfirst : first.exec state = (.ok value, next)) :
    (first >>= rest).exec state = (rest value).exec next := by
  have hrun : StateT.run (ExceptT.run first) state = (.ok value, next) := hfirst
  simp only [exec, ExceptT.run_bind, StateT.run_bind, hrun]
  rfl

theorem exec_bind_error {first : Command State Exit Value}
    {rest : Value → Command State Exit Next} {state left : State} {exit : Exit}
    (hfirst : first.exec state = (.error exit, left)) :
    (first >>= rest).exec state = (.error exit, left) := by
  have hrun : StateT.run (ExceptT.run first) state = (.error exit, left) := hfirst
  simp only [exec, ExceptT.run_bind, StateT.run_bind, hrun]
  rfl

/-- From every state in `before` the command returns, into `after`. -/
def Returns (before : State → Prop) (command : Command State Exit Value)
    (after : State → Prop) : Prop :=
  ∀ state, before state → ∃ value next,
    command.exec state = (.ok value, next) ∧ after next

def Stops (before : State → Prop) (command : Command State Exit Value) : Prop :=
  ∀ state, before state → ∃ exit left, command.exec state = (.error exit, left)

section Rules

variable {before between after : State → Prop}
variable {first : Command State Exit Value}
variable {rest : Value → Command State Exit Next}

theorem Returns.ofStep {step : State → Except Exit Value × State}
    (hstep : ∀ state, before state →
      (∃ value, (step state).1 = .ok value) ∧ after (step state).2) :
    Returns before (Command.ofStep step) after := by
  intro state hbefore
  obtain ⟨⟨value, hvalue⟩, hafter⟩ := hstep state hbefore
  exact ⟨value, (step state).2, Prod.ext hvalue rfl, hafter⟩

theorem Stops.ofStep {step : State → Except Exit Value × State}
    (hstep : ∀ state, before state → ∃ exit, (step state).1 = .error exit) :
    Stops before (Command.ofStep step) := by
  intro state hbefore
  obtain ⟨exit, hexit⟩ := hstep state hbefore
  exact ⟨exit, (step state).2, Prod.ext hexit rfl⟩

theorem Returns.pure (value : Value) :
    Returns before (Pure.pure value : Command State Exit Value) before := by
  intro state hbefore
  exact ⟨value, state, rfl, hbefore⟩

theorem Returns.bind (hfirst : Returns before first between)
    (hrest : ∀ value, Returns between (rest value) after) :
    Returns before (first >>= rest) after := by
  intro state hbefore
  obtain ⟨value, next, hexec, hbetween⟩ := hfirst state hbefore
  rw [exec_bind_ok hexec]
  exact hrest value next hbetween

theorem Stops.bind (hfirst : Stops before first) :
    Stops before (first >>= rest) := by
  intro state hbefore
  obtain ⟨exit, left, hexec⟩ := hfirst state hbefore
  exact ⟨exit, left, exec_bind_error hexec⟩

theorem Returns.bind_stops (hfirst : Returns before first between)
    (hrest : ∀ value, Stops between (rest value)) :
    Stops before (first >>= rest) := by
  intro state hbefore
  obtain ⟨value, next, hexec, hbetween⟩ := hfirst state hbefore
  rw [exec_bind_ok hexec]
  exact hrest value next hbetween

theorem Returns.foldlM {body : Value → Item → Command State Exit Value}
    {items : List Item}
    (hbody : ∀ item ∈ items, ∀ value, Returns before (body value item) before)
    (value : Value) : Returns before (items.foldlM body value) before := by
  induction items generalizing value with
  | nil => exact Returns.pure value
  | cons item rest ih =>
      rw [List.foldlM_cons]
      apply Returns.bind (hbody item List.mem_cons_self value)
      intro next
      exact ih (fun later hlater => hbody later (List.mem_cons_of_mem _ hlater)) next

theorem Stops.foldlM {body : Value → Item → Command State Exit Value}
    {item : Item} {items : List Item} {value : Value}
    (hbody : Stops before (body value item)) :
    Stops before ((item :: items).foldlM body value) := by
  rw [List.foldlM_cons]
  exact hbody.bind

end Rules

/-! Running a command step by step. -/

section Running

@[simp] theorem exec_pure (value : Value) (state : State) :
    (Pure.pure value : Command State Exit Value).exec state = (.ok value, state) :=
  rfl

@[simp] theorem exec_throw (exit : Exit) (state : State) :
    (throw exit : Command State Exit Value).exec state = (.error exit, state) :=
  rfl

@[simp] theorem exec_ofStep (step : State → Except Exit Value × State)
    (state : State) : (ofStep step).exec state = step state :=
  rfl

theorem exec_bind (first : Command State Exit Value)
    (rest : Value → Command State Exit Next) (state : State) :
    (first >>= rest).exec state =
      match first.exec state with
      | (.ok value, next) => (rest value).exec next
      | (.error exit, left) => (.error exit, left) := by
  rcases hfirst : first.exec state with ⟨outcome, next⟩
  cases outcome with
  | error exit => exact exec_bind_error hfirst
  | ok value => exact exec_bind_ok hfirst

end Running

/-! Commands whose value is known. -/

section Values

variable {before between after : State → Prop}

def Yields (before : State → Prop) (command : Command State Exit Value)
    (value : Value) (after : State → Prop) : Prop :=
  ∀ state, before state → ∃ next,
    command.exec state = (.ok value, next) ∧ after next

theorem Yields.pure (value : Value) :
    Yields before (Pure.pure value : Command State Exit Value) value before := by
  intro state hbefore
  exact ⟨state, rfl, hbefore⟩

theorem Yields.bind {first : Command State Exit Value}
    {rest : Value → Command State Exit Next} {value : Value} {final : Next}
    (hfirst : Yields before first value between)
    (hrest : Yields between (rest value) final after) :
    Yields before (first >>= rest) final after := by
  intro state hbefore
  obtain ⟨next, hexec, hbetween⟩ := hfirst state hbefore
  rw [exec_bind_ok hexec]
  exact hrest next hbetween

end Values

/-! Commands that keep an invariant however they end. -/

section Invariants

variable {invariant : State → Prop}

def Maintains (invariant : State → Prop) (command : Command State Exit Value) :
    Prop :=
  ∀ state, invariant state → invariant (command.exec state).2

theorem Maintains.pure (value : Value) :
    Maintains invariant (Pure.pure value : Command State Exit Value) := by
  intro state hstate
  exact hstate

theorem Maintains.bind {first : Command State Exit Value}
    {rest : Value → Command State Exit Next} (hfirst : Maintains invariant first)
    (hrest : ∀ value, Maintains invariant (rest value)) :
    Maintains invariant (first >>= rest) := by
  intro state hstate
  have hnext := hfirst state hstate
  rw [exec_bind]
  rcases hexec : first.exec state with ⟨outcome, next⟩
  rw [hexec] at hnext
  cases outcome with
  | error exit => exact hnext
  | ok value => exact hrest value next hnext

/-- What follows a command that never returns does not matter. -/
theorem Maintains.bind_of_stops {first : Command State Exit Value}
    {rest : Value → Command State Exit Next} (hfirst : Maintains invariant first)
    (hstops : Stops invariant first) : Maintains invariant (first >>= rest) := by
  intro state hstate
  obtain ⟨exit, left, hexec⟩ := hstops state hstate
  have hleft := hfirst state hstate
  rw [hexec] at hleft
  rw [exec_bind_error hexec]
  exact hleft

theorem Maintains.foldlM {body : Value → Item → Command State Exit Value}
    {items : List Item} (hbody : ∀ value item, Maintains invariant (body value item))
    (value : Value) : Maintains invariant (items.foldlM body value) := by
  induction items generalizing value with
  | nil => exact Maintains.pure value
  | cons item rest ih =>
      rw [List.foldlM_cons]
      exact (hbody value item).bind ih

theorem Stops.bind_maintained {before : State → Prop}
    {first : Command State Exit Value} {rest : Value → Command State Exit Next}
    (hfirst : Maintains before first) (hrest : ∀ value, Stops before (rest value)) :
    Stops before (first >>= rest) := by
  intro state hstate
  have hnext := hfirst state hstate
  rw [exec_bind]
  rcases hexec : first.exec state with ⟨outcome, next⟩
  rw [hexec] at hnext
  cases outcome with
  | error exit => exact ⟨exit, next, rfl⟩
  | ok value => exact hrest value next hnext

end Invariants

end Command

end AsmCacheInject.Data

import AsmCacheInject.Data.History

namespace AsmCacheInject.Data.Register

/-! Histories of a plain map.  An implementation refines the map when the
history of its successful operations is one the map could have produced. -/

variable {Key Value : Type*} [DecidableEq Key]

inductive Event (Key Value : Type*)
  | read (key : Key) (value : Value)
  | write (key : Key) (value : Value)

def replay (initial : Key → Value) : List (Event Key Value) → Key → Value
  | [] => initial
  | .read _ _ :: rest => replay initial rest
  | .write key value :: rest =>
      replay (Function.update initial key value) rest

def Consistent (initial : Key → Value) : List (Event Key Value) → Prop
  | [] => True
  | .read key value :: rest => value = initial key ∧ Consistent initial rest
  | .write key value :: rest =>
      Consistent (Function.update initial key value) rest

def lastWrite (key : Key) (history : List (Event Key Value)) : Option Value :=
  history.reverse.findSome? fun
    | .read _ _ => none
    | .write written value => if written = key then some value else none

theorem replay_append (initial : Key → Value)
    (first second : List (Event Key Value)) :
    replay initial (first ++ second) = replay (replay initial first) second := by
  induction first generalizing initial with
  | nil => rfl
  | cons event rest ih =>
      cases event with
      | read key value => exact ih initial
      | write key value => exact ih (Function.update initial key value)

theorem consistent_append (initial : Key → Value)
    (first second : List (Event Key Value)) :
    Consistent initial (first ++ second) ↔
      Consistent initial first ∧ Consistent (replay initial first) second := by
  induction first generalizing initial with
  | nil => simp [Consistent, replay]
  | cons event rest ih =>
      cases event with
      | read key value =>
          simp only [List.cons_append, Consistent, replay, ih, and_assoc]
      | write key value =>
          simp only [List.cons_append, Consistent, replay, ih]

theorem replay_eq_lastWrite (initial : Key → Value)
    (history : List (Event Key Value)) (key : Key) :
    replay initial history key = (lastWrite key history).getD (initial key) := by
  induction history using List.reverseRecOn with
  | nil => rfl
  | append_singleton past event ih =>
      rw [replay_append]
      cases event with
      | read readKey value => simpa [replay, lastWrite] using ih
      | write written value =>
          by_cases heq : written = key
          · subst heq
            simp [replay, lastWrite]
          · simpa [replay, lastWrite, heq, Function.update_of_ne (Ne.symm heq)]
              using ih

/-! Marked writes.  A value outlasts the marked writes to a key when it is that
of the last marked write or of a write after it. -/

def Outlasts (key : Key) (value : Value)
    (history : List (Bool × Event Key Value)) : Prop :=
  ∀ written, History.Since (· = (true, .write key written))
    (fun later => value = written ∨ ∃ mark, (mark, .write key value) ∈ later)
    history

omit [DecidableEq Key] in
theorem outlasts_nil (key : Key) (value : Value) : Outlasts key value [] :=
  fun _ => History.since_nil

omit [DecidableEq Key] in
theorem Outlasts.concat {key : Key} {value : Value}
    {history : List (Bool × Event Key Value)}
    (houtlasts : Outlasts key value history) (event : Event Key Value) :
    Outlasts key value (history ++ [(false, event)]) := by
  intro written
  refine History.Since.concat ((houtlasts written).mono ?_) ?_
  · intro later hlater
    rcases hlater with hsame | ⟨mark, hmem⟩
    · exact .inl hsame
    · exact .inr ⟨mark, List.mem_append_left _ hmem⟩
  · intro hmarked
    cases (Prod.mk.inj hmarked).1

theorem replay_mem (initial : Key → Value)
    (history : List (Event Key Value)) (key : Key) :
    replay initial history key = initial key ∨
      .write key (replay initial history key) ∈ history := by
  induction history generalizing initial with
  | nil => exact .inl rfl
  | cons event rest ih =>
      cases event with
      | read readKey value =>
          rcases ih initial with hsame | hmem
          · exact .inl hsame
          · exact .inr (List.mem_cons_of_mem _ hmem)
      | write written value =>
          simp only [replay]
          rcases ih (Function.update initial written value) with hsame | hmem
          · by_cases heq : key = written
            · subst heq
              rw [hsame, Function.update_self]
              exact .inr List.mem_cons_self
            · rw [hsame, Function.update_of_ne heq]
              exact .inl rfl
          · exact .inr (List.mem_cons_of_mem _ hmem)

theorem outlasts_replay (initial : Key → Value)
    (history : List (Bool × Event Key Value)) (key : Key) :
    Outlasts key (replay initial (history.map Prod.snd) key) history := by
  intro written earlier event later hsplit hevent
  subst hsplit hevent
  rw [List.map_append, List.map_cons, replay_append]
  simp only [replay]
  rcases replay_mem (Function.update (replay initial (earlier.map Prod.snd)) key
      written) (later.map Prod.snd) key with hsame | hmem
  · rw [Function.update_self] at hsame
    exact .inl hsame
  · obtain ⟨⟨mark, event⟩, hmarked, heq⟩ := List.mem_map.mp hmem
    exact .inr ⟨mark, heq ▸ hmarked⟩

/-! What a key was last seen with, be it read or written. -/

def Event.key : Event Key Value → Key
  | .read key _ => key
  | .write key _ => key

def Event.value : Event Key Value → Value
  | .read _ value => value
  | .write _ value => value

def lastSeen (key : Key) (history : List (Event Key Value)) : Option Value :=
  history.reverse.findSome? fun event =>
    if event.key = key then some event.value else none

theorem lastSeen_concat_self (history : List (Event Key Value))
    (event : Event Key Value) :
    lastSeen event.key (history ++ [event]) = some event.value := by
  simp [lastSeen]

theorem lastSeen_concat_of_ne {key : Key} {event : Event Key Value}
    (hne : key ≠ event.key) (history : List (Event Key Value)) :
    lastSeen key (history ++ [event]) = lastSeen key history := by
  simp [lastSeen, hne.symm]

end AsmCacheInject.Data.Register

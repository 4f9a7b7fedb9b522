import Mathlib

namespace AsmCacheInject.Data.Linearization

/-! Calls that take effect at one point.  A thread starts a call, the call
takes effect, and the thread is answered with that effect; a call may also fail
without one. -/

variable {Thread Op : Type*}

inductive Mark (Op : Type*)
  | call
  | effect (op : Op)
  | answer (op : Option Op)

inductive Phase (Op : Type*)
  | idle
  | open
  | took (op : Op)

inductive Moves : Phase Op → Mark Op → Phase Op → Prop
  | call : Moves .idle .call .open
  | effect (op : Op) : Moves .open (.effect op) (.took op)
  | answer (op : Op) : Moves (.took op) (.answer (some op)) .idle
  | fail : Moves .open (.answer none) .idle

def effects (history : List (Thread × Mark Op)) : List Op :=
  history.filterMap fun
    | (_, .effect op) => some op
    | _ => none

theorem effects_append (first second : List (Thread × Mark Op)) :
    effects (first ++ second) = effects first ++ effects second :=
  List.filterMap_append ..

def Silent (thread : Thread) (history : List (Thread × Mark Op)) : Prop :=
  ∀ mark, (thread, mark) ∉ history

theorem Silent.concat {thread other : Thread} {history : List (Thread × Mark Op)}
    (hsilent : Silent thread history) (hne : thread ≠ other) (mark : Mark Op) :
    Silent thread (history ++ [(other, mark)]) := by
  intro made hmem
  rcases List.mem_append.mp hmem with hbefore | hlast
  · exact hsilent made hbefore
  · exact hne (congrArg Prod.fst (List.mem_singleton.mp hlast))

theorem silent_nil (thread : Thread) :
    Silent thread ([] : List (Thread × Mark Op)) :=
  fun _ => List.not_mem_nil

variable [DecidableEq Thread]

/-- The marks of all threads, in the order they were made, and the phase each
thread has come to. -/
inductive Conducted : List (Thread × Mark Op) → (Thread → Phase Op) → Prop
  | start : Conducted [] fun _ => .idle
  | step {history phases thread mark next} (hbefore : Conducted history phases)
      (hmove : Moves (phases thread) mark next) :
      Conducted (history ++ [(thread, mark)]) (Function.update phases thread next)

namespace Conducted

variable {history : List (Thread × Mark Op)} {phases : Thread → Phase Op}
variable {thread : Thread} {op : Op}

theorem of_open (hconducted : Conducted history phases)
    (hopen : phases thread = .open) :
    ∃ first second, history = first ++ (thread, .call) :: second ∧
      Silent thread second := by
  induction hconducted with
  | start => cases hopen
  | @step past phases active mark next hbefore hmove ih =>
      by_cases heq : thread = active
      · subst heq
        rw [Function.update_self] at hopen
        subst hopen
        generalize phases thread = phase at hmove
        cases hmove with
        | call => exact ⟨past, [], rfl, silent_nil thread⟩
      · rw [Function.update_of_ne heq] at hopen
        obtain ⟨first, second, hsplit, hsilent⟩ := ih hopen
        refine ⟨first, second ++ [(active, mark)], ?_, hsilent.concat heq mark⟩
        rw [hsplit, List.append_assoc, List.cons_append]

theorem of_took (hconducted : Conducted history phases)
    (htook : phases thread = .took op) :
    ∃ first second third, history =
        first ++ (thread, .call) :: second ++ (thread, .effect op) :: third ∧
      Silent thread second ∧ Silent thread third := by
  induction hconducted with
  | start => cases htook
  | @step past phases active mark next hbefore hmove ih =>
      by_cases heq : thread = active
      · subst heq
        rw [Function.update_self] at htook
        subst htook
        generalize hphase : phases thread = phase at hmove
        cases hmove with
        | effect op =>
            obtain ⟨first, second, hsplit, hsilent⟩ := hbefore.of_open hphase
            exact ⟨first, second, [], by rw [hsplit], hsilent, silent_nil thread⟩
      · rw [Function.update_of_ne heq] at htook
        obtain ⟨first, second, third, hsplit, hsecond, hthird⟩ := ih htook
        refine ⟨first, second, third ++ [(active, mark)], ?_, hsecond,
          hthird.concat heq mark⟩
        rw [hsplit, List.append_assoc, List.cons_append]

theorem answered (hconducted : Conducted history phases)
    {before after : List (Thread × Mark Op)}
    (hsplit : history = before ++ (thread, .answer (some op)) :: after) :
    ∃ first second third, before =
        first ++ (thread, .call) :: second ++ (thread, .effect op) :: third ∧
      Silent thread second ∧ Silent thread third := by
  induction hconducted generalizing after with
  | start => simp at hsplit
  | @step past phases active mark next hbefore hmove ih =>
      rcases List.eq_nil_or_concat after with hnil | ⟨rest, last, hafter⟩
      · subst hnil
        obtain ⟨hpast, hlast⟩ := List.append_inj' hsplit rfl
        subst hpast
        cases hlast
        generalize hphase : phases thread = phase at hmove
        cases hmove with
        | answer op => exact hbefore.of_took hphase
      · rw [List.concat_eq_append] at hafter
        subst hafter
        have hassoc : past ++ [(active, mark)] =
            (before ++ (thread, .answer (some op)) :: rest) ++ [last] := by
          simpa using hsplit
        exact ih (List.append_inj' hassoc rfl).1

end Conducted

end AsmCacheInject.Data.Linearization

import Mathlib

namespace AsmCacheInject.Data.History

/-! What a history says about the time since an event. -/

variable {Event : Type*} {trigger : Event → Prop} {P Q : List Event → Prop}
variable {history : List Event}

/-- Whatever came after a triggering event meets `P`. -/
def Since (trigger : Event → Prop) (P : List Event → Prop)
    (history : List Event) : Prop :=
  ∀ earlier event later,
    history = earlier ++ event :: later → trigger event → P later

theorem since_nil : Since trigger P [] := by
  intro earlier event later hsplit
  simp at hsplit

theorem Since.mono (hsince : Since trigger P history)
    (himp : ∀ later, P later → Q later) : Since trigger Q history :=
  fun earlier event later hsplit htrigger =>
    himp later (hsince earlier event later hsplit htrigger)

theorem Since.concat {last : Event}
    (hsince : Since trigger (fun later => P (later ++ [last])) history)
    (hlast : trigger last → P []) : Since trigger P (history ++ [last]) := by
  intro earlier event later hsplit htrigger
  rcases List.eq_nil_or_concat later with hnil | ⟨before, final, hlater⟩
  · subst hnil
    obtain ⟨_, hevent⟩ := List.append_inj' hsplit rfl
    cases hevent
    exact hlast htrigger
  · rw [List.concat_eq_append] at hlater
    subst hlater
    have hassoc : history ++ [last] =
        (earlier ++ event :: before) ++ [final] := by
      simpa using hsplit
    obtain ⟨hhistory, hfinal⟩ := List.append_inj' hassoc rfl
    cases hfinal
    exact hsince earlier event before hhistory htrigger

end AsmCacheInject.Data.History

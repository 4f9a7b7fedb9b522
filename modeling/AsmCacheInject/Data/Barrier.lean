import Mathlib

namespace AsmCacheInject.Data.Barrier

/-! Event sequences with barriers.  Some events expose something that only a
later barrier commits. -/

variable {Event : Type*}

/-- Every exposing event is followed by a committing one. -/
def Covered (exposes commits : Event → Prop) : List Event → Prop
  | [] => True
  | event :: rest =>
      (exposes event → ∃ later ∈ rest, commits later) ∧
        Covered exposes commits rest

variable {exposes commits : Event → Prop}

theorem covered_append {first second : List Event} :
    Covered exposes commits (first ++ second) ↔
      ((∃ later ∈ second, commits later) ∨ Covered exposes commits first) ∧
        Covered exposes commits second := by
  induction first with
  | nil => simp [Covered]
  | cons event rest ih =>
      simp only [List.cons_append, Covered, ih, List.mem_append]
      constructor
      · rintro ⟨hevent, hrest, hsecond⟩
        refine ⟨?_, hsecond⟩
        by_cases hbarrier : ∃ later ∈ second, commits later
        · exact .inl hbarrier
        · refine .inr ⟨?_, hrest.resolve_left hbarrier⟩
          intro hexposes
          obtain ⟨later, hmem, hcommits⟩ := hevent hexposes
          rcases hmem with hfirst | hlater
          · exact ⟨later, hfirst, hcommits⟩
          · exact absurd ⟨later, hlater, hcommits⟩ hbarrier
      · rintro ⟨⟨later, hmem, hcommits⟩ | ⟨hevent, hrest⟩, hsecond⟩
        · exact ⟨fun _ => ⟨later, .inr hmem, hcommits⟩,
            .inl ⟨later, hmem, hcommits⟩, hsecond⟩
        · refine ⟨?_, .inr hrest, hsecond⟩
          intro hexposes
          obtain ⟨later, hmem, hcommits⟩ := hevent hexposes
          exact ⟨later, .inl hmem, hcommits⟩

theorem covered_of_silent {events : List Event}
    (hsilent : ∀ event ∈ events, ¬exposes event) :
    Covered exposes commits events := by
  induction events with
  | nil => trivial
  | cons event rest ih =>
      exact ⟨fun hexposes => absurd hexposes (hsilent event List.mem_cons_self),
        ih fun other hother => hsilent other (List.mem_cons_of_mem _ hother)⟩

theorem covered_iff_silent {events : List Event}
    (hcommits : ∀ event ∈ events, ¬commits event) :
    Covered exposes commits events ↔ ∀ event ∈ events, ¬exposes event := by
  refine ⟨?_, covered_of_silent⟩
  intro hcovered
  induction events with
  | nil => exact fun _ hmem => absurd hmem List.not_mem_nil
  | cons event rest ih =>
      have hrest : ∀ other ∈ rest, ¬commits other := fun other hother =>
        hcommits other (List.mem_cons_of_mem _ hother)
      intro other hother
      rcases List.mem_cons.mp hother with heq | hmem
      · subst heq
        intro hexposes
        obtain ⟨later, hlater, hcommit⟩ := hcovered.1 hexposes
        exact hrest later hlater hcommit
      · exact ih hrest hcovered.2 other hmem

theorem covered_concat {events : List Event} {last : Event}
    (hcommits : commits last) (hlast : ¬exposes last) :
    Covered exposes commits (events ++ [last]) :=
  covered_append.mpr ⟨.inl ⟨last, List.mem_singleton_self last, hcommits⟩,
    fun hexposes => absurd hexposes hlast, trivial⟩

end AsmCacheInject.Data.Barrier

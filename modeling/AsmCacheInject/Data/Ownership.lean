import Mathlib

namespace AsmCacheInject.Data

/-! Exclusive ownership of slots that move between a free list, a map from
keys to slots, and holders that have at most one slot in hand.  A slot may
also belong to nobody. -/

variable {Slot Key Holder : Type*}

structure Exclusive (free : List Slot) (mapped : Key → Option Slot)
    (held : Holder → Option Slot) : Prop where
  free_nodup : free.Nodup
  free_unmapped : ∀ slot ∈ free, ∀ key, mapped key ≠ some slot
  mapped_unique : ∀ first second slot, mapped first = some slot →
    mapped second = some slot → first = second
  held_not_free : ∀ holder slot, held holder = some slot → slot ∉ free
  held_unmapped : ∀ holder slot, held holder = some slot →
    ∀ key, mapped key ≠ some slot
  held_unique : ∀ first second slot, held first = some slot →
    held second = some slot → first = second

namespace Exclusive

variable [DecidableEq Holder]
variable {free : List Slot} {mapped : Key → Option Slot}
variable {held : Holder → Option Slot}

theorem forget (hexclusive : Exclusive free mapped held) (holder : Holder) :
    Exclusive free mapped (Function.update held holder none) := by
  have hweaker : ∀ other slot,
      Function.update held holder none other = some slot →
      held other = some slot := by
    intro other slot hother
    by_cases heq : other = holder
    · subst heq
      simp at hother
    · simpa [heq] using hother
  exact {
    free_nodup := hexclusive.free_nodup
    free_unmapped := hexclusive.free_unmapped
    mapped_unique := hexclusive.mapped_unique
    held_not_free := fun other slot hother =>
      hexclusive.held_not_free other slot (hweaker other slot hother)
    held_unmapped := fun other slot hother =>
      hexclusive.held_unmapped other slot (hweaker other slot hother)
    held_unique := fun first second slot hfirst hsecond =>
      hexclusive.held_unique first second slot (hweaker first slot hfirst)
        (hweaker second slot hsecond) }

theorem grasp (hexclusive : Exclusive free mapped held) {holder : Holder}
    {slot : Slot} (hfree : slot ∉ free)
    (hunmapped : ∀ key, mapped key ≠ some slot)
    (hunheld : ∀ other, held other = some slot → other = holder) :
    Exclusive free mapped (Function.update held holder (some slot)) := by
  have hcases : ∀ other taken,
      Function.update held holder (some slot) other = some taken →
      (other = holder ∧ taken = slot) ∨
        (other ≠ holder ∧ held other = some taken) := by
    intro other taken hother
    by_cases heq : other = holder
    · subst heq
      left
      simpa [eq_comm] using hother
    · right
      exact ⟨heq, by simpa [heq] using hother⟩
  constructor
  · exact hexclusive.free_nodup
  · exact hexclusive.free_unmapped
  · exact hexclusive.mapped_unique
  · intro other taken hother
    rcases hcases other taken hother with ⟨_, rfl⟩ | ⟨_, hheld⟩
    · exact hfree
    · exact hexclusive.held_not_free other taken hheld
  · intro other taken hother
    rcases hcases other taken hother with ⟨_, rfl⟩ | ⟨_, hheld⟩
    · exact hunmapped
    · exact hexclusive.held_unmapped other taken hheld
  · intro first second taken hfirst hsecond
    rcases hcases first taken hfirst with ⟨rfl, rfl⟩ | ⟨hne, hheld⟩
    · rcases hcases second taken hsecond with ⟨rfl, _⟩ | ⟨_, hother⟩
      · rfl
      · exact (hunheld second hother).symm
    · rcases hcases second taken hsecond with ⟨rfl, rfl⟩ | ⟨_, hother⟩
      · exact hunheld first hheld
      · exact hexclusive.held_unique first second taken hheld hother

theorem take {slot : Slot} {rest : List Slot} {holder : Holder}
    (hexclusive : Exclusive (slot :: rest) mapped held) :
    Exclusive rest mapped (Function.update held holder (some slot)) := by
  obtain ⟨hfresh, hnodup⟩ := List.nodup_cons.mp hexclusive.free_nodup
  have hrest : Exclusive rest mapped held := {
    free_nodup := hnodup
    free_unmapped := fun other hother =>
      hexclusive.free_unmapped other (List.mem_cons_of_mem slot hother)
    mapped_unique := hexclusive.mapped_unique
    held_not_free := fun other taken hheld hmem =>
      hexclusive.held_not_free other taken hheld (List.mem_cons_of_mem slot hmem)
    held_unmapped := hexclusive.held_unmapped
    held_unique := hexclusive.held_unique }
  apply hrest.grasp hfresh
  · exact hexclusive.free_unmapped slot List.mem_cons_self
  · intro other hother
    exact absurd List.mem_cons_self (hexclusive.held_not_free other slot hother)

theorem give (hexclusive : Exclusive free mapped held) {holder : Holder}
    {slot : Slot} (hheld : held holder = some slot) :
    Exclusive (slot :: free) mapped (Function.update held holder none) := by
  have hforgot := hexclusive.forget holder
  have hnotHeld : ∀ other, Function.update held holder none other ≠ some slot := by
    intro other hother
    by_cases heq : other = holder
    · subst heq
      simp at hother
    · rw [Function.update_of_ne heq] at hother
      exact heq (hexclusive.held_unique other holder slot hother hheld)
  constructor
  · exact List.nodup_cons.mpr
      ⟨hexclusive.held_not_free holder slot hheld, hexclusive.free_nodup⟩
  · intro other hother
    rcases List.mem_cons.mp hother with rfl | hmem
    · exact hexclusive.held_unmapped holder other hheld
    · exact hexclusive.free_unmapped other hmem
  · exact hexclusive.mapped_unique
  · intro other taken htaken hmem
    rcases List.mem_cons.mp hmem with rfl | hrest
    · exact hnotHeld other htaken
    · exact hforgot.held_not_free other taken htaken hrest
  · exact hforgot.held_unmapped
  · exact hforgot.held_unique

variable [DecidableEq Key]

/-- Map a key to the slot in hand.  A slot the key was mapped to before is
owned by nobody afterwards. -/
theorem bind (hexclusive : Exclusive free mapped held) {holder : Holder}
    {slot : Slot} (hheld : held holder = some slot) (key : Key) :
    Exclusive free (Function.update mapped key (some slot))
      (Function.update held holder none) := by
  have hforgot := hexclusive.forget holder
  have hcases : ∀ other target,
      Function.update mapped key (some slot) other = some target →
      (other = key ∧ target = slot) ∨
        (other ≠ key ∧ mapped other = some target) := by
    intro other target hother
    by_cases heq : other = key
    · subst heq
      left
      simpa [eq_comm] using hother
    · right
      exact ⟨heq, by simpa [heq] using hother⟩
  constructor
  · exact hexclusive.free_nodup
  · intro target hmem other hother
    rcases hcases other target hother with ⟨_, rfl⟩ | ⟨_, hold⟩
    · exact hexclusive.held_not_free holder target hheld hmem
    · exact hexclusive.free_unmapped target hmem other hold
  · intro first second target hfirst hsecond
    rcases hcases first target hfirst with ⟨rfl, rfl⟩ | ⟨_, hold⟩
    · rcases hcases second target hsecond with ⟨rfl, _⟩ | ⟨_, hother⟩
      · rfl
      · exact absurd hother (hexclusive.held_unmapped holder target hheld second)
    · rcases hcases second target hsecond with ⟨_, rfl⟩ | ⟨_, hother⟩
      · exact absurd hold (hexclusive.held_unmapped holder target hheld first)
      · exact hexclusive.mapped_unique first second target hold hother
  · exact hforgot.held_not_free
  · intro other target hother bound hbound
    rcases hcases bound target hbound with ⟨_, rfl⟩ | ⟨_, hold⟩
    · by_cases heq : other = holder
      · subst heq
        simp at hother
      · rw [Function.update_of_ne heq] at hother
        exact heq (hexclusive.held_unique other holder target hother hheld)
    · exact hforgot.held_unmapped other target hother bound hold
  · exact hforgot.held_unique

theorem unbind (hexclusive : Exclusive free mapped held) {key : Key}
    {slot : Slot} (hmapped : mapped key = some slot) (holder : Holder) :
    Exclusive free (Function.update mapped key none)
      (Function.update held holder (some slot)) := by
  have hweaker : ∀ other target,
      Function.update mapped key none other = some target →
      other ≠ key ∧ mapped other = some target := by
    intro other target hother
    by_cases heq : other = key
    · subst heq
      simp at hother
    · exact ⟨heq, by simpa [heq] using hother⟩
  have hunmapped : Exclusive free (Function.update mapped key none) held := {
    free_nodup := hexclusive.free_nodup
    free_unmapped := fun target hmem other hother =>
      hexclusive.free_unmapped target hmem other (hweaker other target hother).2
    mapped_unique := fun first second target hfirst hsecond =>
      hexclusive.mapped_unique first second target
        (hweaker first target hfirst).2 (hweaker second target hsecond).2
    held_not_free := hexclusive.held_not_free
    held_unmapped := fun other target hother bound hbound =>
      hexclusive.held_unmapped other target hother bound
        (hweaker bound target hbound).2
    held_unique := hexclusive.held_unique }
  apply hunmapped.grasp
  · exact fun hfree => hexclusive.free_unmapped slot hfree key hmapped
  · intro other hother
    obtain ⟨hne, hold⟩ := hweaker other slot hother
    exact hne (hexclusive.mapped_unique other key slot hold hmapped)
  · intro other hother
    exact absurd hmapped (hexclusive.held_unmapped other slot hother key)

end Exclusive

end AsmCacheInject.Data

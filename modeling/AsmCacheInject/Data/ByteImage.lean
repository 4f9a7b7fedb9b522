import Mathlib

namespace AsmCacheInject.Data.ByteImage

/-! A flat image of cells and fixed-size windows of it.  `readAt` and
`writeAt` transfer one whole window. -/

variable {Cell : Type*} {size : Nat}

def readAt (size : Nat) (image : Nat → Cell) (offset : Nat) : Fin size → Cell :=
  fun index => image (offset + index)

def writeAt (image : Nat → Cell) (offset : Nat) (window : Fin size → Cell) :
    Nat → Cell :=
  fun position =>
    if h : offset ≤ position ∧ position < offset + size then
      window ⟨position - offset, by omega⟩
    else image position

/-- Replace `count` cells of `target` from `index` on by those of `source` from
`start` on. -/
def blit (source : Nat → Cell) (start : Nat) (target : Nat → Cell)
    (index count : Nat) : Nat → Cell :=
  fun position =>
    if index ≤ position ∧ position < index + count then
      source (start + (position - index))
    else target position

@[simp] theorem readAt_writeAt_same (image : Nat → Cell) (offset : Nat)
    (window : Fin size → Cell) :
    readAt size (writeAt image offset window) offset = window := by
  funext index
  have hinside : offset ≤ offset + index.val ∧
      offset + index.val < offset + size := by
    have := index.isLt
    omega
  simp [readAt, writeAt, hinside]

theorem writeAt_outside (image : Nat → Cell) (offset : Nat)
    (window : Fin size → Cell) {position : Nat}
    (houtside : position < offset ∨ offset + size ≤ position) :
    writeAt image offset window position = image position := by
  have : ¬(offset ≤ position ∧ position < offset + size) := by omega
  simp [writeAt, this]

theorem readAt_writeAt_disjoint (image : Nat → Cell) {offset other : Nat}
    (window : Fin size → Cell)
    (hdisjoint : offset + size ≤ other ∨ other + size ≤ offset) :
    readAt size (writeAt image offset window) other =
      readAt size image other := by
  funext index
  apply writeAt_outside
  have := index.isLt
  omega

theorem eq_writeAt {before after : Nat → Cell} {offset : Nat}
    (houtside : ∀ position, position < offset ∨ offset + size ≤ position →
      after position = before position) :
    after = writeAt before offset (readAt size after offset) := by
  funext position
  by_cases hwindow : offset ≤ position ∧ position < offset + size
  · have hback : offset + (position - offset) = position := by omega
    simp [writeAt, readAt, hwindow, hback]
  · have hother : position < offset ∨ offset + size ≤ position := by omega
    rw [writeAt_outside before offset _ hother, houtside position hother]

theorem numbered_windows_disjoint {first second : Nat} (hne : first ≠ second) :
    first * size + size ≤ second * size ∨ second * size + size ≤ first * size := by
  rcases Nat.lt_or_gt_of_ne hne with hlt | hgt
  · left
    calc first * size + size = (first + 1) * size := by rw [Nat.succ_mul]
      _ ≤ second * size := Nat.mul_le_mul_right size hlt
  · right
    calc second * size + size = (second + 1) * size := by rw [Nat.succ_mul]
      _ ≤ first * size := Nat.mul_le_mul_right size hgt

section Blit

variable {source target : Nat → Cell} {start index count : Nat}

theorem blit_inside {distance : Nat} (hinside : distance < count) :
    blit source start target index count (index + distance) =
      source (start + distance) := by
  have hwindow : index ≤ index + distance ∧ index + distance < index + count := by
    omega
  have hback : index + distance - index = distance := by omega
  simp [blit, hwindow, hback]

theorem blit_outside {position : Nat}
    (houtside : position < index ∨ index + count ≤ position) :
    blit source start target index count position = target position := by
  have : ¬(index ≤ position ∧ position < index + count) := by omega
  simp [blit, this]

@[simp] theorem blit_zero : blit source start target index 0 = target := by
  funext position
  apply blit_outside
  omega

theorem blit_blit (first second : Nat) :
    blit source (start + first) (blit source start target index first)
        (index + first) second =
      blit source start target index (first + second) := by
  funext position
  rcases Nat.lt_or_ge position index with hbefore | hbehind
  · rw [blit_outside (.inl (by omega)), blit_outside (.inl hbefore),
      blit_outside (.inl hbefore)]
  · obtain ⟨distance, rfl⟩ := Nat.exists_eq_add_of_le hbehind
    rcases Nat.lt_or_ge distance first with hfirst | hpast
    · rw [blit_outside (.inl (by omega)), blit_inside hfirst,
        blit_inside (by omega)]
    · obtain ⟨later, rfl⟩ := Nat.exists_eq_add_of_le hpast
      rcases Nat.lt_or_ge later second with hsecond | hbeyond
      · rw [← Nat.add_assoc, blit_inside hsecond, Nat.add_assoc index,
          blit_inside (by omega), Nat.add_assoc]
      · rw [blit_outside (.inr (by omega)), blit_outside (.inr (by omega)),
          blit_outside (.inr (by omega))]

end Blit

end AsmCacheInject.Data.ByteImage

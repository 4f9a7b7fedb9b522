import AsmCacheInject.Data.Word

namespace AsmCacheInject.Data.AddressSpace

open AsmCacheInject.Data.Word

/-! A memory of 2^64 cells.  Addresses are machine words and wrap, so a window
is given by its base and the distances it spans; windows over one base compare
as intervals of distances. -/

variable {Cell : Type*}

abbrev Memory (Cell : Type*) := UInt64 → Cell

/-- `address` is one of the `len` cells from `base` on. -/
def Within (base len address : UInt64) : Prop :=
  address - base < len

instance (base len address : UInt64) : Decidable (Within base len address) :=
  inferInstanceAs (Decidable (_ < _))

/-- Replace a window by the cells `value` has at each distance from `target`. -/
def store (target len : UInt64) (value : UInt64 → Cell) (memory : Memory Cell) :
    Memory Cell :=
  fun address =>
    if Within target len address then value (address - target)
    else memory address

def copy (source target len : UInt64) (memory : Memory Cell) : Memory Cell :=
  store target len (fun distance => memory (source + distance)) memory

section Windows

variable {base offset len address : UInt64}

theorem within_add (hoffset : offset < len) : Within base len (base + offset) := by
  have hdistance : base + offset - base = offset := by grind
  unfold Within
  rwa [hdistance]

theorem within_offset_iff (hfits : offset.toNat + len.toNat ≤ 2 ^ 64) :
    Within (base + offset) len address ↔
      offset.toNat ≤ (address - base).toNat ∧
        (address - base).toNat < offset.toNat + len.toNat := by
  have hdistance : address - (base + offset) = address - base - offset := by
    grind
  unfold Within
  rw [hdistance, UInt64.lt_iff_toNat_lt, UInt64.toNat_sub]
  have hbound := (address - base).toNat_lt
  have hoffset := offset.toNat_lt
  omega

theorem within_iff_toNat :
    Within base len address ↔ (address - base).toNat < len.toNat :=
  UInt64.lt_iff_toNat_lt

theorem within_sum_iff {first second : UInt64}
    (hfits : first.toNat + second.toNat < 2 ^ 64) :
    Within base (first + second) address ↔
      Within base first address ∨ Within (base + first) second address := by
  rw [within_iff_toNat, within_iff_toNat,
    within_offset_iff (Nat.le_of_lt hfits), toNat_sum hfits]
  omega

end Windows

section Stores

variable {source target len first second address : UInt64}
variable {value : UInt64 → Cell} {memory : Memory Cell}

theorem store_within (hwithin : Within target len address) :
    store target len value memory address = value (address - target) :=
  if_pos hwithin

theorem store_outside (houtside : ¬Within target len address) :
    store target len value memory address = memory address :=
  if_neg houtside

@[simp] theorem copy_zero : copy source target 0 memory = memory := by
  funext address
  apply store_outside
  rw [within_iff_toNat]
  exact Nat.not_lt_zero _

theorem store_store (hfits : first.toNat + second.toNat < 2 ^ 64) :
    store (target + first) second (fun distance => value (first + distance))
      (store target first value memory) =
      store target (first + second) value memory := by
  funext address
  by_cases hrest : Within (target + first) second address
  · have hsum : Within target (first + second) address :=
      (within_sum_iff hfits).mpr (Or.inr hrest)
    have hdistance : first + (address - (target + first)) = address - target := by
      grind
    rw [store_within hrest, store_within hsum, hdistance]
  · rw [store_outside hrest]
    by_cases hfirst : Within target first address
    · rw [store_within hfirst,
        store_within ((within_sum_iff hfits).mpr (Or.inl hfirst))]
    · have hsum : ¬Within target (first + second) address := by
        rw [within_sum_iff hfits]
        exact not_or.mpr ⟨hfirst, hrest⟩
      rw [store_outside hfirst, store_outside hsum]

/-- Copying a window and then the one behind it is copying both at once: the
first copy has not touched what the second one reads. -/
theorem copy_copy (hfits : first.toNat + second.toNat < 2 ^ 64)
    (hdisjoint : ∀ address, Within target (first + second) address →
      ¬Within source (first + second) address) :
    copy (source + first) (target + first) second
      (copy source target first memory) =
      copy source target (first + second) memory := by
  have hread : ∀ distance, distance < second →
      copy source target first memory (source + first + distance) =
        memory (source + (first + distance)) := by
    intro distance hdistance
    have haddress : source + first + distance = source + (first + distance) := by
      grind
    have hsource : Within source (first + second)
        (source + first + distance) :=
      (within_sum_iff hfits).mpr (Or.inr (within_add hdistance))
    have htarget : ¬Within target first (source + first + distance) := by
      intro hmeets
      exact hdisjoint _ ((within_sum_iff hfits).mpr (Or.inl hmeets)) hsource
    rw [copy, store_outside htarget, haddress]
  have hboth : copy source target (first + second) memory =
      store (target + first) second
        (fun distance => memory (source + (first + distance)))
        (copy source target first memory) :=
    (store_store hfits).symm
  rw [hboth]
  funext address
  by_cases hrest : Within (target + first) second address
  · rw [store_within hrest]
    exact (store_within hrest).trans (hread _ hrest)
  · rw [store_outside hrest]
    exact store_outside hrest

end Stores

end AsmCacheInject.Data.AddressSpace

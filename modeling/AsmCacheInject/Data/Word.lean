import Mathlib

namespace AsmCacheInject.Data.Word

/-! Machine words as natural numbers. -/

theorem toNat_pos_of_ne_zero {value : UInt64} (hne : value ≠ 0) :
    0 < value.toNat := by
  apply Nat.pos_of_ne_zero
  intro hzero
  exact hne (UInt64.toNat_inj.mp hzero)

theorem toNat_dvd_of_mod_eq_zero {divisor value : UInt64}
    (hmod : value % divisor = 0) : divisor.toNat ∣ value.toNat := by
  have := congrArg UInt64.toNat hmod
  rw [UInt64.toNat_mod] at this
  exact Nat.dvd_of_mod_eq_zero this

theorem mod_eq_zero_of_toNat_dvd {divisor value : UInt64}
    (hdvd : divisor.toNat ∣ value.toNat) : value % divisor = 0 := by
  apply UInt64.toNat_inj.mp
  rw [UInt64.toNat_mod]
  exact Nat.mod_eq_zero_of_dvd hdvd

theorem toNat_sum {first second : UInt64}
    (hfits : first.toNat + second.toNat < 2 ^ 64) :
    (first + second).toNat = first.toNat + second.toNat := by
  rw [UInt64.toNat_add]
  exact Nat.mod_eq_of_lt hfits

theorem toNat_product {first second : UInt64}
    (hfits : first.toNat * second.toNat < 2 ^ 64) :
    (first * second).toNat = first.toNat * second.toNat := by
  rw [UInt64.toNat_mul]
  exact Nat.mod_eq_of_lt hfits

theorem toNat_ofNat_product {first second : Nat} (hsecond : 0 < second)
    (hword : second < 2 ^ 64) (hfits : first * second < 2 ^ 64) :
    (UInt64.ofNat first * UInt64.ofNat second).toNat = first * second := by
  have hle : first ≤ first * second := Nat.le_mul_of_pos_right _ hsecond
  have hfirstNat : (UInt64.ofNat first).toNat = first :=
    UInt64.toNat_ofNat_of_lt' (Nat.lt_of_le_of_lt hle hfits)
  have hsecondNat : (UInt64.ofNat second).toNat = second :=
    UInt64.toNat_ofNat_of_lt' hword
  rw [toNat_product (by rwa [hfirstNat, hsecondNat]), hfirstNat, hsecondNat]

theorem toNat_min (first second : UInt64) :
    (min first second).toNat = min first.toNat second.toNat := by
  have hmin : min first second = if first ≤ second then first else second := rfl
  rw [hmin]
  split
  · next hle => exact (Nat.min_eq_left (UInt64.le_iff_toNat_le.mp hle)).symm
  · next hgt =>
    rw [UInt64.le_iff_toNat_le] at hgt
    exact (Nat.min_eq_right (by omega)).symm

theorem toInt_toInt64 {value : UInt64} (hvalue : value.toNat < 2 ^ 63) :
    value.toInt64.toInt = value.toNat := by
  have hbits : value.toInt64.toBitVec = value.toBitVec := rfl
  rw [← Int64.toInt_toBitVec, hbits, BitVec.toInt_eq_toNat_of_lt]
  · rfl
  · show 2 * value.toNat < 2 ^ 64
    omega

end AsmCacheInject.Data.Word

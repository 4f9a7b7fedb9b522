import AsmCacheInject.Asm.Nontemporal

namespace AsmCacheInject.Asm

open AsmCacheInject.Data.AddressSpace
open AsmCacheInject.Data.Word

/-! The temporal copy.  `rep movsb` moves one byte a round and, with the
direction flag clear, advances both pointers. -/

/-- `rep movsb` with `rcx`, `rdi` and `rsi` as given. -/
def repMovsb : Nat → UInt64 → UInt64 → Memory UInt8 → Memory UInt8
  | 0, _, _, memory => memory
  | rcx + 1, rdi, rsi, memory =>
      repMovsb rcx (rdi + 1) (rsi + 1) (Function.update memory rdi (memory rsi))

def ermsMemcpy (dst src len : UInt64) (memory : Memory UInt8) : Memory UInt8 :=
  repMovsb len.toNat dst src memory

/-- `fast_copy_temporal`; `erms` is what `cpu_supports_erms` reports. -/
def fastCopyTemporal (erms : Bool) (dst src len : UInt64)
    (memory : Memory UInt8) : Memory UInt8 :=
  if erms then ermsMemcpy dst src len memory
  else copyNonoverlapping src dst len memory

theorem copy_one (dst src : UInt64) (memory : Memory UInt8) :
    copy src dst 1 memory = Function.update memory dst (memory src) := by
  funext address
  by_cases heq : address = dst
  · subst heq
    have hwithin : Within address 1 address := by
      simp [Within]
    rw [copy, store_within hwithin, Function.update_self, UInt64.sub_self,
      UInt64.add_zero]
  · have houtside : ¬Within dst 1 address := by
      rw [within_iff_toNat]
      intro hlt
      simp only [UInt64.reduceToNat, Nat.lt_one_iff] at hlt
      have hzero : address - dst = 0 := UInt64.toNat_inj.mp hlt
      exact heq (by grind)
    rw [copy, store_outside houtside, Function.update_of_ne heq]

theorem repMovsb_eq_copy {count : Nat} (hcount : count < 2 ^ 64)
    {dst src : UInt64} (memory : Memory UInt8)
    (hdisjoint : ∀ address, Within dst (.ofNat count) address →
      ¬Within src (.ofNat count) address) :
    repMovsb count dst src memory = copy src dst (.ofNat count) memory := by
  induction count generalizing dst src memory with
  | zero => simp [repMovsb]
  | succ count ih =>
      have hsum : UInt64.ofNat (count + 1) = 1 + UInt64.ofNat count := by
        rw [UInt64.ofNat_add, UInt64.add_comm]
        rfl
      have hsmall : (UInt64.ofNat count).toNat = count :=
        UInt64.toNat_ofNat_of_lt' (show count < 2 ^ 64 by omega)
      have hfits : (1 : UInt64).toNat + (UInt64.ofNat count).toNat < 2 ^ 64 := by
        rw [hsmall]
        simp only [UInt64.reduceToNat]
        omega
      rw [hsum] at hdisjoint ⊢
      have hbehind : ∀ address, Within (dst + 1) (.ofNat count) address →
          ¬Within (src + 1) (.ofNat count) address := by
        intro address htarget hsource
        exact hdisjoint address ((within_sum_iff hfits).mpr (Or.inr htarget))
          ((within_sum_iff hfits).mpr (Or.inr hsource))
      have hrest := ih (by omega) (Function.update memory dst (memory src)) hbehind
      rw [repMovsb, hrest, ← copy_one, copy_copy hfits hdisjoint]

theorem fastCopyTemporal_eq (erms : Bool) {dst src len : UInt64}
    (memory : Memory UInt8)
    (hdisjoint : ∀ address, Within dst len address → ¬Within src len address) :
    fastCopyTemporal erms dst src len memory =
      copyNonoverlapping src dst len memory := by
  cases erms with
  | false => rfl
  | true =>
      have hlength : UInt64.ofNat len.toNat = len := UInt64.ofNat_toNat
      have hrun : repMovsb len.toNat dst src memory =
          copy src dst (.ofNat len.toNat) memory :=
        repMovsb_eq_copy len.toNat_lt memory (by rwa [hlength])
      rw [hlength] at hrun
      exact hrun

/-! A streaming copy of at least one chunk touches its first sixteen source
bytes before anything else. -/

theorem ntChunk_misaligned {dst src offset : UInt64}
    (hload : (src + offset) % 16 ≠ 0) (bus : Bus) :
    (ntChunk dst src offset).run bus = none := by
  have hfault : (mmLoadSi128 (src + offset)).run bus = none := if_neg hload
  rw [ntChunk, StateT.run_bind, hfault]
  rfl

theorem ntChunks_misaligned {dst src : UInt64} (hsrc : src % 16 ≠ 0) (count : Nat)
    (bus : Bus) : (ntChunks dst src (count + 1)).run bus = none := by
  induction count with
  | zero =>
      have hload : (src + UInt64.ofNat 0 * chunkSize) % 16 ≠ 0 := by
        simpa using hsrc
      exact ntChunk_misaligned hload bus
  | succ count ih =>
      rw [ntChunks, StateT.run_bind, ih]
      rfl

theorem ntMemcpy_misaligned {dst src len : UInt64} (hlen : 64 ≤ len.toNat)
    (hsrc : src % 16 ≠ 0) (bus : Bus) :
    (ntMemcpy dst src len).run bus = none := by
  have hpos : 0 < (len / chunkSize).toNat := by
    rw [UInt64.toNat_div]
    simp only [UInt64.reduceToNat, chunkSize, cacheLineSize]
    omega
  obtain ⟨count, hcount⟩ := Nat.exists_eq_add_of_lt hpos
  rw [Nat.zero_add] at hcount
  rw [ntMemcpy, hcount]
  exact ntChunks_misaligned hsrc count bus

end AsmCacheInject.Asm

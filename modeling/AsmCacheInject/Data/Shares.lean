import Mathlib

namespace AsmCacheInject.Data.Shares

/-! Amounts spread over finitely many holders, each a function of the state its
holder is in. -/

variable {Holder State Amount : Type*} [Fintype Holder]
variable [AddCommMonoid Amount]

def total (share : State → Amount) (states : Holder → State) : Amount :=
  ∑ holder, share (states holder)

theorem total_eq_zero {share : State → Amount} {states : Holder → State}
    (hzero : ∀ holder, share (states holder) = 0) : total share states = 0 :=
  Finset.sum_eq_zero fun holder _ => hzero holder

theorem total_update [DecidableEq Holder] (share : State → Amount)
    (states : Holder → State) (holder : Holder) (state : State) :
    total share (Function.update states holder state) + share (states holder) =
      total share states + share state := by
  have hupdated : (fun other => share (Function.update states holder state other)) =
      Function.update (fun other => share (states other)) holder (share state) := by
    funext other
    exact Function.apply_update (fun _ => share) states holder state other
  unfold total
  rw [hupdated, Finset.sum_update_of_mem (Finset.mem_univ holder),
    Finset.sum_eq_add_sum_sdiff_singleton_of_mem (Finset.mem_univ holder)
      fun other => share (states other)]
  ac_rfl

end AsmCacheInject.Data.Shares

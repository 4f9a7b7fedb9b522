import Mathlib

namespace AsmCacheInject.Data.Recency

/-! Access histories, oldest access first, and the order in which they leave
their keys: the most recently used key comes first. -/

variable {Key : Type*} [DecidableEq Key]

def stack (history : List Key) : List Key :=
  history.dedup.reverse

theorem nodup_stack (history : List Key) : (stack history).Nodup :=
  List.nodup_reverse.mpr history.nodup_dedup

@[simp] theorem mem_stack {history : List Key} {key : Key} :
    key ∈ stack history ↔ key ∈ history := by
  simp [stack]

theorem dedup_concat (history : List Key) (key : Key) :
    (history ++ [key]).dedup = history.dedup.erase key ++ [key] := by
  induction history with
  | nil => simp
  | cons head rest ih =>
      by_cases hmem : head ∈ rest
      · rw [List.cons_append, List.dedup_cons_of_mem (by simp [hmem]), ih,
          List.dedup_cons_of_mem hmem]
      · by_cases heq : head = key
        · subst heq
          have habsent : head ∉ rest.dedup := by simpa using hmem
          rw [List.cons_append, List.dedup_cons_of_mem (by simp), ih,
            List.dedup_cons_of_notMem hmem, List.erase_cons_head,
            List.erase_of_not_mem habsent]
        · have hfresh : head ∉ rest ++ [key] := by simp [hmem, heq]
          rw [List.cons_append, List.dedup_cons_of_notMem hfresh, ih,
            List.dedup_cons_of_notMem hmem, List.erase_cons_tail (by simpa using heq)]
          rfl

theorem stack_concat (history : List Key) (key : Key) :
    stack (history ++ [key]) = key :: (stack history).erase key := by
  rw [(nodup_stack history).erase_eq_filter, stack, dedup_concat,
    history.nodup_dedup.erase_eq_filter, List.reverse_append, stack,
    List.filter_reverse]
  rfl

/-! Reuse distance: how many other keys were used since. -/

theorem dedup_split (before : List Key) {after : List Key} {key : Key}
    (hlast : key ∉ after) :
    ∃ older, (before ++ key :: after).dedup = older ++ key :: after.dedup := by
  induction before with
  | nil => exact ⟨[], by simp [List.dedup_cons_of_notMem hlast]⟩
  | cons head rest ih =>
      obtain ⟨older, hsplit⟩ := ih
      by_cases hmem : head ∈ rest ++ key :: after
      · exact ⟨older, by rw [List.cons_append, List.dedup_cons_of_mem hmem, hsplit]⟩
      · exact ⟨head :: older, by
          rw [List.cons_append, List.dedup_cons_of_notMem hmem, hsplit]; rfl⟩

/-- A key is among the `capacity` most recent ones exactly when fewer than
`capacity` others were used since its last use. -/
theorem mem_take_stack_iff {capacity : Nat} {before after : List Key} {key : Key}
    (hlast : key ∉ after) :
    key ∈ (stack (before ++ key :: after)).take capacity ↔
      after.toFinset.card < capacity := by
  obtain ⟨older, hsplit⟩ := dedup_split before hlast
  have hstack : stack (before ++ key :: after) =
      after.dedup.reverse ++ key :: older.reverse := by
    simp [stack, hsplit]
  have hlength : after.dedup.reverse.length = after.toFinset.card := by
    rw [List.length_reverse, List.card_toFinset]
  rw [hstack, List.take_append, ← hlength, List.mem_append]
  constructor
  · rintro (hfront | hback)
    · exact absurd (by simpa using List.mem_of_mem_take hfront) hlast
    · by_contra hfar
      rw [Nat.sub_eq_zero_of_le (Nat.le_of_not_lt hfar)] at hback
      cases hback
  · intro hnear
    right
    obtain ⟨room, hroom⟩ := Nat.exists_eq_add_of_lt hnear
    have hsub : capacity - after.dedup.reverse.length = room + 1 := by omega
    rw [hsub]
    exact List.mem_cons_self

theorem exists_last_use {history : List Key} {key : Key}
    (hmem : key ∈ history) :
    ∃ before after, history = before ++ key :: after ∧ key ∉ after := by
  induction history with
  | nil => cases hmem
  | cons head rest ih =>
      by_cases hrest : key ∈ rest
      · obtain ⟨before, after, heq, hlast⟩ := ih hrest
        exact ⟨head :: before, after, by rw [heq]; rfl, hlast⟩
      · rcases List.mem_cons.mp hmem with heq | hlater
        · exact ⟨[], rest, by rw [heq]; rfl, hrest⟩
        · exact absurd hlater hrest

/-! Repeated scans. -/

theorem takeWhile_ne_append {before : List Key} {key : Key}
    (hfirst : key ∉ before) (after : List Key) :
    (before ++ key :: after).takeWhile (· ≠ key) = before := by
  have hall : ∀ other ∈ before, decide (other ≠ key) = true := by
    intro other hother
    have hne : other ≠ key := fun heq => hfirst (heq ▸ hother)
    simpa using hne
  rw [List.takeWhile_append_of_pos hall, List.takeWhile_cons_of_neg (by simp),
    List.append_nil]

theorem scan_between {scan : List Key} (hnodup : scan.Nodup) {count : Nat}
    {before after rest : List Key} {key : Key} (hlast : key ∉ after)
    (hsplit : (List.replicate count scan).flatten =
      before ++ key :: (after ++ key :: rest)) :
    after.toFinset.card + 1 = scan.length := by
  induction count generalizing before with
  | zero => simp at hsplit
  | succ count ih =>
      rw [List.replicate_succ, List.flatten_cons] at hsplit
      rcases List.append_eq_append_iff.mp hsplit with
        ⟨older, _, hlater⟩ | ⟨tail, hscan, htail⟩
      · exact ih hlater
      · cases tail with
        | nil =>
            have hlater : (List.replicate count scan).flatten =
                [] ++ key :: (after ++ key :: rest) := htail.symm
            exact ih hlater
        | cons head newer =>
            rw [List.cons_append, List.cons.injEq] at htail
            obtain ⟨hhead, htail⟩ := htail
            subst hhead
            rw [hscan] at hnodup
            have hnewer : key ∉ newer :=
              (List.nodup_cons.mp hnodup.of_append_right).1
            have hbefore : key ∉ before := fun hmem =>
              List.disjoint_of_nodup_append hnodup hmem List.mem_cons_self
            have hafter : after = newer ++ before := by
              have hfirst := takeWhile_ne_append hlast rest
              rw [htail] at hfirst
              cases count with
              | zero =>
                  have hmem : key ∈ newer := by
                    have : key ∈ after ++ key :: rest := by simp
                    simpa [htail] using this
                  exact absurd hmem hnewer
              | succ count =>
                  rw [List.replicate_succ, List.flatten_cons, hscan,
                    ← List.append_assoc, ← List.append_assoc,
                    List.append_assoc _ (key :: newer), List.cons_append,
                    takeWhile_ne_append (by simp [hnewer, hbefore])] at hfirst
                  exact hfirst.symm
            have hperm : (newer ++ before).Nodup := by
              have := (List.nodup_append_comm.mp hnodup)
              exact (List.nodup_cons.mp this).2
            rw [hafter, List.toFinset_card_of_nodup hperm, hscan]
            simp only [List.length_append, List.length_cons]
            omega

/-! Clock stamps.  A store that stamps each key when it is used carries the
order of the history, restricted to the keys it still holds. -/

section Stamps

variable {Stamp : Type*} [LinearOrder Stamp]

/-- Where two keys of the list are both stamped, the earlier one has the later
stamp. -/
def Descending (stamp : Key → Option Stamp) (keys : List Key) : Prop :=
  keys.Pairwise fun newer older => ∀ first second,
    stamp newer = some first → stamp older = some second → second < first

variable {stamp next : Key → Option Stamp} {keys : List Key}

omit [DecidableEq Key] in
theorem Descending.forget (hdescending : Descending stamp keys)
    (hkept : ∀ key, next key = stamp key ∨ next key = none) :
    Descending next keys := by
  apply hdescending.imp
  intro newer older hrel first second hfirst hsecond
  rcases hkept newer with hnewer | hnewer
  · rcases hkept older with holder | holder
    · exact hrel first second (hnewer ▸ hfirst) (holder ▸ hsecond)
    · rw [holder] at hsecond
      cases hsecond
  · rw [hnewer] at hfirst
    cases hfirst

theorem Descending.use {history : List Key} {key : Key} {now : Stamp}
    (hdescending : Descending stamp (stack history))
    (hclock : ∀ other reading, stamp other = some reading → reading < now)
    (hkey : next key = some now)
    (hkept : ∀ other, other ≠ key →
      next other = stamp other ∨ next other = none) :
    Descending next (stack (history ++ [key])) := by
  rw [stack_concat, Descending, List.pairwise_cons]
  constructor
  · intro older holder first second hfirst hsecond
    have hne : older ≠ key :=
      ((nodup_stack history).mem_erase_iff.mp holder).1
    rw [hkey] at hfirst
    cases hfirst
    rcases hkept older hne with hsame | hnone
    · exact hclock older second (hsame ▸ hsecond)
    · rw [hnone] at hsecond
      cases hsecond
  · have hrest : Descending stamp ((stack history).erase key) :=
      List.Pairwise.sublist List.erase_sublist hdescending
    apply List.Pairwise.imp_of_mem _ hrest
    intro newer older hnewer holder hrel first second hfirst hsecond
    have hnewerNe := ((nodup_stack history).mem_erase_iff.mp hnewer).1
    have holderNe := ((nodup_stack history).mem_erase_iff.mp holder).1
    rcases hkept newer hnewerNe with hsame | hnone
    · rcases hkept older holderNe with hsameOlder | hnoneOlder
      · exact hrel first second (hsame ▸ hfirst) (hsameOlder ▸ hsecond)
      · rw [hnoneOlder] at hsecond
        cases hsecond
    · rw [hnone] at hfirst
      cases hfirst

omit [DecidableEq Key] in
theorem Descending.getLast?_filter (hdescending : Descending stamp keys)
    {select : Key → Bool} {oldest : Key} {reading : Stamp}
    (hmem : oldest ∈ keys) (hselect : select oldest = true)
    (hstamp : stamp oldest = some reading)
    (hoptimal : ∀ key ∈ keys, select key = true →
      ∃ other, stamp key = some other ∧ reading ≤ other) :
    (keys.filter select).getLast? = some oldest := by
  have hfiltered : Descending stamp (keys.filter select) :=
    List.Pairwise.sublist List.filter_sublist hdescending
  have holdest : oldest ∈ keys.filter select :=
    List.mem_filter.mpr ⟨hmem, hselect⟩
  obtain ⟨last, hlast⟩ := List.getLast?_isSome.mpr (List.ne_nil_of_mem holdest)
    |> Option.isSome_iff_exists.mp
  obtain ⟨front, hfront⟩ := List.getLast?_eq_some_iff.mp hlast
  rw [hlast]
  rw [hfront] at holdest hfiltered
  rcases List.mem_append.mp holdest with hbefore | hsame
  · have hlastMem : last ∈ keys.filter select := by simp [hfront]
    obtain ⟨hlastKeys, hlastSelect⟩ := List.mem_filter.mp hlastMem
    obtain ⟨other, hother, hle⟩ := hoptimal last hlastKeys hlastSelect
    have hlt := (List.pairwise_append.mp hfiltered).2.2 oldest hbefore last
      (List.mem_singleton_self last) reading other hstamp hother
    exact absurd hle (not_le.mpr hlt)
  · rw [List.mem_singleton.mp hsame]

end Stamps

end AsmCacheInject.Data.Recency

import AsmCacheInject.Data.Recency

namespace AsmCacheInject.Data.Recency

/-! The hits of an ideal LRU cache.  It holds the `capacity` most recently used
keys, so a use hits exactly when its key is among them. -/

variable {Key : Type*} [DecidableEq Key]

/-- How many of `keys`, used in order after `history`, are found. -/
def hits (capacity : Nat) : (history keys : List Key) → Nat
  | _, [] => 0
  | history, key :: rest =>
      (if key ∈ (stack history).take capacity then 1 else 0) +
        hits capacity (history ++ [key]) rest

variable {capacity : Nat} {history keys : List Key}

theorem hits_append (history first second : List Key) :
    hits capacity history (first ++ second) =
      hits capacity history first + hits capacity (history ++ first) second := by
  induction first generalizing history with
  | nil => simp [hits]
  | cons key rest ih =>
      rw [List.cons_append, hits, hits, ih, List.append_assoc,
        List.singleton_append, Nat.add_assoc]

theorem hits_concat (history keys : List Key) (key : Key) :
    hits capacity history (keys ++ [key]) = hits capacity history keys +
      if key ∈ (stack (history ++ keys)).take capacity then 1 else 0 := by
  simp [hits_append, hits]

theorem hits_le_length (history keys : List Key) :
    hits capacity history keys ≤ keys.length := by
  induction keys generalizing history with
  | nil => exact Nat.le_refl 0
  | cons key rest ih =>
      have hrest := ih (history ++ [key])
      rw [hits, List.length_cons]
      split <;> omega

theorem mem_take_stack_of_hit {key other : Key}
    (hhit : key ∈ (stack history).take capacity) :
    other ∈ (stack (history ++ [key])).take capacity ↔
      other ∈ (stack history).take capacity := by
  obtain ⟨front, back, hfront⟩ := List.append_of_mem hhit
  obtain ⟨older, holder⟩ : ∃ older, (stack history).drop capacity = older :=
    ⟨_, rfl⟩
  have hsplit : stack history = front ++ key :: (back ++ older) := by
    rw [← List.cons_append, ← List.append_assoc, ← hfront, ← holder,
      List.take_append_drop]
  have hfresh : key ∉ front := by
    have hnodup := nodup_stack history
    rw [hsplit] at hnodup
    intro hmem
    exact List.disjoint_of_nodup_append hnodup hmem List.mem_cons_self
  have hmoved : stack (history ++ [key]) = key :: (front ++ back) ++ older := by
    rw [stack_concat, hsplit, List.erase_append_right _ hfresh,
      List.erase_cons_head, ← List.append_assoc, List.cons_append]
  have hlength : (key :: (front ++ back)).length =
      ((stack history).take capacity).length := by
    simp only [hfront, List.length_cons, List.length_append]
    omega
  have htake : (stack (history ++ [key])).take capacity =
      key :: (front ++ back) := by
    rw [hmoved]
    by_cases hlong : capacity ≤ (stack history).length
    · rw [List.length_take_of_le hlong] at hlength
      exact List.take_left' hlength
    · have hnone : older = [] := by
        rw [← holder]
        exact List.drop_of_length_le (Nat.le_of_not_le hlong)
      rw [hnone, List.append_nil]
      apply List.take_of_length_le
      rw [hlength]
      exact List.length_take_le _ _
  rw [htake, hfront]
  simp only [List.mem_cons, List.mem_append]
  tauto

theorem hits_eq_length_iff :
    hits capacity history keys = keys.length ↔
      ∀ key ∈ keys, key ∈ (stack history).take capacity := by
  induction keys generalizing history with
  | nil => simp [hits]
  | cons key rest ih =>
      have hrest : hits capacity (history ++ [key]) rest ≤ rest.length :=
        hits_le_length (history ++ [key]) rest
      rw [hits, List.length_cons, List.forall_mem_cons]
      by_cases hhit : key ∈ (stack history).take capacity
      · have hcached : hits capacity (history ++ [key]) rest = rest.length ↔ _ := ih
        simp only [mem_take_stack_of_hit hhit] at hcached
        rw [if_pos hhit, ← hcached]
        simp only [hhit, true_and]
        omega
      · rw [if_neg hhit]
        simp only [hhit, false_and, iff_false]
        omega

theorem cached_after_pass_iff (history keys : List Key) :
    (∀ key ∈ keys, key ∈ (stack (history ++ keys)).take capacity) ↔
      keys.toFinset.card ≤ capacity := by
  constructor
  · intro hcached
    calc
      keys.toFinset.card
          ≤ ((stack (history ++ keys)).take capacity).toFinset.card := by
            apply Finset.card_le_card
            intro key hkey
            rw [List.mem_toFinset] at hkey ⊢
            exact hcached key hkey
      _ ≤ ((stack (history ++ keys)).take capacity).length :=
            List.toFinset_card_le _
      _ ≤ capacity := List.length_take_le _ _
  · intro hfits key hkey
    obtain ⟨before, after, hsplit, hlast⟩ := exists_last_use hkey
    rw [hsplit, ← List.append_assoc, mem_take_stack_iff hlast]
    have hsubset : after.toFinset ⊆ keys.toFinset.erase key := by
      intro other hother
      rw [List.mem_toFinset] at hother
      rw [Finset.mem_erase, List.mem_toFinset, hsplit]
      refine ⟨?_, by simp [hother]⟩
      rintro rfl
      exact hlast hother
    have hcard := Finset.card_le_card hsubset
    have hpos : 0 < keys.toFinset.card :=
      Finset.card_pos.mpr ⟨key, List.mem_toFinset.mpr hkey⟩
    rw [Finset.card_erase_of_mem (List.mem_toFinset.mpr hkey)] at hcard
    omega

/-- A second pass over the same keys hits every time exactly when they fit. -/
theorem hits_replay_iff (history keys : List Key) :
    hits capacity (history ++ keys) keys = keys.length ↔
      keys.toFinset.card ≤ capacity := by
  rw [hits_eq_length_iff]
  exact cached_after_pass_iff history keys

theorem hits_fresh (hnodup : keys.Nodup) (hfresh : keys.Disjoint history) :
    hits capacity history keys = 0 := by
  induction keys generalizing history with
  | nil => rfl
  | cons key rest ih =>
      obtain ⟨hkey, hrest⟩ := List.nodup_cons.mp hnodup
      obtain ⟨hnew, hothers⟩ := List.disjoint_cons_left.mp hfresh
      have hmiss : key ∉ (stack history).take capacity := by
        intro hmem
        exact hnew (mem_stack.mp (List.mem_of_mem_take hmem))
      rw [hits, if_neg hmiss, Nat.zero_add]
      apply ih hrest
      intro other hother hseen
      rcases List.mem_append.mp hseen with hbefore | hsame
      · exact hothers hother hbefore
      · rw [List.mem_singleton.mp hsame] at hother
        exact hkey hother

/-- Repeating a scan of too many keys finds none of them. -/
theorem hits_rescan {scan : List Key} (hnodup : scan.Nodup)
    (hlarge : capacity < scan.length) (history : List Key) :
    hits capacity (history ++ scan) scan = 0 := by
  have hfrom : ∀ later earlier, scan = earlier ++ later →
      hits capacity (history ++ scan ++ earlier) later = 0 := by
    intro later
    induction later with
    | nil =>
        intro earlier _
        rfl
    | cons key rest ih =>
        intro earlier hscan
        have hcycle : (rest ++ earlier).Nodup ∧ key ∉ rest ++ earlier := by
          rw [hscan, List.nodup_append_comm, List.cons_append,
            List.nodup_cons] at hnodup
          exact ⟨hnodup.2, hnodup.1⟩
        have hmiss : key ∉ (stack (history ++ scan ++ earlier)).take capacity := by
          have hsplit : history ++ scan ++ earlier =
              (history ++ earlier) ++ key :: (rest ++ earlier) := by
            simp [hscan]
          rw [hsplit, mem_take_stack_iff hcycle.2,
            List.toFinset_card_of_nodup hcycle.1]
          rw [hscan] at hlarge
          simp only [List.length_append, List.length_cons] at hlarge ⊢
          omega
        rw [hits, if_neg hmiss, Nat.zero_add, List.append_assoc]
        apply ih
        rw [hscan, List.append_assoc]
        rfl
  have hwhole := hfrom scan [] rfl
  rwa [List.append_nil] at hwhole

/-- From an empty cache every key costs a miss, and only one if all fit. -/
theorem hits_cold (capacity : Nat) (keys : List Key) :
    hits capacity [] keys + keys.toFinset.card ≤ keys.length ∧
      (keys.toFinset.card ≤ capacity →
        hits capacity [] keys + keys.toFinset.card = keys.length) := by
  induction keys using List.reverseRecOn with
  | nil => simp [hits]
  | append_singleton past key ih =>
      obtain ⟨hbound, hexact⟩ := ih
      rw [hits_concat, List.nil_append, List.toFinset_append, List.length_append,
        List.length_singleton]
      by_cases hseen : key ∈ past
      · have hsame : past.toFinset ∪ [key].toFinset = past.toFinset := by
          apply Finset.union_eq_left.mpr
          simp [hseen]
        rw [hsame]
        constructor
        · split <;> omega
        · intro hfits
          have hhit := (cached_after_pass_iff [] past).mpr hfits key hseen
          rw [List.nil_append] at hhit
          rw [if_pos hhit, ← hexact hfits]
          omega
      · have hmiss : key ∉ (stack past).take capacity := by
          intro hmem
          exact hseen (mem_stack.mp (List.mem_of_mem_take hmem))
        have hgrown : (past.toFinset ∪ [key].toFinset).card =
            past.toFinset.card + 1 := by
          have hnew : past.toFinset ∪ [key].toFinset = insert key past.toFinset := by
            ext other
            simp
          rw [hnew, Finset.card_insert_of_notMem (by simpa using hseen)]
        rw [if_neg hmiss, hgrown]
        constructor
        · omega
        · intro hfits
          have := hexact (by omega)
          omega

/-! Renaming the keys. -/

section Renaming

variable {Name : Type*} [DecidableEq Name] {rename : Key → Name}

theorem mem_take_stack_map (hrename : Function.Injective rename)
    (history : List Key) (key : Key) :
    rename key ∈ (stack (history.map rename)).take capacity ↔
      key ∈ (stack history).take capacity := by
  have hstack : stack (history.map rename) = (stack history).map rename := by
    unfold stack
    rw [List.dedup_map_of_injective hrename, List.map_reverse]
  rw [hstack, ← List.map_take, List.mem_map_of_injective hrename]

end Renaming

end AsmCacheInject.Data.Recency

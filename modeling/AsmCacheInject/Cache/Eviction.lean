import AsmCacheInject.Cache.LbaTable

namespace AsmCacheInject.Cache

open AsmCacheInject.Data

variable {Lba : Type} [DecidableEq Lba]

structure EvictionCandidate (Lba : Type) where
  lba : Lba
  poolIndex : Nat
  needsFlush : Bool
  deriving DecidableEq, Repr

def findOldestClean (entries : List (CacheEntry Lba)) :
    Option (EvictionCandidate Lba) :=
  (entries.find? fun entry => !entry.dirty).map fun entry =>
    { lba := entry.lba, poolIndex := entry.poolIndex, needsFlush := false }

def selectEvictionCandidate (order : HashOrder (CacheEntry Lba))
    (table : LbaTable Lba) : Option (EvictionCandidate Lba) :=
  match table.entriesByLru order with
  | [] => none
  | oldest :: newer =>
      match findOldestClean (oldest :: newer) with
      | some clean => some clean
      | none =>
          some {
            lba := oldest.lba
            poolIndex := oldest.poolIndex
            needsFlush := true }

theorem LbaTable.mem_entriesByLru_iff {table : LbaTable Lba}
    {order : HashOrder (CacheEntry Lba)} {entry : CacheEntry Lba} :
    entry ∈ table.entriesByLru order ↔ ∃ lba, table.get lba = some entry := by
  rw [LbaTable.entriesByLru, (List.perm_insertionSort _ _).mem_iff,
    (order.arrange_perm _).mem_iff]
  exact Keyed.mem_rows_iff

omit [DecidableEq Lba] in
theorem LbaTable.pairwise_entriesByLru (table : LbaTable Lba)
    (order : HashOrder (CacheEntry Lba)) :
    (table.entriesByLru order).Pairwise
      fun first second => first.lastAccess ≤ second.lastAccess :=
  List.pairwise_insertionSort _ _

omit [DecidableEq Lba] in
theorem findOldestClean_first {entries : List (CacheEntry Lba)}
    (hsorted : entries.Pairwise
      fun first second => first.lastAccess ≤ second.lastAccess)
    {clean : CacheEntry Lba}
    (hfind : entries.find? (fun entry => !entry.dirty) = some clean) :
    ∀ other ∈ entries, other.dirty = false →
      clean.lastAccess ≤ other.lastAccess := by
  obtain ⟨_, front, back, heq, hfront⟩ := List.find?_eq_some_iff_append.mp hfind
  subst heq
  intro other hother hclean
  rcases List.mem_append.mp hother with hmem | hmem
  · have := hfront other hmem
    simp [hclean] at this
  · rcases List.mem_cons.mp hmem with hsame | hlater
    · rw [hsame]
    · exact (List.pairwise_cons.mp (List.pairwise_append.mp hsorted).2.1).1
        other hlater

omit [DecidableEq Lba] in
/-- The candidate is one entry of the table, its flush flag is that entry's
dirty flag, and it comes first among the sorted entries that share the flag. -/
theorem selectEvictionCandidate_first {order : HashOrder (CacheEntry Lba)}
    {table : LbaTable Lba} {candidate : EvictionCandidate Lba}
    (hselect : selectEvictionCandidate order table = some candidate) :
    ∃ entry ∈ table.entriesByLru order,
      candidate = ⟨entry.lba, entry.poolIndex, entry.dirty⟩ ∧
      ∀ other ∈ table.entriesByLru order, other.dirty = entry.dirty →
        entry.lastAccess ≤ other.lastAccess := by
  have hsorted := table.pairwise_entriesByLru order
  unfold selectEvictionCandidate at hselect
  cases hentries : table.entriesByLru order with
  | nil =>
      rw [hentries] at hselect
      cases hselect
  | cons oldest newer =>
      rw [hentries] at hselect hsorted
      simp only [findOldestClean] at hselect
      cases hfind : (oldest :: newer).find? fun entry => !entry.dirty with
      | some clean =>
          rw [hfind] at hselect
          cases hselect
          have hclean : clean.dirty = false := by
            simpa using List.find?_some hfind
          refine ⟨clean, List.mem_of_find?_eq_some hfind, by rw [hclean], ?_⟩
          rw [hclean]
          exact findOldestClean_first hsorted hfind
      | none =>
          rw [hfind] at hselect
          cases hselect
          have hdirty : oldest.dirty = true := by
            simpa using List.find?_eq_none.mp hfind oldest (by simp)
          refine ⟨oldest, by simp, by rw [hdirty], ?_⟩
          intro other hother _
          rcases List.mem_cons.mp hother with hsame | hlater
          · rw [hsame]
          · exact (List.pairwise_cons.mp hsorted).1 other hlater

theorem selectEvictionCandidate_spec {order : HashOrder (CacheEntry Lba)}
    {table : LbaTable Lba} {candidate : EvictionCandidate Lba}
    (hkeyed : table.SelfKeyed)
    (hselect : selectEvictionCandidate order table = some candidate) :
    table.slotOf candidate.lba = some candidate.poolIndex ∧
      table.dirtyOf candidate.lba = some candidate.needsFlush := by
  obtain ⟨entry, hmem, rfl, _⟩ := selectEvictionCandidate_first hselect
  obtain ⟨lba, hget⟩ := LbaTable.mem_entriesByLru_iff.mp hmem
  have hlba : entry.lba = lba := hkeyed lba entry hget
  subst hlba
  exact ⟨LbaTable.slotOf_eq_some_iff.mpr ⟨entry, hget, rfl⟩,
    LbaTable.dirtyOf_eq_some_iff.mpr ⟨entry, hget, rfl⟩⟩

theorem selectEvictionCandidate_dirty {order : HashOrder (CacheEntry Lba)}
    {table : LbaTable Lba} {candidate : EvictionCandidate Lba}
    (hselect : selectEvictionCandidate order table = some candidate)
    (hflush : candidate.needsFlush = true) (lba : Lba) :
    table.dirtyOf lba ≠ some false := by
  intro hclean
  obtain ⟨entry, hget, hdirty⟩ := LbaTable.dirtyOf_eq_some_iff.mp hclean
  have hmem : entry ∈ table.entriesByLru order :=
    LbaTable.mem_entriesByLru_iff.mpr ⟨lba, hget⟩
  unfold selectEvictionCandidate at hselect
  cases hentries : table.entriesByLru order with
  | nil =>
      rw [hentries] at hmem
      cases hmem
  | cons oldest newer =>
      rw [hentries] at hselect hmem
      simp only [findOldestClean] at hselect
      cases hfind : (oldest :: newer).find? fun entry => !entry.dirty with
      | some clean =>
          rw [hfind] at hselect
          cases hselect
          cases hflush
      | none =>
          have hnone := List.find?_eq_none.mp hfind entry hmem
          simp [hdirty] at hnone

omit [DecidableEq Lba] in
theorem selectEvictionCandidate_eq_none_iff
    {order : HashOrder (CacheEntry Lba)} {table : LbaTable Lba} :
    selectEvictionCandidate order table = none ↔ table.slots = [] := by
  have hlength : (table.entriesByLru order).length = table.slots.length := by
    rw [LbaTable.entriesByLru, (List.perm_insertionSort _ _).length_eq,
      (order.arrange_perm _).length_eq]
    simp [Keyed.rows, LbaTable.slots, Keyed.cells]
  rw [← List.length_eq_zero_iff, ← hlength, List.length_eq_zero_iff]
  unfold selectEvictionCandidate
  cases hentries : table.entriesByLru order with
  | nil => simp
  | cons oldest newer =>
      simp only [reduceCtorEq, iff_false]
      split <;> simp

/-! What the selection is for, with no mention of the order the hash map is
walked in. -/

/-- `entry`, stored under `lba`, may be given up: no clean entry is passed over
for a dirty one, and none of its kind has rested longer. -/
structure LbaTable.Expendable (table : LbaTable Lba) (lba : Lba)
    (entry : CacheEntry Lba) : Prop where
  stored : table.get lba = some entry
  clean_first : ∀ other resident, table.get other = some resident →
    resident.dirty = false → entry.dirty = false
  oldest : ∀ other resident, table.get other = some resident →
    resident.dirty = entry.dirty → entry.lastAccess ≤ resident.lastAccess

theorem selectEvictionCandidate_expendable {order : HashOrder (CacheEntry Lba)}
    {table : LbaTable Lba} {candidate : EvictionCandidate Lba}
    (hselect : selectEvictionCandidate order table = some candidate) :
    ∃ lba entry, table.Expendable lba entry ∧
      candidate = ⟨entry.lba, entry.poolIndex, entry.dirty⟩ := by
  obtain ⟨entry, hmem, rfl, hfirst⟩ := selectEvictionCandidate_first hselect
  obtain ⟨lba, hget⟩ := LbaTable.mem_entriesByLru_iff.mp hmem
  refine ⟨lba, entry, ⟨hget, ?_, ?_⟩, rfl⟩
  · intro other resident hresident hclean
    cases hdirty : entry.dirty with
    | false => rfl
    | true =>
        have hnever := selectEvictionCandidate_dirty hselect hdirty other
        exact absurd
          (LbaTable.dirtyOf_eq_some_iff.mpr ⟨resident, hresident, hclean⟩) hnever
  · intro other resident hresident hsame
    exact hfirst resident
      (LbaTable.mem_entriesByLru_iff.mpr ⟨other, hresident⟩) hsame

theorem LbaTable.Expendable.ties {table : LbaTable Lba} {first second : Lba}
    {firstEntry secondEntry : CacheEntry Lba}
    (hfirst : table.Expendable first firstEntry)
    (hsecond : table.Expendable second secondEntry) :
    secondEntry.dirty = firstEntry.dirty ∧
      secondEntry.lastAccess = firstEntry.lastAccess := by
  have hdirty : secondEntry.dirty = firstEntry.dirty := by
    cases hkind : firstEntry.dirty with
    | false => exact hsecond.clean_first first firstEntry hfirst.stored hkind
    | true =>
        cases hother : secondEntry.dirty with
        | true => rfl
        | false =>
            have hclean :=
              hfirst.clean_first second secondEntry hsecond.stored hother
            rw [hkind] at hclean
            cases hclean
  have hforth := hfirst.oldest second secondEntry hsecond.stored hdirty
  have hback := hsecond.oldest first firstEntry hfirst.stored hdirty.symm
  exact ⟨hdirty, Nat.le_antisymm hback hforth⟩

theorem selectEvictionCandidate_eq_none_iff_empty
    {order : HashOrder (CacheEntry Lba)} {table : LbaTable Lba} :
    selectEvictionCandidate order table = none ↔
      ∀ lba, table.get lba = none := by
  rw [selectEvictionCandidate_eq_none_iff, List.eq_nil_iff_forall_not_mem]
  constructor
  · intro hslots lba
    rw [← LbaTable.slotOf_eq_none_iff, Option.eq_none_iff_forall_not_mem]
    intro slot hslot
    exact hslots slot (LbaTable.mem_slots_iff.mpr ⟨lba, hslot⟩)
  · intro hempty slot hmem
    obtain ⟨lba, hslot⟩ := LbaTable.mem_slots_iff.mp hmem
    rw [LbaTable.slotOf_eq_none_iff.mpr (hempty lba)] at hslot
    cases hslot

theorem selectEvictionCandidate_correct (order : HashOrder (CacheEntry Lba))
    (table : LbaTable Lba) :
    (selectEvictionCandidate order table = none ↔
      ∀ lba, table.get lba = none) ∧
    ∀ candidate, selectEvictionCandidate order table = some candidate →
      ∃ lba entry, table.get lba = some entry ∧
        candidate.lba = entry.lba ∧ candidate.poolIndex = entry.poolIndex ∧
        candidate.needsFlush = entry.dirty ∧
        ((∃ other resident, table.get other = some resident ∧
            resident.dirty = false) →
          entry.dirty = false ∧
          ∀ other resident, table.get other = some resident →
            resident.dirty = false → entry.lastAccess ≤ resident.lastAccess) ∧
        ((¬∃ other resident, table.get other = some resident ∧
            resident.dirty = false) →
          ∀ other resident, table.get other = some resident →
            entry.lastAccess ≤ resident.lastAccess) ∧
        ((∀ other resident, table.get other = some resident →
            resident.dirty = entry.dirty →
            resident.lastAccess = entry.lastAccess → other = lba) →
          ∀ otherOrder, selectEvictionCandidate otherOrder table =
            some candidate) := by
  refine ⟨selectEvictionCandidate_eq_none_iff_empty, ?_⟩
  intro candidate hselect
  obtain ⟨lba, entry, hentry, rfl⟩ := selectEvictionCandidate_expendable hselect
  refine ⟨lba, entry, hentry.stored, rfl, rfl, rfl, ?_, ?_, ?_⟩
  · rintro ⟨cleanLba, cleanEntry, hstored, hclean⟩
    have hdirty := hentry.clean_first cleanLba cleanEntry hstored hclean
    refine ⟨hdirty, ?_⟩
    intro other resident hresident hresidentClean
    exact hentry.oldest other resident hresident
      (hresidentClean.trans hdirty.symm)
  · intro hnone other resident hresident
    have hall : ∀ key row, table.get key = some row → row.dirty = true := by
      intro key row hrow
      cases hdirty : row.dirty with
      | true => rfl
      | false => exact absurd ⟨key, row, hrow, hdirty⟩ hnone
    apply hentry.oldest other resident hresident
    rw [hall other resident hresident, hall lba entry hentry.stored]
  · intro hunique otherOrder
    cases hother : selectEvictionCandidate otherOrder table with
    | none =>
        have hempty := selectEvictionCandidate_eq_none_iff_empty.mp hother lba
        rw [hentry.stored] at hempty
        cases hempty
    | some rival =>
        obtain ⟨rivalLba, rivalEntry, hrival, rfl⟩ :=
          selectEvictionCandidate_expendable hother
        obtain ⟨hdirty, haccess⟩ := hentry.ties hrival
        have hkey : rivalLba = lba :=
          hunique rivalLba rivalEntry hrival.stored hdirty haccess
        have hsame : rivalEntry = entry := by
          have hstored := hrival.stored
          rw [hkey, hentry.stored] at hstored
          exact (Option.some.inj hstored).symm
        rw [hsame]

end AsmCacheInject.Cache

import AsmCacheInject.Data.Keyed

namespace AsmCacheInject.Cache

open AsmCacheInject.Data

abbrev Instant := Nat

variable {Lba : Type} [DecidableEq Lba]

/-! Cache entries. -/

structure CacheEntry (Lba : Type) where
  lba : Lba
  poolIndex : Nat
  dirty : Bool
  lastAccess : Instant
  accessCount : Nat
  deriving DecidableEq, Repr

namespace CacheEntry

def new (now : Instant) (lba : Lba) (poolIndex : Nat) : CacheEntry Lba where
  lba := lba
  poolIndex := poolIndex
  dirty := false
  lastAccess := now
  accessCount := 1

/-- `access_count` saturates at `u64::MAX`. -/
def touch (now : Instant) (entry : CacheEntry Lba) : CacheEntry Lba :=
  { entry with
    lastAccess := now
    accessCount := min (entry.accessCount + 1) (2 ^ 64 - 1) }

def markDirty (now : Instant) (entry : CacheEntry Lba) : CacheEntry Lba :=
  touch now { entry with dirty := true }

def markClean (entry : CacheEntry Lba) : CacheEntry Lba :=
  { entry with dirty := false }

end CacheEntry

/-! The LBA table.  A hash map yields its values in an unspecified order, so
every bulk query takes the order it happened to see. -/

structure HashOrder (Row : Type) where
  arrange : List Row → List Row
  arrange_perm : ∀ rows, (arrange rows).Perm rows

def HashOrder.stored {Row : Type} : HashOrder Row where
  arrange := id
  arrange_perm := List.Perm.refl

abbrev LbaTable (Lba : Type) := Keyed.Table Lba (CacheEntry Lba)

structure TableStats where
  totalEntries : Nat
  dirtyEntries : Nat
  totalHits : Nat
  deriving DecidableEq, Repr

namespace LbaTable

def new : LbaTable Lba := ∅

def get (table : LbaTable Lba) (lba : Lba) : Option (CacheEntry Lba) :=
  table.lookup lba

def getAndTouch (now : Instant) (lba : Lba) (table : LbaTable Lba) :
    Option Nat × LbaTable Lba :=
  match table.lookup lba with
  | none => (none, table)
  | some entry => (some entry.poolIndex, Keyed.modify lba (.touch now) table)

def insert (lba : Lba) (entry : CacheEntry Lba) (table : LbaTable Lba) :
    Option (CacheEntry Lba) × LbaTable Lba :=
  (table.lookup lba, AList.insert lba entry table)

def remove (lba : Lba) (table : LbaTable Lba) :
    Option (CacheEntry Lba) × LbaTable Lba :=
  (table.lookup lba, table.erase lba)

def markDirty (now : Instant) (lba : Lba) (table : LbaTable Lba) : LbaTable Lba :=
  Keyed.modify lba (.markDirty now) table

def markClean (lba : Lba) (table : LbaTable Lba) : LbaTable Lba :=
  Keyed.modify lba .markClean table

def dirtyEntries (order : HashOrder (CacheEntry Lba)) (table : LbaTable Lba) :
    List (Lba × Nat) :=
  ((order.arrange (Keyed.rows table)).filter (·.dirty)).map
    fun entry => (entry.lba, entry.poolIndex)

/-- `sort_by_key` is stable, as is insertion sort. -/
def entriesByLru (order : HashOrder (CacheEntry Lba)) (table : LbaTable Lba) :
    List (CacheEntry Lba) :=
  (order.arrange (Keyed.rows table)).insertionSort
    fun first second => first.lastAccess ≤ second.lastAccess

def stats (table : LbaTable Lba) : TableStats where
  totalEntries := table.entries.length
  dirtyEntries := ((Keyed.rows table).filter (·.dirty)).length
  totalHits := ((Keyed.rows table).map (·.accessCount)).sum % 2 ^ 64

/-! The columns the engine's correctness depends on. -/

def slotOf (table : LbaTable Lba) : Lba → Option Nat :=
  Keyed.column (·.poolIndex) table

def dirtyOf (table : LbaTable Lba) : Lba → Option Bool :=
  Keyed.column (·.dirty) table

def slots (table : LbaTable Lba) : List Nat :=
  Keyed.cells (·.poolIndex) table

def SelfKeyed (table : LbaTable Lba) : Prop :=
  ∀ lba entry, table.get lba = some entry → entry.lba = lba

theorem slotOf_eq_some_iff {table : LbaTable Lba} {lba : Lba} {slot : Nat} :
    table.slotOf lba = some slot ↔
      ∃ entry, table.get lba = some entry ∧ entry.poolIndex = slot :=
  Keyed.column_eq_some_iff _

theorem slotOf_eq_none_iff {table : LbaTable Lba} {lba : Lba} :
    table.slotOf lba = none ↔ table.get lba = none :=
  Keyed.column_eq_none_iff _

theorem dirtyOf_eq_some_iff {table : LbaTable Lba} {lba : Lba} {dirty : Bool} :
    table.dirtyOf lba = some dirty ↔
      ∃ entry, table.get lba = some entry ∧ entry.dirty = dirty :=
  Keyed.column_eq_some_iff _

theorem dirtyOf_eq_none_iff {table : LbaTable Lba} {lba : Lba} :
    table.dirtyOf lba = none ↔ table.slotOf lba = none := by
  rw [slotOf_eq_none_iff]
  exact Keyed.column_eq_none_iff _

theorem mem_slots_iff {table : LbaTable Lba} {slot : Nat} :
    slot ∈ table.slots ↔ ∃ lba, table.slotOf lba = some slot :=
  Keyed.mem_cells_iff _

section Columns

variable (table : LbaTable Lba) (lba : Lba) (now : Instant)

@[simp] theorem slotOf_new : (new : LbaTable Lba).slotOf lba = none :=
  Keyed.column_empty _ lba

@[simp] theorem dirtyOf_new : (new : LbaTable Lba).dirtyOf lba = none :=
  Keyed.column_empty _ lba

@[simp] theorem getAndTouch_fst :
    (getAndTouch now lba table).1 = table.slotOf lba := by
  unfold getAndTouch slotOf Keyed.column
  cases table.lookup lba <;> rfl

theorem getAndTouch_snd :
    (getAndTouch now lba table).2 = Keyed.modify lba (.touch now) table := by
  unfold getAndTouch Keyed.modify
  cases table.lookup lba <;> rfl

@[simp] theorem slotOf_getAndTouch :
    (getAndTouch now lba table).2.slotOf = table.slotOf := by
  rw [getAndTouch_snd]
  exact Keyed.column_modify_of_keeps _ table lba _ fun _ => rfl

@[simp] theorem dirtyOf_getAndTouch :
    (getAndTouch now lba table).2.dirtyOf = table.dirtyOf := by
  rw [getAndTouch_snd]
  exact Keyed.column_modify_of_keeps _ table lba _ fun _ => rfl

theorem slotOf_insert (entry : CacheEntry Lba) (other : Lba) :
    (insert lba entry table).2.slotOf other =
      if other = lba then some entry.poolIndex else table.slotOf other :=
  Keyed.column_insert _ table lba other entry

theorem dirtyOf_insert (entry : CacheEntry Lba) (other : Lba) :
    (insert lba entry table).2.dirtyOf other =
      if other = lba then some entry.dirty else table.dirtyOf other :=
  Keyed.column_insert _ table lba other entry

theorem slotOf_remove (other : Lba) :
    (remove lba table).2.slotOf other =
      if other = lba then none else table.slotOf other :=
  Keyed.column_erase _ table lba other

theorem dirtyOf_remove (other : Lba) :
    (remove lba table).2.dirtyOf other =
      if other = lba then none else table.dirtyOf other :=
  Keyed.column_erase _ table lba other

theorem slotOf_insert_eq_update (entry : CacheEntry Lba) :
    (insert lba entry table).2.slotOf =
      Function.update table.slotOf lba (some entry.poolIndex) := by
  funext other
  rw [slotOf_insert, Function.update_apply]

theorem slotOf_remove_eq_update :
    (remove lba table).2.slotOf = Function.update table.slotOf lba none := by
  funext other
  rw [slotOf_remove, Function.update_apply]

theorem slotOf_map_const {Cell : Type} (cell : Cell) :
    ((table.slotOf lba).map fun _ => cell) =
      (table.lookup lba).map fun _ => cell :=
  Option.map_map _ _ _

@[simp] theorem slotOf_markDirty :
    (markDirty now lba table).slotOf = table.slotOf :=
  Keyed.column_modify_of_keeps _ table lba _ fun _ => rfl

theorem dirtyOf_markDirty (other : Lba) :
    (markDirty now lba table).dirtyOf other =
      if other = lba then (table.slotOf lba).map fun _ => true
      else table.dirtyOf other := by
  rw [slotOf_map_const]
  exact Keyed.column_modify _ table lba other _

@[simp] theorem slotOf_markClean :
    (markClean lba table).slotOf = table.slotOf :=
  Keyed.column_modify_of_keeps _ table lba _ fun _ => rfl

theorem dirtyOf_markClean (other : Lba) :
    (markClean lba table).dirtyOf other =
      if other = lba then (table.slotOf lba).map fun _ => false
      else table.dirtyOf other := by
  rw [slotOf_map_const]
  exact Keyed.column_modify _ table lba other _

end Columns

/-! Slot lists: one line for each way an operation moves a slot. -/

section Slots

variable {table : LbaTable Lba} {lba : Lba}

theorem slots_insert_of_absent (entry : CacheEntry Lba)
    (habsent : table.slotOf lba = none) :
    (insert lba entry table).2.slots = entry.poolIndex :: table.slots :=
  Keyed.cells_insert_of_absent _ entry (slotOf_eq_none_iff.mp habsent)

theorem slots_insert (entry : CacheEntry Lba) :
    (insert lba entry table).2.slots =
      entry.poolIndex :: (remove lba table).2.slots :=
  Keyed.cells_insert _ table lba entry

theorem slots_remove_toList_perm :
    ((table.slotOf lba).toList ++ (remove lba table).2.slots).Perm table.slots :=
  Keyed.cells_erase_column_perm _ table lba

theorem slots_remove_perm {slot : Nat} (hslot : table.slotOf lba = some slot) :
    (slot :: (remove lba table).2.slots).Perm table.slots := by
  obtain ⟨entry, hentry, rfl⟩ := slotOf_eq_some_iff.mp hslot
  exact Keyed.cells_erase_perm (·.poolIndex) hentry

theorem slots_getAndTouch_perm (now : Instant) :
    (getAndTouch now lba table).2.slots.Perm table.slots := by
  rw [getAndTouch_snd]
  exact Keyed.cells_modify_perm_of_keeps _ table lba _ fun _ => rfl

theorem slots_markDirty_perm (now : Instant) :
    (markDirty now lba table).slots.Perm table.slots :=
  Keyed.cells_modify_perm_of_keeps _ table lba _ fun _ => rfl

theorem slots_markClean_perm : (markClean lba table).slots.Perm table.slots :=
  Keyed.cells_modify_perm_of_keeps _ table lba _ fun _ => rfl

omit [DecidableEq Lba] in
theorem length_slots (table : LbaTable Lba) :
    table.slots.length = table.stats.totalEntries := by
  simp [slots, Keyed.cells, stats]

end Slots

/-! Self-keyed tables and their snapshots. -/

section SelfKeyed

variable {table : LbaTable Lba}

theorem selfKeyed_new : (new : LbaTable Lba).SelfKeyed := by
  intro lba entry hget
  simp [get, new] at hget

private theorem SelfKeyed.modify (hkeyed : table.SelfKeyed) (lba : Lba)
    {update : CacheEntry Lba → CacheEntry Lba}
    (hkeeps : ∀ entry, (update entry).lba = entry.lba) :
    SelfKeyed (Keyed.modify lba update table) := by
  intro other entry hget
  rw [get, Keyed.lookup_modify_eq] at hget
  split at hget
  · next heq =>
    obtain ⟨stored, hstored, rfl⟩ := Option.map_eq_some_iff.mp hget
    rw [hkeeps, heq]
    exact hkeyed lba stored hstored
  · exact hkeyed other entry hget

theorem SelfKeyed.getAndTouch (hkeyed : table.SelfKeyed) (now : Instant)
    (lba : Lba) : (getAndTouch now lba table).2.SelfKeyed := by
  rw [getAndTouch_snd]
  exact hkeyed.modify lba fun _ => rfl

theorem SelfKeyed.markDirty (hkeyed : table.SelfKeyed) (now : Instant)
    (lba : Lba) : (markDirty now lba table).SelfKeyed :=
  hkeyed.modify lba fun _ => rfl

theorem SelfKeyed.markClean (hkeyed : table.SelfKeyed) (lba : Lba) :
    (markClean lba table).SelfKeyed :=
  hkeyed.modify lba fun _ => rfl

theorem SelfKeyed.insert (hkeyed : table.SelfKeyed) {lba : Lba}
    {entry : CacheEntry Lba} (hlba : entry.lba = lba) :
    (insert lba entry table).2.SelfKeyed := by
  intro other stored hget
  simp only [get, LbaTable.insert, Keyed.lookup_insert_eq] at hget
  split at hget
  · next heq =>
    cases hget
    rw [hlba, heq]
  · exact hkeyed other stored hget

theorem SelfKeyed.remove (hkeyed : table.SelfKeyed) (lba : Lba) :
    (remove lba table).2.SelfKeyed := by
  intro other stored hget
  simp only [get, LbaTable.remove, Keyed.lookup_erase_eq] at hget
  split at hget
  · cases hget
  · exact hkeyed other stored hget

theorem mem_dirtyEntries_iff (hkeyed : table.SelfKeyed)
    (order : HashOrder (CacheEntry Lba)) {lba : Lba} {slot : Nat} :
    (lba, slot) ∈ table.dirtyEntries order ↔
      table.slotOf lba = some slot ∧ table.dirtyOf lba = some true := by
  simp only [dirtyEntries, List.mem_map, List.mem_filter,
    (order.arrange_perm _).mem_iff, Keyed.mem_rows_iff, slotOf_eq_some_iff,
    dirtyOf_eq_some_iff]
  constructor
  · rintro ⟨entry, ⟨⟨key, hget⟩, hdirty⟩, heq⟩
    cases heq
    have hkey : entry.lba = key := hkeyed key entry hget
    rw [hkey]
    exact ⟨⟨entry, hget, rfl⟩, entry, hget, hdirty⟩
  · rintro ⟨⟨entry, hget, rfl⟩, other, hother, hdirty⟩
    have heq : entry = other := Option.some.inj (hget.symm.trans hother)
    subst heq
    exact ⟨entry, ⟨⟨lba, hget⟩, hdirty⟩, by rw [hkeyed lba entry hget]⟩

theorem dirty_mem_dirtyEntries (hkeyed : table.SelfKeyed)
    (order : HashOrder (CacheEntry Lba)) (lba : Lba)
    (hdirty : table.dirtyOf lba = some true) :
    lba ∈ (table.dirtyEntries order).map Prod.fst := by
  obtain ⟨entry, hget, _⟩ := dirtyOf_eq_some_iff.mp hdirty
  have hslot : table.slotOf lba = some entry.poolIndex :=
    slotOf_eq_some_iff.mpr ⟨entry, hget, rfl⟩
  exact List.mem_map.mpr ⟨(lba, entry.poolIndex),
    (mem_dirtyEntries_iff hkeyed order).mpr ⟨hslot, hdirty⟩, rfl⟩

private theorem SelfKeyed.rows_lba (hkeyed : table.SelfKeyed) :
    (Keyed.rows table).map (·.lba) = table.keys := by
  simp only [Keyed.rows, AList.keys, List.keys, List.map_map]
  apply List.map_congr_left
  rintro ⟨key, entry⟩ hmem
  exact hkeyed key entry (Keyed.mem_entries_iff.mp hmem)

theorem nodup_dirtyEntries_fst (hkeyed : table.SelfKeyed)
    (order : HashOrder (CacheEntry Lba)) :
    ((table.dirtyEntries order).map Prod.fst).Nodup := by
  have hall : ((order.arrange (Keyed.rows table)).map (·.lba)).Nodup := by
    rw [((order.arrange_perm _).map _).nodup_iff, hkeyed.rows_lba]
    exact table.keys_nodup
  have hsub : (((order.arrange (Keyed.rows table)).filter (·.dirty)).map
      (·.lba)).Sublist ((order.arrange (Keyed.rows table)).map (·.lba)) :=
    List.filter_sublist.map _
  simpa [dirtyEntries, List.map_map, Function.comp_def] using hall.sublist hsub

end SelfKeyed

end LbaTable

end AsmCacheInject.Cache

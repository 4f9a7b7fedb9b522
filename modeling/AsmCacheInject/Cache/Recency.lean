import AsmCacheInject.Cache.Eviction

namespace AsmCacheInject.Cache

open AsmCacheInject.Data

variable {Lba : Type} [DecidableEq Lba]

namespace LbaTable

/-! The access column. -/

def lastAccessOf (table : LbaTable Lba) : Lba → Option Instant :=
  Keyed.column (·.lastAccess) table

theorem lastAccessOf_eq_some_iff {table : LbaTable Lba} {lba : Lba}
    {reading : Instant} :
    table.lastAccessOf lba = some reading ↔
      ∃ entry, table.get lba = some entry ∧ entry.lastAccess = reading :=
  Keyed.column_eq_some_iff _

theorem lastAccessOf_eq_none_iff {table : LbaTable Lba} {lba : Lba} :
    table.lastAccessOf lba = none ↔ table.slotOf lba = none := by
  rw [slotOf_eq_none_iff]
  exact Keyed.column_eq_none_iff _

section Columns

variable (table : LbaTable Lba) (lba : Lba) (now : Instant)

@[simp] theorem lastAccessOf_new :
    (new : LbaTable Lba).lastAccessOf lba = none :=
  Keyed.column_empty _ lba

theorem lastAccessOf_getAndTouch (other : Lba) :
    (getAndTouch now lba table).2.lastAccessOf other =
      if other = lba then (table.slotOf lba).map fun _ => now
      else table.lastAccessOf other := by
  rw [getAndTouch_snd, slotOf_map_const]
  exact Keyed.column_modify _ table lba other _

theorem lastAccessOf_markDirty (other : Lba) :
    (markDirty now lba table).lastAccessOf other =
      if other = lba then (table.slotOf lba).map fun _ => now
      else table.lastAccessOf other := by
  rw [slotOf_map_const]
  exact Keyed.column_modify _ table lba other _

@[simp] theorem lastAccessOf_markClean :
    (markClean lba table).lastAccessOf = table.lastAccessOf :=
  Keyed.column_modify_of_keeps _ table lba _ fun _ => rfl

theorem lastAccessOf_insert (entry : CacheEntry Lba) (other : Lba) :
    (insert lba entry table).2.lastAccessOf other =
      if other = lba then some entry.lastAccess else table.lastAccessOf other :=
  Keyed.column_insert _ table lba other entry

theorem lastAccessOf_remove (other : Lba) :
    (remove lba table).2.lastAccessOf other =
      if other = lba then none else table.lastAccessOf other :=
  Keyed.column_erase _ table lba other

end Columns

end LbaTable

theorem selectEvictionCandidate_oldest {order : HashOrder (CacheEntry Lba)}
    {table : LbaTable Lba} {candidate : EvictionCandidate Lba}
    (hkeyed : table.SelfKeyed)
    (hselect : selectEvictionCandidate order table = some candidate) :
    ∃ reading, table.lastAccessOf candidate.lba = some reading ∧
      ∀ lba, table.dirtyOf lba = some candidate.needsFlush →
        ∃ other, table.lastAccessOf lba = some other ∧ reading ≤ other := by
  obtain ⟨entry, hmem, hcandidate, hfirst⟩ := selectEvictionCandidate_first hselect
  subst hcandidate
  obtain ⟨key, hget⟩ := LbaTable.mem_entriesByLru_iff.mp hmem
  have hkey : entry.lba = key := hkeyed key entry hget
  subst hkey
  refine ⟨entry.lastAccess,
    LbaTable.lastAccessOf_eq_some_iff.mpr ⟨entry, hget, rfl⟩, ?_⟩
  intro lba hdirty
  obtain ⟨other, hother, hsame⟩ := LbaTable.dirtyOf_eq_some_iff.mp hdirty
  exact ⟨other.lastAccess,
    LbaTable.lastAccessOf_eq_some_iff.mpr ⟨other, hother, rfl⟩,
    hfirst other (LbaTable.mem_entriesByLru_iff.mpr ⟨lba, hother⟩) hsame⟩

end AsmCacheInject.Cache

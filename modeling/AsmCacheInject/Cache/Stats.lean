import AsmCacheInject.Cache.LbaTable

namespace AsmCacheInject.Cache

open AsmCacheInject.Data

variable {Lba : Type} [DecidableEq Lba] [Fintype Lba]

/-! What the statistics count. -/

namespace LbaTable

def cached (table : LbaTable Lba) : Finset Lba :=
  Finset.univ.filter fun lba => table.slotOf lba ≠ none

def dirty (table : LbaTable Lba) : Finset Lba :=
  Finset.univ.filter fun lba => table.dirtyOf lba = some true

@[simp] theorem mem_cached {table : LbaTable Lba} {lba : Lba} :
    lba ∈ table.cached ↔ table.slotOf lba ≠ none := by
  simp [cached]

@[simp] theorem mem_dirty {table : LbaTable Lba} {lba : Lba} :
    lba ∈ table.dirty ↔ table.dirtyOf lba = some true := by
  simp [dirty]

theorem stats_dirtyEntries (table : LbaTable Lba) :
    table.stats.dirtyEntries = table.dirty.card :=
  Keyed.length_filter_rows _ table

theorem stats_totalEntries (table : LbaTable Lba) :
    table.stats.totalEntries = table.cached.card := by
  have hcount := Keyed.length_filter_rows (fun _ => true) table
  have hset : table.cached = Finset.univ.filter fun lba =>
      Keyed.column (fun _ => true) table lba = some true := by
    ext lba
    rw [mem_cached, Finset.mem_filter, Ne, slotOf_eq_none_iff]
    cases hget : table.get lba with
    | none => simp [Keyed.column, show table.lookup lba = none from hget]
    | some entry => simp [Keyed.column, show table.lookup lba = some entry from hget]
  rw [hset, ← hcount]
  simp [stats, Keyed.rows]

theorem dirty_subset_cached (table : LbaTable Lba) : table.dirty ⊆ table.cached := by
  intro lba hdirty
  rw [mem_dirty] at hdirty
  rw [mem_cached, Ne, ← dirtyOf_eq_none_iff, hdirty]
  simp

end LbaTable

end AsmCacheInject.Cache

import Mathlib

namespace AsmCacheInject.Data.Keyed

/-! Keyed tables seen column by column.  A column is one projection of the
stored records; the updates of a table act on each column independently. -/

variable {Key Row Cell : Type*} [DecidableEq Key]

abbrev Table (Key Row : Type*) := AList (fun _ : Key => Row)

/-- Update the row stored under `key` in place; no effect when it is absent. -/
def modify (key : Key) (update : Row → Row) (table : Table Key Row) :
    Table Key Row :=
  match table.lookup key with
  | none => table
  | some row => table.insert key (update row)

def rows (table : Table Key Row) : List Row :=
  table.entries.map Sigma.snd

/-- The cell of the row stored under `key`. -/
def column (project : Row → Cell) (table : Table Key Row) (key : Key) :
    Option Cell :=
  (table.lookup key).map project

def cells (project : Row → Cell) (table : Table Key Row) : List Cell :=
  table.entries.map fun entry => project entry.2

section Lookup

theorem mem_entries_iff {table : Table Key Row} {key : Key} {row : Row} :
    (⟨key, row⟩ : Sigma fun _ : Key => Row) ∈ table.entries ↔
      table.lookup key = some row :=
  (AList.mem_lookup_iff).symm

theorem mem_rows_iff {table : Table Key Row} {row : Row} :
    row ∈ rows table ↔ ∃ key, table.lookup key = some row := by
  constructor
  · intro hmem
    obtain ⟨⟨key, stored⟩, hentry, rfl⟩ := List.mem_map.mp hmem
    exact ⟨key, mem_entries_iff.mp hentry⟩
  · rintro ⟨key, hlookup⟩
    exact List.mem_map.mpr ⟨⟨key, row⟩, mem_entries_iff.mpr hlookup, rfl⟩

theorem lookup_insert_eq (table : Table Key Row) (key other : Key) (row : Row) :
    (table.insert key row).lookup other =
      if other = key then some row else table.lookup other := by
  by_cases heq : other = key
  · subst heq
    simp
  · simp [heq, AList.lookup_insert_ne]

theorem lookup_erase_eq (table : Table Key Row) (key other : Key) :
    (table.erase key).lookup other =
      if other = key then none else table.lookup other := by
  by_cases heq : other = key
  · subst heq
    simp
  · simp [heq, AList.lookup_erase_ne]

theorem lookup_modify_eq (table : Table Key Row) (key other : Key)
    (update : Row → Row) :
    (modify key update table).lookup other =
      if other = key then (table.lookup key).map update
      else table.lookup other := by
  unfold modify
  cases hlookup : table.lookup key with
  | none =>
      by_cases heq : other = key
      · subst heq
        simp [hlookup]
      · simp [heq]
  | some row =>
      simp only [lookup_insert_eq, Option.map_some]

end Lookup

section Column

variable (project : Row → Cell)

theorem column_eq_some_iff {table : Table Key Row} {key : Key} {cell : Cell} :
    column project table key = some cell ↔
      ∃ row, table.lookup key = some row ∧ project row = cell := by
  simp [column]

theorem column_eq_none_iff {table : Table Key Row} {key : Key} :
    column project table key = none ↔ table.lookup key = none := by
  simp [column]

@[simp] theorem column_empty (key : Key) :
    column project (∅ : Table Key Row) key = none := by
  simp [column]

theorem column_insert (table : Table Key Row) (key other : Key) (row : Row) :
    column project (table.insert key row) other =
      if other = key then some (project row) else column project table other := by
  simp only [column, lookup_insert_eq]
  split <;> simp

theorem column_erase (table : Table Key Row) (key other : Key) :
    column project (table.erase key) other =
      if other = key then none else column project table other := by
  simp only [column, lookup_erase_eq]
  split <;> simp

theorem column_modify (table : Table Key Row) (key other : Key)
    (update : Row → Row) :
    column project (modify key update table) other =
      if other = key then (table.lookup key).map (fun row => project (update row))
      else column project table other := by
  simp only [column, lookup_modify_eq]
  split
  · simp [Function.comp_def]
  · rfl

theorem column_modify_of_keeps (table : Table Key Row) (key : Key)
    (update : Row → Row) (hkeeps : ∀ row, project (update row) = project row) :
    column project (modify key update table) = column project table := by
  funext other
  rw [column_modify]
  by_cases heq : other = key
  · subst heq
    simp [column, hkeeps]
  · simp [heq]

end Column

section Cells

variable (project : Row → Cell)

theorem mem_cells_iff {table : Table Key Row} {cell : Cell} :
    cell ∈ cells project table ↔
      ∃ key, column project table key = some cell := by
  simp only [column_eq_some_iff]
  constructor
  · intro hmem
    obtain ⟨⟨key, row⟩, hentry, rfl⟩ := List.mem_map.mp hmem
    exact ⟨key, row, mem_entries_iff.mp hentry, rfl⟩
  · rintro ⟨key, row, hlookup, rfl⟩
    exact List.mem_map.mpr ⟨⟨key, row⟩, mem_entries_iff.mpr hlookup, rfl⟩

theorem cells_insert (table : Table Key Row) (key : Key) (row : Row) :
    cells project (table.insert key row) =
      project row :: cells project (table.erase key) := by
  simp [cells, AList.entries_insert, AList.erase]

theorem cells_insert_of_absent {table : Table Key Row} {key : Key} (row : Row)
    (habsent : table.lookup key = none) :
    cells project (table.insert key row) = project row :: cells project table := by
  have hkey : key ∉ table := AList.lookup_eq_none.mp habsent
  rw [cells, AList.entries_insert_of_notMem hkey]
  rfl

theorem cells_erase_perm {table : Table Key Row} {key : Key} {row : Row}
    (hlookup : table.lookup key = some row) :
    (project row :: cells project (table.erase key)).Perm
      (cells project table) := by
  have hkey : key ∈ table.entries.keys :=
    List.mem_keys_of_mem (mem_entries_iff.mpr hlookup)
  obtain ⟨stored, front, back, _, hentries, hkerase⟩ :=
    List.exists_of_kerase hkey
  have hstored : table.lookup key = some stored :=
    mem_entries_iff.mp (by simp [hentries])
  have hrow : stored = row := Option.some.inj (hstored.symm.trans hlookup)
  subst hrow
  have herase : (table.erase key).entries = front ++ back := hkerase
  simp only [cells, herase, hentries, List.map_append, List.map_cons]
  exact List.perm_middle.symm

theorem cells_modify_perm_of_keeps (table : Table Key Row) (key : Key)
    (update : Row → Row) (hkeeps : ∀ row, project (update row) = project row) :
    (cells project (modify key update table)).Perm (cells project table) := by
  unfold modify
  cases hlookup : table.lookup key with
  | none => exact List.Perm.refl _
  | some row =>
      simp only [cells_insert, hkeeps]
      exact cells_erase_perm project hlookup

theorem cells_erase_column_perm (table : Table Key Row) (key : Key) :
    ((column project table key).toList ++ cells project (table.erase key)).Perm
      (cells project table) := by
  cases hlookup : table.lookup key with
  | none =>
      have hkey : key ∉ table.entries.keys := AList.lookup_eq_none.mp hlookup
      have herase : (table.erase key).entries = table.entries :=
        List.kerase_of_notMem_keys hkey
      simp [column, hlookup, cells, herase]
  | some row =>
      simpa [column, hlookup] using cells_erase_perm project hlookup

theorem key_unique_of_nodup {table : Table Key Row} {first second : Key}
    {cell : Cell} (hnodup : (cells project table).Nodup)
    (hfirst : column project table first = some cell)
    (hsecond : column project table second = some cell) : first = second := by
  obtain ⟨firstRow, hfirstRow, hfirstCell⟩ := (column_eq_some_iff project).mp hfirst
  obtain ⟨secondRow, hsecondRow, hsecondCell⟩ :=
    (column_eq_some_iff project).mp hsecond
  have heq := List.inj_on_of_nodup_map hnodup (mem_entries_iff.mpr hfirstRow)
    (mem_entries_iff.mpr hsecondRow) (by rw [hfirstCell, hsecondCell])
  exact congrArg Sigma.fst heq

end Cells

theorem length_filter_rows [Fintype Key] (test : Row → Bool)
    (table : Table Key Row) :
    ((rows table).filter test).length =
      (Finset.univ.filter fun key => column test table key = some true).card := by
  have hkeys : ((table.entries.filter fun entry => test entry.2).map
      Sigma.fst).Nodup :=
    table.keys_nodup.sublist (List.filter_sublist.map Sigma.fst)
  have hset : ((table.entries.filter fun entry => test entry.2).map
      Sigma.fst).toFinset =
      Finset.univ.filter fun key => column test table key = some true := by
    ext key
    simp only [List.mem_toFinset, List.mem_map, List.mem_filter,
      Finset.mem_filter, Finset.mem_univ, true_and, column_eq_some_iff]
    constructor
    · rintro ⟨⟨key, row⟩, ⟨hentry, htest⟩, rfl⟩
      exact ⟨row, mem_entries_iff.mp hentry, htest⟩
    · rintro ⟨row, hlookup, htest⟩
      exact ⟨⟨key, row⟩, ⟨mem_entries_iff.mpr hlookup, htest⟩, rfl⟩
  rw [← hset, List.toFinset_card_of_nodup hkeys, List.length_map, rows,
    List.filter_map, List.length_map]
  rfl

end AsmCacheInject.Data.Keyed

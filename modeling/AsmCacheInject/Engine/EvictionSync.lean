import AsmCacheInject.Engine.Durability

namespace AsmCacheInject.Engine

open AsmCacheInject.Cache
open AsmCacheInject.Data
open AsmCacheInject.Flush

variable {setup : Setup}

/-! Sessions without failures.  An eviction writes without syncing; whether a
later cycle syncs it depends on whether that cycle finds anything dirty. -/

def Task.Faultless : Task setup → Prop
  | .read env _ => env.evict.succeeds = true ∧ env.fetch.succeeds = true
  | .write env _ _ => env.evict.succeeds = true
  | .turn env => (∀ lba, (env.writes lba).succeeds = true) ∧ env.sync = true

namespace CacheEngine

section Step

variable {engine : CacheEngine setup}

/-- Everything `allocate_or_evict` can do when nothing is lost and its
write-back succeeds. -/
theorem Accounted.allocateOrEvict_faultless (haccounted : engine.Accounted [])
    {env : OpEnv setup} (hevict : env.evict.succeeds = true) :
    ∃ slot held, engine.allocateOrEvict env = (.ok slot, held) ∧
      ((engine.evictionCalls env = [] ∧ engine.freeList ≠ [] ∧
          held.table = engine.table) ∨
        (∃ victim, engine.evictionCalls env = [] ∧
          engine.table.dirtyOf victim = some false ∧
          held.table = (engine.table.remove victim).2) ∨
        ∃ victim,
          engine.evictionCalls env = [.pwrite .eviction victim true] ∧
          engine.freeList = [] ∧ engine.table.dirtyOf victim = some true ∧
          (∀ lba, engine.table.dirtyOf lba ≠ some false) ∧
          held.table = (engine.table.remove victim).2) := by
  rcases engine.allocateOrEvict_cases env with
    ⟨slot, rest, hfree, heq⟩ | ⟨hfree, hselect, heq⟩ |
    ⟨_, _, _, _, _, _, hfail, _⟩ |
    ⟨candidate, hfree, hselect, hflush, _, heq⟩ |
    ⟨candidate, hfree, hselect, hflush, heq⟩
  · refine ⟨slot, _, heq, .inl ⟨?_, ?_, rfl⟩⟩
    · simp [evictionCalls, allocate, hfree]
    · simp [hfree]
  · exact absurd rfl (haccounted.allocateOrEvict_not_internal heq _)
  · exact absurd hfail (IoOutcome.ne_fail hevict _ _)
  · have hspec := selectEvictionCandidate_spec haccounted.keyed hselect
    refine ⟨_, _, heq, .inr (.inr ⟨candidate.lba, ?_, hfree, ?_, ?_, rfl⟩)⟩
    · simp [evictionCalls, allocate, hfree, hselect, hflush, hevict]
    · rw [hspec.2, hflush]
    · exact selectEvictionCandidate_dirty hselect hflush
  · have hspec := selectEvictionCandidate_spec haccounted.keyed hselect
    refine ⟨_, _, heq, .inr (.inl ⟨candidate.lba, ?_, ?_, rfl⟩)⟩
    · simp [evictionCalls, allocate, hfree, hselect, hflush]
    · rw [hspec.2, hflush]

/-- A miss on `lba` finds a full pool of dirty blocks. -/
def EvictsDirty (engine : CacheEngine setup) (lba : Lba setup) : Prop :=
  engine.table.slotOf lba = none ∧ engine.freeList = [] ∧
    ∀ other, engine.table.dirtyOf other ≠ some false

theorem dirtyOf_of_cached {lba : Lba setup}
    (hcached : engine.table.slotOf lba ≠ none) :
    engine.table.dirtyOf lba = some false ∨
      engine.table.dirtyOf lba = some true := by
  cases hdirty : engine.table.dirtyOf lba with
  | none => exact absurd (LbaTable.dirtyOf_eq_none_iff.mp hdirty) hcached
  | some dirty => cases dirty <;> simp

theorem hasDirty_insert_clean {held next : CacheEngine setup} {lba : Lba setup}
    (habsent : held.table.slotOf lba = none) {entry : CacheEntry (Lba setup)}
    (hclean : entry.dirty = false)
    (htable : next.table = (held.table.insert lba entry).2) :
    next.HasDirty ↔ held.HasDirty := by
  have hnone := LbaTable.dirtyOf_eq_none_iff.mpr habsent
  unfold HasDirty
  apply exists_congr
  intro other
  rw [htable, LbaTable.dirtyOf_insert]
  split
  · next heq => simp [heq, hclean, hnone]
  · rfl

theorem hasDirty_remove_clean {held : CacheEngine setup} {victim : Lba setup}
    (hclean : engine.table.dirtyOf victim = some false)
    (htable : held.table = (engine.table.remove victim).2) :
    held.HasDirty ↔ engine.HasDirty := by
  unfold HasDirty
  apply exists_congr
  intro other
  rw [htable, LbaTable.dirtyOf_remove]
  split
  · next heq => simp [heq, hclean]
  · rfl

theorem Accounted.hasDirty_remove_full (haccounted : engine.Accounted [])
    {held : CacheEngine setup} {victim : Lba setup}
    (hfree : engine.freeList = [])
    (hdirty : ∀ lba, engine.table.dirtyOf lba ≠ some false)
    (hvictim : engine.table.slotOf victim ≠ none)
    (htable : held.table = (engine.table.remove victim).2) :
    held.HasDirty ↔ 1 < setup.capacity := by
  obtain ⟨slot, hslot⟩ := Option.ne_none_iff_exists'.mp hvictim
  have hlength : held.table.slots.length + 1 = setup.capacity := by
    have hledger := haccounted.ledger.length_eq
    have hremoved := (LbaTable.slots_remove_perm hslot).length_eq
    rw [hfree] at hledger
    rw [htable]
    simpa [← hremoved] using hledger
  have hpos : 1 < setup.capacity ↔ held.table.slots ≠ [] := by
    rw [← List.length_pos_iff]
    omega
  have hiff : ∀ lba, held.table.dirtyOf lba = some true ↔
      held.table.slotOf lba ≠ none := by
    intro lba
    rw [htable, LbaTable.dirtyOf_remove, LbaTable.slotOf_remove]
    split
    · simp
    · constructor
      · intro htrue hnone
        rw [LbaTable.dirtyOf_eq_none_iff.mpr hnone] at htrue
        cases htrue
      · intro hcached
        exact (dirtyOf_of_cached hcached).resolve_left (hdirty lba)
  rw [hpos]
  constructor
  · rintro ⟨lba, htrue⟩ hnil
    obtain ⟨mapped, hmapped⟩ :=
      Option.ne_none_iff_exists'.mp ((hiff lba).mp htrue)
    have hmem := LbaTable.mem_slots_iff.mpr ⟨lba, hmapped⟩
    rw [hnil] at hmem
    cases hmem
  · intro hne
    obtain ⟨mapped, hmem⟩ := List.exists_mem_of_ne_nil _ hne
    obtain ⟨lba, hmapped⟩ := LbaTable.mem_slots_iff.mp hmem
    exact ⟨lba, (hiff lba).mpr (by simp [hmapped])⟩

theorem readCalls_of_hit {env : OpEnv setup} {lba : Lba setup} {slot : Nat}
    (hslot : engine.table.slotOf lba = some slot) :
    engine.readCalls env lba.val = [] := by
  have hfst := LbaTable.getAndTouch_fst engine.table lba env.now
  rw [hslot] at hfst
  simp only [readCalls, lba.isLt, dif_pos]
  split
  · rfl
  · next heq =>
    rw [heq] at hfst
    cases hfst

theorem readCalls_of_miss {env : OpEnv setup} {lba : Lba setup}
    (habsent : engine.table.slotOf lba = none) :
    engine.readCalls env lba.val = engine.evictionCalls env := by
  have hfst := LbaTable.getAndTouch_fst engine.table lba env.now
  rw [habsent] at hfst
  simp only [readCalls, lba.isLt, dif_pos]
  split
  · next heq =>
    rw [heq] at hfst
    cases hfst
  · rfl

theorem writeCalls_of_miss {env : OpEnv setup} {address : Lba setup}
    (hwritable : setup.readOnly = false)
    (habsent : engine.table.slotOf address = none) :
    engine.writeCalls env address.val = engine.evictionCalls env := by
  have hget := LbaTable.slotOf_eq_none_iff.mp habsent
  simp only [writeCalls, address.isLt, dif_pos, hwritable, hget,
    Bool.false_eq_true, if_false]

theorem writeCalls_of_hit {env : OpEnv setup} {address : Lba setup} {slot : Nat}
    (hslot : engine.table.slotOf address = some slot) :
    engine.writeCalls env address.val = [] := by
  obtain ⟨entry, hget, _⟩ := LbaTable.slotOf_eq_some_iff.mp hslot
  simp only [writeCalls, address.isLt, dif_pos, hget, ite_self]

theorem Accounted.allocateOrEvict_of_clean (haccounted : engine.Accounted [])
    (hclean : ¬engine.HasDirty) (env : OpEnv setup) :
    ∃ slot held, engine.allocateOrEvict env = (.ok slot, held) ∧
      engine.evictionCalls env = [] ∧ ¬held.HasDirty ∧
      held.flusher = engine.flusher := by
  rcases haccounted.allocateOrEvict_clean_cases (not_exists.mp hclean) env with
    ⟨slot, rest, hfree, heq⟩ | ⟨candidate, hfree, hselect, hflush, heq⟩
  · refine ⟨slot, _, heq, ?_, hclean, rfl⟩
    simp [evictionCalls, allocate, hfree]
  · have hspec := selectEvictionCandidate_spec haccounted.keyed hselect
    rw [hflush] at hspec
    refine ⟨_, _, heq, ?_, ?_, rfl⟩
    · simp [evictionCalls, allocate, hfree, hselect, hflush]
    · rw [hasDirty_remove_clean hspec.2 rfl]
      exact hclean

theorem Accounted.read_of_clean (haccounted : engine.Accounted [])
    (hclean : ¬engine.HasDirty) {env : OpEnv setup}
    (hfetch : env.fetch.succeeds = true) (lba : Lba setup) :
    (∃ result, (engine.cachedRead env lba).1 = .ok result) ∧
      engine.readCalls env lba.val = [] ∧
      ¬(engine.cachedRead env lba).2.HasDirty ∧
      (engine.cachedRead env lba).2.flusher = engine.flusher := by
  obtain ⟨_, _, hok, hcalls, hheld, hflusher⟩ :=
    haccounted.allocateOrEvict_of_clean hclean env
  rcases engine.cachedRead_cases env lba with
    ⟨slot, hslot, heq⟩ | ⟨_, _, _, hcall, _⟩ | ⟨_, _, _, _, _, _, hfail, _⟩ |
    ⟨habsent, slot, held, hcall, _, heq⟩
  · rw [heq]
    refine ⟨⟨_, rfl⟩, readCalls_of_hit hslot, ?_, rfl⟩
    simpa [HasDirty] using hclean
  · rw [hok] at hcall
    cases hcall
  · exact absurd hfail (IoOutcome.ne_fail hfetch _ _)
  · rw [hok] at hcall
    cases hcall
    have hkeeps := (haccounted.allocateOrEvict_ok hok).2 lba habsent
    rw [heq, readCalls_of_miss habsent]
    refine ⟨⟨_, rfl⟩, hcalls, ?_, hflusher⟩
    rw [hasDirty_insert_clean hkeeps rfl rfl]
    exact hheld

/-- A read writes exactly when it meets a full pool of dirty blocks; otherwise
it leaves the question whether anything is dirty as it was. -/
theorem Accounted.read_faultless (haccounted : engine.Accounted [])
    {env : OpEnv setup} (hevict : env.evict.succeeds = true)
    (hfetch : env.fetch.succeeds = true) (lba : Lba setup) :
    (engine.EvictsDirty lba ∧
      (∃ victim,
        engine.readCalls env lba.val = [.pwrite .eviction victim true]) ∧
      ((engine.cachedRead env lba).2.HasDirty ↔ 1 < setup.capacity)) ∨
    (¬engine.EvictsDirty lba ∧ engine.readCalls env lba.val = [] ∧
      ((engine.cachedRead env lba).2.HasDirty ↔ engine.HasDirty)) := by
  rcases engine.cachedRead_cases env lba with
    ⟨slot, hslot, heq⟩ | ⟨habsent, error, left, hcall, heq⟩ |
    ⟨_, _, _, _, _, _, hfail, _⟩ | ⟨habsent, slot, held, hcall, _, heq⟩
  · right
    refine ⟨fun hevicts => ?_, readCalls_of_hit hslot, ?_⟩
    · rw [hevicts.1] at hslot
      cases hslot
    · simp [heq, HasDirty]
  · obtain ⟨slot, held, hok, _⟩ := haccounted.allocateOrEvict_faultless hevict
    rw [hok] at hcall
    cases hcall
  · exact absurd hfail (IoOutcome.ne_fail hfetch _ _)
  · have hkeeps := (haccounted.allocateOrEvict_ok hcall).2 lba habsent
    have hinsert : (engine.cachedRead env lba).2.HasDirty ↔ held.HasDirty := by
      rw [heq]
      exact hasDirty_insert_clean hkeeps rfl rfl
    rw [hinsert, readCalls_of_miss habsent]
    obtain ⟨_, _, hok, hfaultless⟩ := haccounted.allocateOrEvict_faultless hevict
    rw [hcall] at hok
    cases hok
    rcases hfaultless with ⟨hcalls, hfree, htable⟩ |
      ⟨victim, hcalls, hclean, htable⟩ |
      ⟨victim, hcalls, hfree, hvictim, hdirty, htable⟩
    · exact .inr ⟨fun hevicts => hfree hevicts.2.1, hcalls, by
        simp [HasDirty, htable]⟩
    · exact .inr ⟨fun hevicts => hevicts.2.2 victim hclean, hcalls,
        hasDirty_remove_clean hclean htable⟩
    · have hcached : engine.table.slotOf victim ≠ none := by
        intro hnone
        rw [LbaTable.dirtyOf_eq_none_iff.mpr hnone] at hvictim
        cases hvictim
      exact .inl ⟨⟨habsent, hfree, hdirty⟩, ⟨victim, hcalls⟩,
        haccounted.hasDirty_remove_full hfree hdirty hcached htable⟩

theorem Accounted.write_faultless (haccounted : engine.Accounted [])
    (hwritable : setup.readOnly = false) {env : OpEnv setup}
    (hevict : env.evict.succeeds = true) (lba : Lba setup)
    (buf : Block setup) :
    (engine.cachedWrite env lba buf).2.table.dirtyOf lba = some true := by
  rcases engine.cachedWrite_cases env lba buf with
    ⟨hreadOnly, _⟩ | ⟨_, slot, flusher, hslot, heq⟩ |
    ⟨_, _, error, left, hcall, _⟩ | ⟨_, _, slot, held, flusher, _, heq⟩
  · rw [hwritable] at hreadOnly
    cases hreadOnly
  · simp [heq, LbaTable.dirtyOf_markDirty, hslot]
  · obtain ⟨slot, held, hok, _⟩ := haccounted.allocateOrEvict_faultless hevict
    rw [hok] at hcall
    cases hcall
  · simp [heq, LbaTable.dirtyOf_insert, CacheEntry.markDirty, CacheEntry.touch]

theorem Accounted.dirtyEntries_of_clean {lost : List Nat}
    (haccounted : engine.Accounted lost) (hclean : ¬engine.HasDirty)
    (order : HashOrder (CacheEntry (Lba setup))) :
    engine.table.dirtyEntries order = [] := by
  rw [List.eq_nil_iff_forall_not_mem]
  intro pair hmem
  exact hclean ⟨pair.1, (haccounted.mem_snapshot_iff order).mp
    (List.mem_map_of_mem hmem)⟩

theorem Accounted.flushTurn_of_clean {lost : List Nat}
    (haccounted : engine.Accounted lost) (hclean : ¬engine.HasDirty)
    (env : CycleEnv setup) :
    ∃ flusher, (engine.flushTurn env).2 = { engine with flusher := flusher } := by
  have hnil := haccounted.dirtyEntries_of_clean hclean env.order
  unfold CacheEngine.flushTurn
  split
  · next hnone =>
    exact ⟨none, by
      simp [CacheEngine.flushDirtyBlocks, hnil, CacheEngine.flushLoop, ← hnone]⟩
  · next channel _ =>
    exact ⟨some channel.receive.2, by
      simp [CacheEngine.flushDirtyBlocks, hnil, CacheEngine.flushLoop]⟩

theorem Accounted.turn_of_clean {lost : List Nat}
    (haccounted : engine.Accounted lost) (hclean : ¬engine.HasDirty)
    (env : CycleEnv setup) :
    engine.turnCalls env = [] ∧ ¬(engine.flushTurn env).2.HasDirty := by
  constructor
  · simp [turnCalls, CacheEngine.flushDirtyBlocks, CacheEngine.flushLoop,
      flushLoopCalls, haccounted.dirtyEntries_of_clean hclean env.order]
  · obtain ⟨flusher, hturn⟩ := haccounted.flushTurn_of_clean hclean env
    rw [hturn]
    exact hclean

theorem Accounted.runTurns_of_clean {lost : List Nat}
    (haccounted : engine.Accounted lost) (hclean : ¬engine.HasDirty)
    (turns : List (CycleEnv setup)) :
    ∃ flusher, engine.runTasks (turns.map .turn) =
      { engine with flusher := flusher } := by
  induction turns generalizing engine with
  | nil => exact ⟨engine.flusher, rfl⟩
  | cons turn rest ih =>
      obtain ⟨flusher, hturn⟩ := haccounted.flushTurn_of_clean hclean turn
      have hnext : (engine.performTask (.turn turn)).Accounted lost :=
        haccounted.flushTurn turn
      have hstill : ¬(engine.performTask (.turn turn)).HasDirty :=
        (haccounted.turn_of_clean hclean turn).2
      obtain ⟨final, hrest⟩ := ih hnext hstill
      refine ⟨final, ?_⟩
      rw [List.map_cons, CacheEngine.runTasks, List.foldl_cons]
      rw [CacheEngine.runTasks] at hrest
      rw [hrest]
      simp only [CacheEngine.performTask, hturn]

theorem Accounted.stop_of_clean {lost : List Nat}
    (haccounted : engine.Accounted lost) (hclean : ¬engine.HasDirty)
    (hchannel : engine.flusher = none ∨ engine.Listening) (env : CycleEnv setup) :
    engine.stop env = some (.ok (), { engine with flusher := none }) ∧
      engine.stopCalls env = [] := by
  rcases hchannel with hnone | hlistening
  · have hsame : { engine with flusher := none } = engine := by
      rw [← hnone]
    rw [hsame]
    simp [CacheEngine.stop, CacheEngine.stopCalls, hnone]
  · obtain ⟨channel, hstop⟩ := hlistening.stop env
    rw [hstop, hlistening.stopCalls env]
    refine ⟨?_, (haccounted.turn_of_clean hclean env).1⟩
    simp [CacheEngine.flushDirtyBlocks, CacheEngine.flushLoop,
      haccounted.dirtyEntries_of_clean hclean env.order]

theorem Accounted.turns_of_clean {lost : List Nat}
    (haccounted : engine.Accounted lost) (hclean : ¬engine.HasDirty)
    (turns : List (CycleEnv setup)) :
    (engine.runTasks (turns.map .turn)).Accounted lost ∧
      ¬(engine.runTasks (turns.map .turn)).HasDirty ∧
      engine.tasksCalls (turns.map .turn) = [] := by
  induction turns generalizing engine with
  | nil => exact ⟨haccounted, hclean, rfl⟩
  | cons turn rest ih =>
      obtain ⟨hcalls, hstill⟩ := haccounted.turn_of_clean hclean turn
      obtain ⟨hafter, hclean, hrest⟩ := ih (haccounted.flushTurn turn) hstill
      refine ⟨hafter, hclean, ?_⟩
      simp only [List.map_cons, tasksCalls, taskCalls,
        hcalls, List.nil_append]
      exact hrest

theorem Accounted.turn_faultless {lost : List Nat}
    (haccounted : engine.Accounted lost) {env : CycleEnv setup}
    (hfaultless : (Task.turn env).Faultless) :
    ¬(engine.flushTurn env).2.HasDirty ∧
      ((engine.HasDirty ∧ ∃ writes, engine.turnCalls env =
          writes ++ [.fsync true]) ∨
        (¬engine.HasDirty ∧ engine.turnCalls env = [])) := by
  obtain ⟨hwrites, hsync⟩ := hfaultless
  have hflushes : engine.Flushes env ↔ engine.HasDirty := by
    simp [Flushes, HasDirty, hwrites]
  constructor
  · rintro ⟨lba, hafter⟩
    have hfails := ((haccounted.dirtyOf_flushTurn env lba).mp hafter).2
    rw [hwrites lba] at hfails
    cases hfails
  · by_cases hdirty : engine.HasDirty
    · left
      have hpos := (haccounted.flushed_pos_iff env).mpr (hflushes.mpr hdirty)
      refine ⟨hdirty,
        flushLoopCalls env.writes (engine.table.dirtyEntries env.order), ?_⟩
      unfold turnCalls
      rw [if_pos hpos, hsync]
    · right
      exact ⟨hdirty, (haccounted.turn_of_clean hdirty env).1⟩

theorem Accounted.performTask_faultless (haccounted : engine.Accounted [])
    {task : Task setup} (hfaultless : task.Faultless) :
    (engine.performTask task).Accounted [] := by
  cases task with
  | read env lba =>
      have hkept : ¬engine.FetchLosesSlot (.read env lba) := by
        rintro ⟨_, _, _, hfails⟩
        rw [hfaultless.2] at hfails
        cases hfails
      exact haccounted.perform_kept hkept
  | write env lba buf =>
      have hkept : ¬engine.FetchLosesSlot (.write env lba buf) := id
      exact haccounted.perform_kept hkept
  | turn env => exact haccounted.flushTurn env

theorem Accounted.runTasks_faultless (haccounted : engine.Accounted [])
    {tasks : List (Task setup)}
    (hfaultless : ∀ task ∈ tasks, task.Faultless) :
    (engine.runTasks tasks).Accounted [] := by
  induction tasks generalizing engine with
  | nil => exact haccounted
  | cons task rest ih =>
      obtain ⟨hfirst, hrest⟩ := List.forall_mem_cons.mp hfaultless
      exact ih (haccounted.performTask_faultless hfirst) hrest

end Step

/-! A pool of at least two blocks: as long as a write is not synced, something
is dirty. -/

section Exposed

variable {engine : CacheEngine setup} {calls : List (DeviceCall setup)}

theorem covered_after_sync (writes : List (DeviceCall setup)) :
    Barrier.Covered DeviceCall.IsWrite DeviceCall.IsSync
      (calls ++ (writes ++ [.fsync true])) := by
  rw [← List.append_assoc]
  exact Barrier.covered_concat rfl id

theorem Accounted.dirty_or_covered_step (haccounted : engine.Accounted [])
    (hwritable : setup.readOnly = false) (hspare : 1 < setup.capacity)
    {task : Task setup} (hfaultless : task.Faultless)
    (hbefore : engine.HasDirty ∨
      Barrier.Covered DeviceCall.IsWrite DeviceCall.IsSync calls) :
    (engine.performTask task).HasDirty ∨
      Barrier.Covered DeviceCall.IsWrite DeviceCall.IsSync
        (calls ++ engine.taskCalls task) := by
  cases task with
  | read env lba =>
      by_cases hlba : lba < setup.maxLba
      · lift lba to Lba setup using hlba
        rw [performTask_read]
        rcases haccounted.read_faultless hfaultless.1 hfaultless.2 lba with
          ⟨_, _, hdirty⟩ | ⟨_, hcalls, hdirty⟩
        · exact .inl (hdirty.mpr hspare)
        · rw [taskCalls, hcalls, List.append_nil, hdirty]
          exact hbefore
      · obtain ⟨hsame, hcalls⟩ := engine.performTask_read_outside env hlba
        rw [hsame, hcalls, List.append_nil]
        exact hbefore
  | write env lba buf =>
      by_cases hlba : lba < setup.maxLba
      · lift lba to Lba setup using hlba
        rw [performTask_write]
        exact .inl ⟨lba, haccounted.write_faultless hwritable hfaultless lba buf⟩
      · obtain ⟨hsame, hcalls⟩ := engine.performTask_write_outside env hlba buf
        rw [hsame, hcalls, List.append_nil]
        exact hbefore
  | turn env =>
      right
      rcases (haccounted.turn_faultless hfaultless).2 with
        ⟨_, writes, hcalls⟩ | ⟨hclean, hcalls⟩
      · rw [taskCalls, hcalls]
        exact covered_after_sync writes
      · rw [taskCalls, hcalls, List.append_nil]
        exact hbefore.resolve_left hclean

theorem Accounted.dirty_or_covered (haccounted : engine.Accounted [])
    (hwritable : setup.readOnly = false) (hspare : 1 < setup.capacity)
    {tasks : List (Task setup)}
    (hfaultless : ∀ task ∈ tasks, task.Faultless) :
    (engine.runTasks tasks).HasDirty ∨
      Barrier.Covered DeviceCall.IsWrite DeviceCall.IsSync
        (engine.tasksCalls tasks) := by
  induction tasks using List.reverseRecOn with
  | nil => exact .inr trivial
  | append_singleton past task ih =>
      obtain ⟨hpast, hlast⟩ := List.forall_mem_append.mp hfaultless
      rw [runTasks_concat, tasksCalls_concat]
      exact (haccounted.runTasks_faultless hpast).dirty_or_covered_step hwritable
        hspare (hlast task (List.mem_singleton_self task)) (ih hpast)

end Exposed

end CacheEngine

/-! A pool of one block.  What happens to the last block written can be read
off the tasks alone. -/

inductive Fate (setup : Setup)
  | settled
  | cached (lba : Lba setup)
  | evicted
  deriving DecidableEq

/-- An in-range write leaves its block in the cache; the next turn of the flush
thread settles it, unless an in-range read of another block comes first. -/
def Fate.next : Fate setup → Task setup → Fate setup
  | .cached written, .read _ lba =>
      if lba < setup.maxLba ∧ lba ≠ written.val then .evicted
      else .cached written
  | .cached _, .turn _ => .settled
  | fate, .write _ lba _ =>
      if hlba : lba < setup.maxLba then .cached ⟨lba, hlba⟩ else fate
  | fate, _ => fate

def lastWriteFate (tasks : List (Task setup)) : Fate setup :=
  tasks.foldl Fate.next .settled

namespace CacheEngine

/-- What the fate of the last write says about engine and device calls. -/
def Tracks (engine : CacheEngine setup) (calls : List (DeviceCall setup)) :
    Fate setup → Prop
  | .settled => ¬engine.HasDirty ∧
      Barrier.Covered DeviceCall.IsWrite DeviceCall.IsSync calls
  | .cached lba => engine.table.dirtyOf lba = some true
  | .evicted => ¬engine.HasDirty ∧
      ¬Barrier.Covered DeviceCall.IsWrite DeviceCall.IsSync calls

section OneBlock

variable {engine : CacheEngine setup} {calls : List (DeviceCall setup)}

theorem Accounted.length_eq (haccounted : engine.Accounted []) :
    engine.freeList.length + engine.table.slots.length = setup.capacity := by
  simpa using haccounted.ledger.length_eq

theorem Accounted.cached_unique (haccounted : engine.Accounted [])
    (hone : setup.capacity = 1) {first second : Lba setup}
    (hfirst : engine.table.slotOf first ≠ none)
    (hsecond : engine.table.slotOf second ≠ none) : first = second := by
  obtain ⟨slot, hslot⟩ := Option.ne_none_iff_exists'.mp hfirst
  obtain ⟨other, hother⟩ := Option.ne_none_iff_exists'.mp hsecond
  have hlength := haccounted.length_eq
  have hfirstMem := LbaTable.mem_slots_iff.mpr ⟨first, hslot⟩
  have hsecondMem := LbaTable.mem_slots_iff.mpr ⟨second, hother⟩
  have hsame : slot = other := by
    match hslots : engine.table.slots with
    | [] => simp [hslots] at hfirstMem
    | [only] =>
        rw [hslots, List.mem_singleton] at hfirstMem hsecondMem
        rw [hfirstMem, hsecondMem]
    | _ :: _ :: _ =>
        rw [hslots, hone] at hlength
        simp at hlength
        omega
  subst hsame
  exact haccounted.slot_unique hslot hother

theorem slotOf_ne_none_of_dirtyOf {lba : Lba setup} {dirty : Bool}
    (hdirty : engine.table.dirtyOf lba = some dirty) :
    engine.table.slotOf lba ≠ none := by
  intro hnone
  rw [LbaTable.dirtyOf_eq_none_iff.mpr hnone] at hdirty
  cases hdirty

theorem Accounted.evictsDirty_of_other (haccounted : engine.Accounted [])
    (hone : setup.capacity = 1) {written other : Lba setup}
    (hdirty : engine.table.dirtyOf written = some true)
    (hne : other ≠ written) : engine.EvictsDirty other := by
  have hwritten := slotOf_ne_none_of_dirtyOf hdirty
  refine ⟨?_, ?_, ?_⟩
  · by_contra hcached
    exact hne (haccounted.cached_unique hone hcached hwritten)
  · obtain ⟨slot, hslot⟩ := Option.ne_none_iff_exists'.mp hwritten
    have hpos := List.length_pos_of_mem (LbaTable.mem_slots_iff.mpr ⟨written, hslot⟩)
    have hlength := haccounted.length_eq
    apply List.eq_nil_of_length_eq_zero
    omega
  · intro lba hclean
    have heq := haccounted.cached_unique hone
      (slotOf_ne_none_of_dirtyOf hclean) hwritten
    rw [heq, hdirty] at hclean
    cases hclean

theorem Accounted.tracks_read (haccounted : engine.Accounted [])
    (hone : setup.capacity = 1) {env : OpEnv setup}
    (hevict : env.evict.succeeds = true) (hfetch : env.fetch.succeeds = true)
    (lba : Lba setup) {fate : Fate setup}
    (htracks : engine.Tracks calls fate) :
    (engine.cachedRead env lba).2.Tracks
      (calls ++ engine.readCalls env lba.val)
      (fate.next (.read env lba.val)) := by
  cases fate with
  | settled =>
      obtain ⟨_, hcalls, hclean, _⟩ :=
        haccounted.read_of_clean htracks.1 hfetch lba
      rw [hcalls, List.append_nil]
      exact ⟨hclean, htracks.2⟩
  | evicted =>
      obtain ⟨_, hcalls, hclean, _⟩ :=
        haccounted.read_of_clean htracks.1 hfetch lba
      rw [hcalls, List.append_nil]
      exact ⟨hclean, htracks.2⟩
  | cached written =>
      by_cases heq : lba = written
      · subst heq
        obtain ⟨slot, hslot⟩ :=
          Option.ne_none_iff_exists'.mp (slotOf_ne_none_of_dirtyOf htracks)
        rcases engine.cachedRead_cases env lba with
          ⟨_, _, heq⟩ | ⟨habsent, _⟩ | ⟨habsent, _⟩ | ⟨habsent, _⟩
        · simpa [Fate.next, Tracks, heq] using htracks
        all_goals
          rw [hslot] at habsent
          cases habsent
      · have hval : lba.val ≠ written.val := fun hval => heq (Fin.ext hval)
        have hevicts := haccounted.evictsDirty_of_other hone htracks heq
        rcases haccounted.read_faultless hevict hfetch lba with
          ⟨_, ⟨victim, hcalls⟩, hdirty⟩ | ⟨hnot, _⟩
        · rw [hcalls]
          simp only [Fate.next, lba.isLt, true_and, if_pos hval]
          refine ⟨fun hafter => ?_, ?_⟩
          · have := hdirty.mp hafter
            omega
          · rw [Barrier.covered_append]
            simp [Barrier.Covered, DeviceCall.IsWrite, DeviceCall.IsSync]
        · exact absurd hevicts hnot

theorem Accounted.tracks_turn (haccounted : engine.Accounted [])
    {env : CycleEnv setup} (hfaultless : (Task.turn env).Faultless)
    {fate : Fate setup} (htracks : engine.Tracks calls fate) :
    (engine.flushTurn env).2.Tracks (calls ++ engine.turnCalls env)
      (fate.next (.turn env)) := by
  obtain ⟨hafter, hcalls⟩ := haccounted.turn_faultless hfaultless
  cases fate with
  | settled =>
      rcases hcalls with ⟨hdirty, _⟩ | ⟨_, hcalls⟩
      · exact absurd hdirty htracks.1
      · rw [hcalls, List.append_nil]
        exact ⟨hafter, htracks.2⟩
  | evicted =>
      rcases hcalls with ⟨hdirty, _⟩ | ⟨_, hcalls⟩
      · exact absurd hdirty htracks.1
      · rw [hcalls, List.append_nil]
        exact ⟨hafter, htracks.2⟩
  | cached written =>
      rcases hcalls with ⟨_, writes, hcalls⟩ | ⟨hclean, _⟩
      · rw [hcalls]
        exact ⟨hafter, covered_after_sync writes⟩
      · exact absurd ⟨written, htracks⟩ hclean

theorem Accounted.tracks_step (haccounted : engine.Accounted [])
    (hwritable : setup.readOnly = false) (hone : setup.capacity = 1)
    {task : Task setup} (hfaultless : task.Faultless) {fate : Fate setup}
    (htracks : engine.Tracks calls fate) :
    (engine.performTask task).Tracks (calls ++ engine.taskCalls task)
      (fate.next task) := by
  cases task with
  | read env lba =>
      by_cases hlba : lba < setup.maxLba
      · lift lba to Lba setup using hlba
        rw [performTask_read]
        exact haccounted.tracks_read hone hfaultless.1 hfaultless.2 lba htracks
      · obtain ⟨hsame, hcalls⟩ := engine.performTask_read_outside env hlba
        rw [hsame, hcalls, List.append_nil]
        cases fate <;> simpa [Fate.next, hlba] using htracks
  | write env lba buf =>
      by_cases hlba : lba < setup.maxLba
      · lift lba to Lba setup using hlba
        rw [performTask_write]
        have hdirty := haccounted.write_faultless hwritable hfaultless lba buf
        cases fate <;> simpa [Fate.next, Tracks] using hdirty
      · obtain ⟨hsame, hcalls⟩ := engine.performTask_write_outside env hlba buf
        rw [hsame, hcalls, List.append_nil]
        cases fate <;> simpa [Fate.next, hlba] using htracks
  | turn env => exact haccounted.tracks_turn hfaultless htracks

theorem Accounted.tracks_run (haccounted : engine.Accounted [])
    (hwritable : setup.readOnly = false) (hone : setup.capacity = 1)
    (hclean : ¬engine.HasDirty) {tasks : List (Task setup)}
    (hfaultless : ∀ task ∈ tasks, task.Faultless) :
    (engine.runTasks tasks).Tracks (engine.tasksCalls tasks)
      (lastWriteFate tasks) := by
  induction tasks using List.reverseRecOn with
  | nil => exact ⟨hclean, trivial⟩
  | append_singleton past task ih =>
      obtain ⟨hpast, hlast⟩ := List.forall_mem_append.mp hfaultless
      rw [runTasks_concat, tasksCalls_concat, lastWriteFate, List.foldl_concat]
      exact (haccounted.runTasks_faultless hpast).tracks_step hwritable hone
        (hlast task (List.mem_singleton_self task)) (ih hpast)

end OneBlock

theorem not_hasDirty_boot (image : Image) (flusher : Option FlushChannel) :
    ¬(boot setup image flusher).HasDirty := by
  rintro ⟨lba, hdirty⟩
  simp [boot] at hdirty

/-- After a session without failures every write, by an eviction or by a
cycle, is synced when `stop` returns, except on a pool of one block whose last
written block an in-range read pushed out before the flush thread's next
turn. -/
theorem stop_syncs_iff (image : Image) (hwritable : setup.readOnly = false)
    (tasks : List (Task setup)) (final : CycleEnv setup)
    (hfaultless : ∀ task ∈ tasks ++ [.turn final], task.Faultless) :
    (∀ stopped,
      ((boot setup image (some .fresh)).runTasks tasks).stop final =
        some (.ok (), stopped) →
      Barrier.Covered DeviceCall.IsWrite DeviceCall.IsSync
        ((boot setup image (some .fresh)).sessionCalls tasks final)) ↔
    1 < setup.capacity ∨ lastWriteFate tasks ≠ .evicted := by
  obtain ⟨htasks, hfinal⟩ := List.forall_mem_append.mp hfaultless
  have hboot : (boot setup image (some .fresh)).Accounted [] :=
    Accounted.boot image (some .fresh)
  have hlistening : ((boot setup image (some .fresh)).runTasks tasks).Listening :=
    (Listening.boot image).runTasks tasks
  obtain ⟨_, hstop⟩ := hlistening.stop final
  have hturn := ((hboot.runTasks_faultless htasks).turn_faultless
    (hfinal _ (List.mem_singleton_self _))).2
  have hreturns : (∀ stopped,
      ((boot setup image (some .fresh)).runTasks tasks).stop final =
        some (.ok (), stopped) →
      Barrier.Covered DeviceCall.IsWrite DeviceCall.IsSync
        ((boot setup image (some .fresh)).sessionCalls tasks final)) ↔
      Barrier.Covered DeviceCall.IsWrite DeviceCall.IsSync
        ((boot setup image (some .fresh)).sessionCalls tasks final) :=
    ⟨fun hcovers => hcovers _ hstop, fun hcovered _ _ => hcovered⟩
  rw [hreturns, sessionCalls, hlistening.stopCalls]
  have hcovered : Barrier.Covered DeviceCall.IsWrite DeviceCall.IsSync
      ((boot setup image (some .fresh)).tasksCalls tasks ++
        ((boot setup image (some .fresh)).runTasks tasks).turnCalls final) ↔
      ((boot setup image (some .fresh)).runTasks tasks).HasDirty ∨
        Barrier.Covered DeviceCall.IsWrite DeviceCall.IsSync
          ((boot setup image (some .fresh)).tasksCalls tasks) := by
    rcases hturn with ⟨hdirty, writes, hcalls⟩ | ⟨hclean, hcalls⟩
    · rw [hcalls]
      exact iff_of_true (covered_after_sync writes) (.inl hdirty)
    · rw [hcalls, List.append_nil]
      exact ⟨.inr, fun hor => hor.resolve_left hclean⟩
  rw [hcovered]
  by_cases hspare : 1 < setup.capacity
  · exact iff_of_true (hboot.dirty_or_covered hwritable hspare htasks)
      (.inl hspare)
  · have hone : setup.capacity = 1 := by
      have := setup.capacity_pos
      omega
    have htracks := hboot.tracks_run hwritable hone
      (not_hasDirty_boot image _) htasks
    cases hfate : lastWriteFate tasks with
    | settled =>
        rw [hfate] at htracks
        simp [htracks.2]
    | cached lba =>
        rw [hfate] at htracks
        exact iff_of_true (.inl ⟨lba, htracks⟩) (by simp)
    | evicted =>
        rw [hfate] at htracks
        simp [htracks.1, htracks.2, hspare]

def writeThenRead (spare : Nat) : List (Task (.mini spare)) :=
  [.write ⟨1, 2, .stored, .ok, .ok⟩ 0 fun _ => 5,
    .read ⟨3, 4, .stored, .ok, .ok⟩ 1]

def calmTurn : CycleEnv setup where
  order := .stored
  writes := fun _ => .ok
  sync := true

theorem writeThenRead_faultless (spare : Nat) :
    ∀ task ∈ writeThenRead spare ++ [.turn calmTurn], task.Faultless := by
  simp [writeThenRead, calmTurn, Task.Faultless, IoOutcome.succeeds]

/-- With two blocks the written one stays dirty and the last cycle syncs it. -/
theorem writeThenRead_two_blocks :
    ∃ stopped,
      ((boot (.mini 1) (fun _ => 0) (some .fresh)).runTasks
        (writeThenRead 1)).stop calmTurn = some (.ok (), stopped) ∧
      Barrier.Covered DeviceCall.IsWrite DeviceCall.IsSync
        ((boot (.mini 1) (fun _ => 0) (some .fresh)).sessionCalls
          (writeThenRead 1) calmTurn) := by
  have hsyncs := (stop_syncs_iff (fun _ => 0) rfl (writeThenRead 1) calmTurn
    (writeThenRead_faultless 1)).mpr (.inl (by decide))
  exact ⟨_, rfl, hsyncs _ rfl⟩

/-- With one block the read writes it back, the last cycle finds nothing dirty
and no `fsync` is ever issued. -/
theorem evicted_write_unsynced :
    ¬∀ (setup : Setup) (image : Image), setup.readOnly = false →
      ∀ (tasks : List (Task setup)) (final : CycleEnv setup),
      (∀ task ∈ tasks ++ [.turn final], task.Faultless) → ∀ stopped,
      ((boot setup image (some .fresh)).runTasks tasks).stop final =
        some (.ok (), stopped) →
      Barrier.Covered DeviceCall.IsWrite DeviceCall.IsSync
        ((boot setup image (some .fresh)).sessionCalls tasks final) := by
  intro halways
  have hcovered := halways (.mini 0) (fun _ => 0) rfl (writeThenRead 0) calmTurn
    (writeThenRead_faultless 0) _ rfl
  have hcalls : (boot (.mini 0) (fun _ => 0) (some .fresh)).sessionCalls
      (writeThenRead 0) calmTurn = [.pwrite .eviction 0 true] := by
    decide +kernel
  rw [hcalls] at hcovered
  simp [Barrier.Covered, DeviceCall.IsWrite] at hcovered

end CacheEngine

end AsmCacheInject.Engine

import AsmCacheInject.Engine.EvictionSync
import AsmCacheInject.Engine.PowerCut

namespace AsmCacheInject.Engine

open AsmCacheInject.Cache
open AsmCacheInject.Data
open AsmCacheInject.Flush

variable {setup : Setup}

/-! What write-back saves: the successful device writes of a block are paid for,
one each, by acknowledged writes to it. -/

def DeviceCall.wrote (lba : Lba setup) : DeviceCall setup → Bool
  | .pwrite _ written succeeded => written = lba && succeeded
  | .fsync _ => false

def BlockEvent.wrote (lba : Lba setup) : BlockEvent setup → Bool
  | .read _ _ => false
  | .write written _ => written = lba

namespace CacheEngine

def owed (engine : CacheEngine setup) (lba : Lba setup) : Nat :=
  if engine.table.dirtyOf lba = some true then 1 else 0

variable {engine : CacheEngine setup} {lost : List Nat} {lba : Lba setup}

theorem owed_le_one : engine.owed lba ≤ 1 := by
  unfold owed
  split
  · exact Nat.le_refl 1
  · exact Nat.zero_le 1

theorem owed_congr {next : CacheEngine setup}
    (hdirty : next.table.dirtyOf lba = engine.table.dirtyOf lba) :
    next.owed lba = engine.owed lba := by
  rw [owed, owed, hdirty]

theorem owed_eq_zero (hclean : engine.table.dirtyOf lba ≠ some true) :
    engine.owed lba = 0 :=
  if_neg hclean

theorem Accounted.allocateOrEvict_owed (haccounted : engine.Accounted lost)
    (env : OpEnv setup) (lba : Lba setup) :
    (engine.evictionCalls env).countP (DeviceCall.wrote lba) +
      (engine.allocateOrEvict env).2.owed lba ≤ engine.owed lba := by
  rcases engine.allocateOrEvict_cases env with
    ⟨slot, rest, hfree, heq⟩ | ⟨hfree, hselect, heq⟩ |
    ⟨candidate, error, torn, hfree, hselect, hflush, hevict, heq⟩ |
    ⟨candidate, hfree, hselect, hflush, hevict, heq⟩ |
    ⟨candidate, hfree, hselect, hflush, heq⟩
  · simp [heq, evictionCalls, allocate, hfree, owed]
  · simp [heq, evictionCalls, allocate, hfree, hselect]
  · simp [heq, evictionCalls, allocate, hfree, hselect, hflush, hevict,
      IoOutcome.succeeds, DeviceCall.wrote, owed]
  · have hdirty := (selectEvictionCandidate_spec haccounted.keyed hselect).2
    rw [hflush] at hdirty
    by_cases hvictim : candidate.lba = lba
    · subst hvictim
      simp [heq, evictionCalls, allocate, hfree, hselect, hflush, hevict,
        IoOutcome.succeeds, DeviceCall.wrote, owed, LbaTable.dirtyOf_remove, hdirty]
    · have hother : lba ≠ candidate.lba := Ne.symm hvictim
      simp [heq, evictionCalls, allocate, hfree, hselect, hflush, hevict,
        DeviceCall.wrote, owed, LbaTable.dirtyOf_remove, hvictim, hother]
  · have hgone : (engine.allocateOrEvict env).2.owed lba ≤ engine.owed lba := by
      rw [heq]
      by_cases hvictim : lba = candidate.lba
      · simp [owed, LbaTable.dirtyOf_remove, hvictim]
      · simp [owed, LbaTable.dirtyOf_remove, hvictim]
    simpa [evictionCalls, allocate, hfree, hselect, hflush] using hgone

theorem insert_owed_le (inserted : Lba setup) (entry : CacheEntry (Lba setup))
    (lba : Lba setup)
    (hentry : lba = inserted → entry.dirty = false) :
    CacheEngine.owed { engine with
      table := (engine.table.insert inserted entry).2 } lba ≤ engine.owed lba := by
  unfold owed
  rw [LbaTable.dirtyOf_insert]
  by_cases heq : lba = inserted
  · simp [heq, hentry heq]
  · simp [heq]

theorem Accounted.read_owed (haccounted : engine.Accounted lost)
    (env : OpEnv setup) (address lba : Lba setup) :
    (engine.readCalls env address.val).countP (DeviceCall.wrote lba) +
      (engine.cachedRead env address).2.owed lba ≤ engine.owed lba := by
  have hevicted := haccounted.allocateOrEvict_owed env lba
  rcases engine.cachedRead_cases env address with
    ⟨slot, hslot, heq⟩ | ⟨habsent, error, left, hcall, heq⟩ |
    ⟨habsent, slot, held, error, torn, hcall, _, heq⟩ |
    ⟨habsent, slot, held, hcall, _, heq⟩
  · rw [readCalls_of_hit hslot, heq, List.countP_nil, Nat.zero_add]
    exact Nat.le_of_eq (owed_congr (congrFun (LbaTable.dirtyOf_getAndTouch ..) lba))
  · rw [readCalls_of_miss habsent, heq]
    rwa [hcall] at hevicted
  · rw [readCalls_of_miss habsent, heq]
    rwa [hcall] at hevicted
  · rw [readCalls_of_miss habsent, heq]
    rw [hcall] at hevicted
    have hinserted : CacheEngine.owed { held with
        table := (held.table.insert address (.new env.now address slot)).2 } lba ≤
        held.owed lba :=
      insert_owed_le address _ lba fun _ => rfl
    exact Nat.le_trans (Nat.add_le_add_left hinserted _) hevicted

theorem acknowledged_write_count (env : OpEnv setup) (address lba : Lba setup)
    (buf : Block setup) (result : WriteResult) :
    ((Request.write env address.val buf).acknowledged (.write (.ok result))).countP
        (BlockEvent.wrote lba) = if lba = address then 1 else 0 := by
  have hsame : address = lba ↔ lba = address := eq_comm
  simp only [Request.acknowledged, address.isLt, dif_pos, List.countP_singleton,
    BlockEvent.wrote, Fin.eta, decide_eq_true_eq, hsame]

theorem Accounted.write_owed (haccounted : engine.Accounted lost)
    (env : OpEnv setup) (address lba : Lba setup) (buf : Block setup) :
    (engine.writeCalls env address.val).countP (DeviceCall.wrote lba) +
        (engine.cachedWrite env address buf).2.owed lba ≤
      engine.owed lba +
        ((Request.write env address.val buf).acknowledged
          (.write (engine.cachedWrite env address buf).1)).countP
            (BlockEvent.wrote lba) := by
  have hevicted := haccounted.allocateOrEvict_owed env lba
  rcases engine.cachedWrite_cases env address buf with
    ⟨hreadOnly, heq⟩ | ⟨_, slot, flusher, hslot, heq⟩ |
    ⟨hwritable, habsent, error, left, hcall, heq⟩ |
    ⟨hwritable, habsent, slot, held, flusher, hcall, heq⟩
  · simp [heq, writeCalls, address.isLt, hreadOnly]
  · rw [writeCalls_of_hit hslot, heq, acknowledged_write_count, List.countP_nil,
      Nat.zero_add]
    split
    · exact Nat.le_trans owed_le_one (Nat.le_add_left 1 _)
    · next hother =>
      apply Nat.le_of_eq
      apply owed_congr
      rw [LbaTable.dirtyOf_markDirty, if_neg hother]
  · rw [writeCalls_of_miss hwritable habsent, heq]
    rw [hcall] at hevicted
    exact Nat.le_trans hevicted (Nat.le_add_right _ _)
  · rw [writeCalls_of_miss hwritable habsent, heq, acknowledged_write_count]
    rw [hcall] at hevicted
    split
    · exact Nat.add_le_add (Nat.le_trans (Nat.le_add_right _ _) hevicted) owed_le_one
    · next hother =>
      have hinserted : CacheEngine.owed { held with
          table := (held.table.insert address
            ((CacheEntry.new env.now address slot).markDirty env.later)).2 } lba ≤
          held.owed lba :=
        insert_owed_le address _ lba fun heq => absurd heq hother
      exact Nat.le_trans (Nat.add_le_add_left hinserted _) hevicted

theorem flushLoopCalls_count (writes : Lba setup → IoOutcome setup)
    {snapshot : List (Lba setup × Nat)} (hnodup : (snapshot.map Prod.fst).Nodup)
    (lba : Lba setup) :
    (flushLoopCalls writes snapshot).countP (DeviceCall.wrote lba) =
      if lba ∈ snapshot.map Prod.fst ∧ (writes lba).succeeds = true then 1
      else 0 := by
  induction snapshot with
  | nil => simp [flushLoopCalls]
  | cons pair rest ih =>
      obtain ⟨head, slot⟩ := pair
      obtain ⟨hfresh, hrest⟩ := List.nodup_cons.mp hnodup
      simp only [flushLoopCalls, List.countP_cons, ih hrest, List.map_cons,
        List.mem_cons]
      by_cases heq : lba = head
      · subst heq
        have hout : lba ∉ rest.map Prod.fst := hfresh
        simp only [hout, false_and, if_false, Nat.zero_add, true_or, true_and,
          DeviceCall.wrote, decide_true, Bool.true_and]
      · have hne : ¬head = lba := Ne.symm heq
        simp only [heq, false_or, DeviceCall.wrote, hne, decide_false,
          Bool.false_and, Bool.false_eq_true, if_false, Nat.add_zero]

theorem Accounted.turn_owed (haccounted : engine.Accounted lost)
    (env : CycleEnv setup) (lba : Lba setup) :
    (engine.turnCalls env).countP (DeviceCall.wrote lba) +
      (engine.flushTurn env).2.owed lba ≤ engine.owed lba := by
  have hsync : (if 0 < (engine.flushDirtyBlocks env.order env.writes).1 then
      [DeviceCall.fsync env.sync] else []).countP (DeviceCall.wrote lba) = 0 := by
    split
    · rfl
    · rfl
  have hwrites := flushLoopCalls_count env.writes
    (LbaTable.nodup_dirtyEntries_fst haccounted.keyed env.order) lba
  simp only [haccounted.mem_snapshot_iff] at hwrites
  rw [turnCalls, List.countP_append, hsync, hwrites]
  unfold owed
  simp only [haccounted.dirtyOf_flushTurn]
  by_cases hdirty : engine.table.dirtyOf lba = some true
  · cases hsucceeds : (env.writes lba).succeeds with
    | true => simp [hdirty]
    | false => simp [hdirty]
  · simp [hdirty]

theorem Accounted.task_owed (haccounted : engine.Accounted lost)
    (task : Task setup) (lba : Lba setup) :
    (engine.taskCalls task).countP (DeviceCall.wrote lba) +
        (engine.performTask task).owed lba ≤
      engine.owed lba + (engine.taskEvents task).countP (BlockEvent.wrote lba) := by
  cases task with
  | read env address =>
      by_cases haddress : address < setup.maxLba
      · have hread := haccounted.read_owed env ⟨address, haddress⟩ lba
        rw [← engine.performTask_read env ⟨address, haddress⟩] at hread
        exact Nat.le_trans hread (Nat.le_add_right _ _)
      · obtain ⟨hsame, hcalls⟩ := engine.performTask_read_outside env haddress
        rw [hsame, hcalls]
        simp
  | write env address buf =>
      by_cases haddress : address < setup.maxLba
      · have hwrite := haccounted.write_owed env ⟨address, haddress⟩ lba buf
        rw [← engine.performTask_write env ⟨address, haddress⟩ buf] at hwrite
        simp only [taskEvents, CacheEngine.perform, CacheEngine.write, haddress, dif_pos]
        exact hwrite
      · obtain ⟨hsame, hcalls⟩ := engine.performTask_write_outside env haddress buf
        rw [hsame, hcalls]
        simp
  | turn env => exact haccounted.turn_owed env lba

theorem Accounted.tasks_owed (haccounted : engine.Accounted lost)
    (tasks : List (Task setup)) (lba : Lba setup) :
    (engine.tasksCalls tasks).countP (DeviceCall.wrote lba) +
        (engine.runTasks tasks).owed lba ≤
      engine.owed lba +
        (engine.tasksEvents tasks).countP (BlockEvent.wrote lba) := by
  induction tasks generalizing engine lost with
  | nil => exact Nat.le_of_eq (Nat.zero_add _)
  | cons task rest ih =>
      obtain ⟨lostNext, hslots⟩ := haccounted.performTask task
      have hfirst := haccounted.task_owed task lba
      have hrest := ih hslots
      have hrun : engine.runTasks (task :: rest) =
          (engine.performTask task).runTasks rest := rfl
      rw [tasksCalls, tasksEvents, List.countP_append, List.countP_append, hrun]
      omega

theorem Accounted.tasks_idle (haccounted : engine.Accounted lost)
    {tasks : List (Task setup)} (howed : engine.owed lba = 0)
    (hquiet : (engine.tasksEvents tasks).countP (BlockEvent.wrote lba) = 0)
    (origin : Origin) (succeeded : Bool) :
    .pwrite origin lba succeeded ∉ engine.tasksCalls tasks := by
  induction tasks generalizing engine lost with
  | nil => exact List.not_mem_nil
  | cons task rest ih =>
      obtain ⟨lostNext, hslots⟩ := haccounted.performTask task
      have hfirst := haccounted.task_owed task lba
      rw [tasksEvents, List.countP_append] at hquiet
      intro hmem
      rcases List.mem_append.mp hmem with hnow | hlater
      · have hdirty := (haccounted.mem_taskCalls hnow).1
        rw [owed, if_pos hdirty] at howed
        cases howed
      · exact ih hslots (by omega) (by omega) hlater

/-- From every state a session reaches, whatever fails, a block is written to
the device at most once for each acknowledged write to it, not counting the one
that may be outstanding at first and counting the one that is outstanding at
the end.  A block with nothing outstanding is not written before a client
writes it: not from the start on, and not after a task that has written it
back. -/
theorem write_backs_le_writes (image : Image) (flusher : Option FlushChannel)
    (before tasks : List (Task setup)) (lba : Lba setup) :
    (((boot setup image flusher).runTasks before).tasksCalls tasks).countP
          (DeviceCall.wrote lba) +
        (((boot setup image flusher).runTasks before).runTasks tasks).owed lba ≤
      ((boot setup image flusher).runTasks before).owed lba +
        (((boot setup image flusher).runTasks before).tasksEvents tasks).countP
          (BlockEvent.wrote lba) ∧
    (((boot setup image flusher).tasksEvents tasks).countP
        (BlockEvent.wrote lba) = 0 →
      ∀ origin succeeded, .pwrite origin lba succeeded ∉
        (boot setup image flusher).tasksCalls tasks) ∧
    ∀ task origin,
      .pwrite origin lba true ∈
        ((boot setup image flusher).runTasks before).taskCalls task →
      (((boot setup image flusher).runTasks before).tasksEvents
        (task :: tasks)).countP (BlockEvent.wrote lba) = 0 →
      ∀ later succeeded, .pwrite later lba succeeded ∉
        ((boot setup image flusher).runTasks (before ++ [task])).tasksCalls tasks := by
  have hboot : (boot setup image flusher).Accounted [] :=
    Accounted.boot image flusher
  have hstart : (boot setup image flusher).owed lba = 0 :=
    owed_eq_zero (by simp [boot])
  obtain ⟨lost, haccounted⟩ := hboot.runTasks before
  refine ⟨haccounted.tasks_owed tasks lba, hboot.tasks_idle hstart, ?_⟩
  intro task origin hwrites hquiet
  obtain ⟨lostNext, hslots⟩ := haccounted.performTask task
  have howed := haccounted.task_owed task lba
  have hcounted : 0 < (((boot setup image flusher).runTasks before).taskCalls
      task).countP (DeviceCall.wrote lba) :=
    List.countP_pos_iff.mpr ⟨_, hwrites, by simp [DeviceCall.wrote]⟩
  have hone : ((boot setup image flusher).runTasks before).owed lba ≤ 1 :=
    owed_le_one
  rw [tasksEvents, List.countP_append] at hquiet
  rw [runTasks_concat]
  exact hslots.tasks_idle (by omega) (by omega)

/-- Of two turns after one write only the first writes the block back. -/
theorem secondTurn_leaves_block :
    .pwrite .cycle 0 true ∈
      ((boot (.mini 0) (fun _ => 0) none).runTasks
        [.write ⟨1, 1, .stored, .ok, .ok⟩ 0 fun _ => 5]).taskCalls
          (.turn ⟨.stored, fun _ => .ok, true⟩) ∧
    ∀ later succeeded, .pwrite later 0 succeeded ∉
      ((boot (.mini 0) (fun _ => 0) none).runTasks
        [.write ⟨1, 1, .stored, .ok, .ok⟩ 0 fun _ => 5,
          .turn ⟨.stored, fun _ => .ok, true⟩]).tasksCalls
            [.turn ⟨.stored, fun _ => .ok, true⟩] := by
  have hwrites : .pwrite .cycle 0 true ∈
      ((boot (.mini 0) (fun _ => 0) none).runTasks
        [.write ⟨1, 1, .stored, .ok, .ok⟩ 0 fun _ => 5]).taskCalls
          (.turn ⟨.stored, fun _ => .ok, true⟩) := by
    decide +kernel
  exact ⟨hwrites, (write_backs_le_writes (fun _ => 0) none _
    [.turn ⟨.stored, fun _ => .ok, true⟩] 0).2.2 _ _ hwrites rfl⟩

end CacheEngine

end AsmCacheInject.Engine

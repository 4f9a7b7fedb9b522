import AsmCacheInject.Engine.Session

namespace AsmCacheInject.Engine

open AsmCacheInject.Cache
open AsmCacheInject.Data
open AsmCacheInject.Flush

variable {setup : Setup}

/-! Writes in a volatile device cache: a `pwrite` is durable once an `fsync`
that follows it has succeeded. -/

namespace DeviceCall

def IsWrite : DeviceCall setup → Prop
  | .pwrite _ _ _ => True
  | .fsync _ => False

def IsFlush : DeviceCall setup → Prop
  | .pwrite origin _ succeeded => origin = .cycle ∧ succeeded = true
  | .fsync _ => False

def IsSync : DeviceCall setup → Prop
  | .pwrite _ _ _ => False
  | .fsync succeeded => succeeded = true

end DeviceCall

namespace CacheEngine

/-! What `stop` promises against failing writes and syncs. -/

theorem evictionCalls_cases (env : OpEnv setup) (engine : CacheEngine setup) :
    engine.evictionCalls env = [] ∨ ∃ lba,
      engine.evictionCalls env = [.pwrite .eviction lba env.evict.succeeds] := by
  unfold evictionCalls
  split
  · exact .inl rfl
  · split
    · exact .inl rfl
    · split
      · exact .inr ⟨_, rfl⟩
      · exact .inl rfl

theorem evictionCalls_silent {env : OpEnv setup} {engine : CacheEngine setup}
    {call : DeviceCall setup} (hcall : call ∈ engine.evictionCalls env) :
    ¬call.IsFlush ∧ ¬call.IsSync := by
  rcases engine.evictionCalls_cases env with hnone | ⟨lba, hone⟩
  · rw [hnone] at hcall
    cases hcall
  · rw [hone, List.mem_singleton] at hcall
    subst hcall
    simp [DeviceCall.IsFlush, DeviceCall.IsSync]

theorem readCalls_subset (env : OpEnv setup) (lba : Nat)
    (engine : CacheEngine setup) :
    engine.readCalls env lba ⊆ engine.evictionCalls env := by
  unfold readCalls
  split
  · split <;> simp
  · simp

theorem writeCalls_subset (env : OpEnv setup) (lba : Nat)
    (engine : CacheEngine setup) :
    engine.writeCalls env lba ⊆ engine.evictionCalls env := by
  unfold writeCalls
  split
  · split
    · simp
    · split <;> simp
  · simp

theorem readCalls_silent {env : OpEnv setup} {lba : Nat}
    {engine : CacheEngine setup} {call : DeviceCall setup}
    (hcall : call ∈ engine.readCalls env lba) : ¬call.IsFlush ∧ ¬call.IsSync :=
  evictionCalls_silent (readCalls_subset env lba engine hcall)

theorem writeCalls_silent {env : OpEnv setup} {lba : Nat}
    {engine : CacheEngine setup} {call : DeviceCall setup}
    (hcall : call ∈ engine.writeCalls env lba) : ¬call.IsFlush ∧ ¬call.IsSync :=
  evictionCalls_silent (writeCalls_subset env lba engine hcall)

theorem mem_flushLoopCalls {writes : Lba setup → IoOutcome setup}
    {snapshot : List (Lba setup × Nat)} {call : DeviceCall setup} :
    call ∈ flushLoopCalls writes snapshot ↔
      ∃ lba ∈ snapshot.map Prod.fst,
        call = .pwrite .cycle lba (writes lba).succeeds := by
  induction snapshot with
  | nil => simp [flushLoopCalls]
  | cons pair rest ih =>
      obtain ⟨lba, slot⟩ := pair
      simp [flushLoopCalls, ih]

section Turn

variable {engine : CacheEngine setup} {lost : List Nat}

theorem Accounted.turnCalls_sync_iff (haccounted : engine.Accounted lost)
    (env : CycleEnv setup) :
    (∃ call ∈ engine.turnCalls env, call.IsSync) ↔
      engine.Flushes env ∧ env.sync = true := by
  rw [← haccounted.flushed_pos_iff env]
  unfold turnCalls
  split
  · next hpos =>
    simp only [hpos, true_and, List.mem_append, List.mem_singleton]
    constructor
    · rintro ⟨call, hwrite | hsync, hissync⟩
      · obtain ⟨lba, _, rfl⟩ := mem_flushLoopCalls.mp hwrite
        exact hissync.elim
      · rw [hsync] at hissync
        exact hissync
    · intro hsync
      exact ⟨_, .inr rfl, hsync⟩
  · next hzero =>
    simp only [hzero, false_and, iff_false, List.append_nil]
    rintro ⟨call, hwrite, hissync⟩
    obtain ⟨lba, _, rfl⟩ := mem_flushLoopCalls.mp hwrite
    exact hissync

theorem Accounted.turnCalls_covered_iff (haccounted : engine.Accounted lost)
    (env : CycleEnv setup) :
    Barrier.Covered DeviceCall.IsFlush DeviceCall.IsSync
        (engine.turnCalls env) ↔
      (engine.Flushes env → env.sync = true) := by
  have hexposed : (∃ call ∈ flushLoopCalls env.writes
      (engine.table.dirtyEntries env.order), call.IsFlush) ↔
        engine.Flushes env := by
    simp only [mem_flushLoopCalls, haccounted.mem_snapshot_iff]
    constructor
    · rintro ⟨_, ⟨lba, hdirty, rfl⟩, _, hsucceeds⟩
      exact ⟨lba, hdirty, hsucceeds⟩
    · rintro ⟨lba, hdirty, hsucceeds⟩
      exact ⟨_, ⟨lba, hdirty, rfl⟩, rfl, hsucceeds⟩
  unfold turnCalls
  split
  · next hpos =>
    rw [haccounted.flushed_pos_iff env] at hpos
    have hsilent : ∀ call ∈ flushLoopCalls env.writes
        (engine.table.dirtyEntries env.order), ¬call.IsSync := by
      intro call hcall
      obtain ⟨lba, _, rfl⟩ := mem_flushLoopCalls.mp hcall
      exact id
    have hloop : ¬Barrier.Covered DeviceCall.IsFlush DeviceCall.IsSync
        (flushLoopCalls env.writes (engine.table.dirtyEntries env.order)) := by
      intro hcovered
      obtain ⟨call, hcall, hflush⟩ := hexposed.mpr hpos
      exact (Barrier.covered_iff_silent hsilent).mp hcovered call hcall hflush
    rw [Barrier.covered_append]
    simp [hloop, hpos, Barrier.Covered, DeviceCall.IsFlush, DeviceCall.IsSync]
  · next hzero =>
    rw [haccounted.flushed_pos_iff env] at hzero
    rw [List.append_nil]
    refine iff_of_true (Barrier.covered_of_silent ?_) fun h => absurd h hzero
    intro call hcall hflush
    exact hzero (hexposed.mp ⟨call, hcall, hflush⟩)

end Turn

/-! The cycles of a session with the state each one starts from, the turn
`stop` waits for being the last. -/

structure Cycle (setup : Setup) where
  engine : CacheEngine setup
  env : CycleEnv setup

def cycles (engine : CacheEngine setup) :
    List (Task setup) → CycleEnv setup → List (Cycle setup)
  | [], final => [⟨engine, final⟩]
  | .turn env :: rest, final =>
      ⟨engine, env⟩ :: cycles (engine.performTask (.turn env)) rest final
  | task :: rest, final => cycles (engine.performTask task) rest final

def Cycle.Unsynced (cycle : Cycle setup) : Prop :=
  cycle.engine.Flushes cycle.env ∧ cycle.env.sync = false

def Cycle.Syncs (cycle : Cycle setup) : Prop :=
  cycle.engine.Flushes cycle.env ∧ cycle.env.sync = true

section Session

variable {engine : CacheEngine setup} {lost : List Nat}

theorem sessionCalls_nil (hlistening : engine.Listening)
    (final : CycleEnv setup) :
    engine.sessionCalls [] final = engine.turnCalls final := by
  rw [← hlistening.stopCalls final]
  rfl

theorem sessionCalls_cons (task : Task setup) (rest : List (Task setup))
    (final : CycleEnv setup) :
    engine.sessionCalls (task :: rest) final =
      engine.taskCalls task ++
        (engine.performTask task).sessionCalls rest final := by
  simp only [sessionCalls, tasksCalls, List.append_assoc]
  rfl

theorem Accounted.session_syncs_iff (haccounted : engine.Accounted lost)
    (hlistening : engine.Listening) (tasks : List (Task setup))
    (final : CycleEnv setup) :
    (∃ call ∈ engine.sessionCalls tasks final, call.IsSync) ↔
      ∃ cycle ∈ engine.cycles tasks final, cycle.Syncs := by
  induction tasks generalizing engine lost with
  | nil =>
      rw [sessionCalls_nil hlistening, haccounted.turnCalls_sync_iff]
      simp [cycles, Cycle.Syncs]
  | cons task rest ih =>
      obtain ⟨lostNext, hnext⟩ := haccounted.performTask task
      have hrest := ih hnext (hlistening.performTask task)
      rw [sessionCalls_cons]
      simp only [List.mem_append, or_and_right, exists_or, hrest]
      cases task with
      | turn env =>
          have hturn := haccounted.turnCalls_sync_iff env
          simp only [taskCalls, hturn, cycles, List.mem_cons, or_and_right,
            exists_or, exists_eq_left, Cycle.Syncs]
      | read env lba =>
          have hsilent : ¬∃ call ∈ engine.readCalls env lba, call.IsSync := by
            rintro ⟨call, hcall, hsync⟩
            exact (readCalls_silent hcall).2 hsync
          simp only [taskCalls, hsilent, false_or, cycles]
      | write env lba buf =>
          have hsilent : ¬∃ call ∈ engine.writeCalls env lba, call.IsSync := by
            rintro ⟨call, hcall, hsync⟩
            exact (writeCalls_silent hcall).2 hsync
          simp only [taskCalls, hsilent, false_or, cycles]

theorem Accounted.session_covered_iff (haccounted : engine.Accounted lost)
    (hlistening : engine.Listening) (tasks : List (Task setup))
    (final : CycleEnv setup) :
    Barrier.Covered DeviceCall.IsFlush DeviceCall.IsSync
        (engine.sessionCalls tasks final) ↔
      Barrier.Covered Cycle.Unsynced Cycle.Syncs
        (engine.cycles tasks final) := by
  induction tasks generalizing engine lost with
  | nil =>
      rw [sessionCalls_nil hlistening, haccounted.turnCalls_covered_iff]
      simp [cycles, Barrier.Covered, Cycle.Unsynced]
  | cons task rest ih =>
      obtain ⟨lostNext, hnext⟩ := haccounted.performTask task
      have hlater := hlistening.performTask task
      rw [sessionCalls_cons, Barrier.covered_append, ih hnext hlater]
      cases task with
      | turn env =>
          rw [hnext.session_syncs_iff hlater, taskCalls,
            haccounted.turnCalls_covered_iff]
          simp only [cycles, Barrier.Covered, Cycle.Unsynced]
          cases env.sync
          · simp only [Bool.false_eq_true, and_true, imp_false]
            rw [or_comm, ← imp_iff_not_or]
          · simp
      | read env lba =>
          have hcovered : Barrier.Covered DeviceCall.IsFlush DeviceCall.IsSync
              (engine.taskCalls (.read env lba)) :=
            Barrier.covered_of_silent fun _ hcall => (readCalls_silent hcall).1
          simp only [hcovered, or_true, true_and, cycles]
      | write env lba buf =>
          have hcovered : Barrier.Covered DeviceCall.IsFlush DeviceCall.IsSync
              (engine.taskCalls (.write env lba buf)) :=
            Barrier.covered_of_silent fun _ hcall => (writeCalls_silent hcall).1
          simp only [hcovered, or_true, true_and, cycles]

end Session

/-- After a session with any pattern of failures, `stop` still returns `Ok`.
The table is clean and every block a cycle wrote is synced exactly when the
last cycle could write every block that was dirty then, and no cycle that
wrote without syncing was the last one to write and sync. -/
theorem stop_commits_iff (image : Image) (tasks : List (Task setup))
    (final : CycleEnv setup) :
    (∀ stopped,
      ((boot setup image (some .fresh)).runTasks tasks).stop final =
        some (.ok (), stopped) →
      (∀ lba, stopped.table.dirtyOf lba ≠ some true) ∧
        Barrier.Covered DeviceCall.IsFlush DeviceCall.IsSync
          ((boot setup image (some .fresh)).sessionCalls tasks final)) ↔
    (∀ lba,
      ((boot setup image (some .fresh)).runTasks tasks).table.dirtyOf lba =
        some true → (final.writes lba).succeeds = true) ∧
      Barrier.Covered Cycle.Unsynced Cycle.Syncs
        ((boot setup image (some .fresh)).cycles tasks final) := by
  have hboot : (boot setup image (some .fresh)).Accounted [] :=
    Accounted.boot image (some .fresh)
  have hlistening : (boot setup image (some .fresh)).Listening :=
    Listening.boot image
  obtain ⟨lost, haccounted⟩ := hboot.runTasks tasks
  obtain ⟨channel, hstop⟩ := (hlistening.runTasks tasks).stop final
  have hdirty := (haccounted.rechannel (some channel)).dirtyOf_flushDirtyBlocks
    final.order final.writes
  rw [hboot.session_covered_iff hlistening tasks final]
  constructor
  · intro hcommits
    obtain ⟨hclean, hcovered⟩ := hcommits _ hstop
    refine ⟨?_, hcovered⟩
    intro lba hbefore
    by_contra hfails
    exact hclean lba ((hdirty lba).mpr ⟨hbefore, by simpa using hfails⟩)
  · rintro ⟨hwrites, hcovered⟩ stopped hstopped
    rw [hstop] at hstopped
    cases hstopped
    refine ⟨?_, hcovered⟩
    intro lba hafter
    obtain ⟨hbefore, hfails⟩ := (hdirty lba).mp hafter
    rw [hwrites lba hbefore] at hfails
    cases hfails

/-- One dirty block whose only write-back fails: `stop` reports success. -/
theorem failed_final_cycle_reported_ok :
    ¬∀ (setup : Setup) (image : Image) (tasks : List (Task setup))
      (final : CycleEnv setup), setup.readOnly = false → ∀ stopped,
      ((boot setup image (some .fresh)).runTasks tasks).stop final =
        some (.ok (), stopped) →
      (∀ lba, stopped.table.dirtyOf lba ≠ some true) ∧
        Barrier.Covered DeviceCall.IsFlush DeviceCall.IsSync
          ((boot setup image (some .fresh)).sessionCalls tasks final) := by
  intro halways
  obtain ⟨hclean, _⟩ := halways (.mini 0) (fun _ => 0)
    [.write ⟨1, 2, .stored, .ok, .ok⟩ 0 fun _ => 5]
    { order := .stored
      writes := fun _ =>
        .fail ⟨.other, "Input/output error (os error 5)"⟩ fun _ => 0
      sync := true } rfl _ rfl
  exact hclean 0 (by decide +kernel)

end CacheEngine

end AsmCacheInject.Engine

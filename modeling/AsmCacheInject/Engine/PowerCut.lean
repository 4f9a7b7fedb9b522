import AsmCacheInject.Data.Persistence
import AsmCacheInject.Engine.EvictionSync
import AsmCacheInject.Engine.FlushCycle

namespace AsmCacheInject.Engine

open AsmCacheInject.Cache
open AsmCacheInject.Data
open AsmCacheInject.Flush

variable {setup : Setup}

/-! Power cuts.  Every `pwrite` of a session and every successful `fsync` is an
effect on a device with a volatile cache; the power may go between any two of
them. -/

abbrev BlockEffect (setup : Setup) :=
  Persistence.Effect (Lba setup) (Block setup)

/-- A device call and what it does to the device. -/
structure Issued (setup : Setup) where
  call : DeviceCall setup
  effect : Option (BlockEffect setup)

/-- How the device answers the writes of a task. -/
def Task.outcome : Task setup → Lba setup → IoOutcome setup
  | .read env _, _ => env.evict
  | .write env _ _, _ => env.evict
  | .turn env, lba => env.writes lba

namespace CacheEngine

/-- A write carries the cached block of its LBA, whole or as a failure left it. -/
def issue (engine : CacheEngine setup) (task : Task setup) :
    DeviceCall setup → Issued setup
  | .pwrite origin lba succeeded =>
      ⟨.pwrite origin lba succeeded,
        some (.write lba ((task.outcome lba).leaves (engine.content lba)))⟩
  | .fsync succeeded => ⟨.fsync succeeded, if succeeded then some .sync else none⟩

def taskIssued (engine : CacheEngine setup) (task : Task setup) :
    List (Issued setup) :=
  (engine.taskCalls task).map (engine.issue task)

def tasksIssued (engine : CacheEngine setup) :
    List (Task setup) → List (Issued setup)
  | [] => []
  | task :: rest =>
      engine.taskIssued task ++ tasksIssued (engine.performTask task) rest

def effects (issued : List (Issued setup)) : List (BlockEffect setup) :=
  issued.filterMap Issued.effect

theorem effects_append (first second : List (Issued setup)) :
    effects (first ++ second) = effects first ++ effects second :=
  List.filterMap_append

def taskEvents (engine : CacheEngine setup) : Task setup → List (BlockEvent setup)
  | .read env lba =>
      (Request.read env lba).acknowledged (engine.perform (.read env lba)).1
  | .write env lba buf =>
      (Request.write env lba buf).acknowledged
        (engine.perform (.write env lba buf)).1
  | .turn _ => []

def tasksEvents (engine : CacheEngine setup) :
    List (Task setup) → List (BlockEvent setup)
  | [] => []
  | task :: rest =>
      engine.taskEvents task ++ tasksEvents (engine.performTask task) rest

/-! The effects are those of the engine's device. -/

variable {engine : CacheEngine setup} {lost : List Nat}

theorem readLba_writeLba_eq_update (image : Image) (lba : Lba setup)
    (block : Block setup) :
    (readLba (writeLba image lba block) : Lba setup → Block setup) =
      Function.update (readLba image) lba block := by
  funext other
  rw [readLba_writeLba]
  by_cases heq : other = lba
  · subst heq
    simp
  · simp [heq]

theorem Accounted.eviction_settle (haccounted : engine.Accounted lost)
    {env : OpEnv setup} {task : Task setup}
    (hanswers : ∀ lba, task.outcome lba = env.evict) :
    (readLba (engine.allocateOrEvict env).2.device : Lba setup → Block setup) =
      Persistence.settle (readLba engine.device)
        (effects ((engine.evictionCalls env).map (engine.issue task))) := by
  have hvictim : ∀ {candidate : EvictionCandidate (Lba setup)},
      selectEvictionCandidate env.order engine.table = some candidate →
      engine.content candidate.lba = engine.blocks candidate.poolIndex :=
    fun hselect =>
      content_of_cached (selectEvictionCandidate_spec haccounted.keyed hselect).1
  rcases engine.allocateOrEvict_cases env with
    ⟨slot, rest, hfree, heq⟩ | ⟨hfree, hselect, heq⟩ |
    ⟨candidate, error, torn, hfree, hselect, hflush, hevict, heq⟩ |
    ⟨candidate, hfree, hselect, hflush, hevict, heq⟩ |
    ⟨candidate, hfree, hselect, hflush, heq⟩
  · simp [heq, evictionCalls, allocate, hfree, effects, Persistence.settle]
  · simp [heq, evictionCalls, allocate, hfree, hselect, effects, Persistence.settle]
  · simp [heq, evictionCalls, allocate, hfree, hselect, hflush, hevict, hanswers,
      issue, effects, IoOutcome.leaves, Persistence.settle,
      readLba_writeLba_eq_update]
  · simp [heq, evictionCalls, allocate, hfree, hselect, hflush, hevict, hanswers,
      issue, effects, IoOutcome.leaves, Persistence.settle,
      readLba_writeLba_eq_update, hvictim hselect]
  · simp [heq, evictionCalls, allocate, hfree, hselect, hflush, effects,
      Persistence.settle]

theorem Accounted.read_settle (haccounted : engine.Accounted lost)
    (env : OpEnv setup) (lba : Lba setup) :
    (readLba (engine.cachedRead env lba).2.device : Lba setup → Block setup) =
      Persistence.settle (readLba engine.device)
        (effects (engine.taskIssued (.read env lba.val))) := by
  have hevicted := haccounted.eviction_settle
    (show ∀ other, Task.outcome (.read env lba.val) other = env.evict from fun _ => rfl)
  rw [taskIssued, taskCalls]
  rcases engine.cachedRead_cases env lba with
    ⟨slot, hslot, heq⟩ | ⟨habsent, error, left, hcall, heq⟩ |
    ⟨habsent, slot, held, error, torn, hcall, _, heq⟩ |
    ⟨habsent, slot, held, hcall, _, heq⟩
  · rw [readCalls_of_hit hslot, heq]
    rfl
  · rw [readCalls_of_miss habsent, heq, ← hevicted, hcall]
  · rw [readCalls_of_miss habsent, heq, ← hevicted, hcall]
    rfl
  · rw [readCalls_of_miss habsent, heq, ← hevicted, hcall]
    rfl

theorem Accounted.write_settle (haccounted : engine.Accounted lost)
    (env : OpEnv setup) (lba : Lba setup) (buf : Block setup) :
    (readLba (engine.cachedWrite env lba buf).2.device : Lba setup → Block setup) =
      Persistence.settle (readLba engine.device)
        (effects (engine.taskIssued (.write env lba.val buf))) := by
  have hevicted := haccounted.eviction_settle
    (show ∀ other, Task.outcome (.write env lba.val buf) other = env.evict from
      fun _ => rfl)
  rw [taskIssued, taskCalls]
  rcases engine.cachedWrite_cases env lba buf with
    ⟨hreadOnly, heq⟩ | ⟨_, slot, _, hslot, heq⟩ |
    ⟨hwritable, habsent, error, left, hcall, heq⟩ |
    ⟨hwritable, habsent, slot, held, flusher, hcall, heq⟩
  · rw [heq]
    simp [writeCalls, hreadOnly, effects, Persistence.settle]
  · rw [writeCalls_of_hit hslot, heq]
    rfl
  · rw [writeCalls_of_miss hwritable habsent, heq, ← hevicted, hcall]
  · rw [writeCalls_of_miss hwritable habsent, heq, ← hevicted, hcall]
    rfl

theorem flushLoop_settle (writes : Lba setup → IoOutcome setup)
    (snapshot : List (Lba setup × Nat)) (flushed : Nat)
    (engine : CacheEngine setup) :
    (readLba (flushLoop writes snapshot flushed engine).2.device :
        Lba setup → Block setup) =
      Persistence.settle (readLba engine.device) (snapshot.map fun pair =>
        .write pair.1 ((writes pair.1).leaves (engine.blocks pair.2))) := by
  induction snapshot generalizing flushed engine with
  | nil => rfl
  | cons pair rest ih =>
      rw [flushLoop_cons, ih]
      simp only [settle, List.map_cons, Persistence.settle,
        readLba_writeLba_eq_update]

theorem Accounted.turn_effects (haccounted : engine.Accounted lost)
    (env : CycleEnv setup) :
    effects (engine.taskIssued (.turn env)) =
      (engine.table.dirtyEntries env.order).map (fun pair =>
        .write pair.1 ((env.writes pair.1).leaves (engine.blocks pair.2))) ++
      if 0 < (engine.flushDirtyBlocks env.order env.writes).1 ∧ env.sync = true then
        [.sync]
      else [] := by
  have hwrites : ∀ pair ∈ engine.table.dirtyEntries env.order,
      engine.content pair.1 = engine.blocks pair.2 :=
    fun pair hpair => content_of_cached
      ((LbaTable.mem_dirtyEntries_iff haccounted.keyed env.order).mp hpair).1
  rw [taskIssued, taskCalls, turnCalls, List.map_append, effects_append,
    flushLoopCalls_eq_map]
  congr 1
  · simp only [effects, List.map_map, List.filterMap_map]
    rw [← List.filterMap_eq_map]
    apply List.filterMap_congr
    intro pair hpair
    simp [issue, Task.outcome, hwrites pair hpair]
  · by_cases hflushed : 0 < (engine.flushDirtyBlocks env.order env.writes).1
    · cases hsync : env.sync with
      | true => simp [hflushed, effects, issue]
      | false => simp [hflushed, effects, issue]
    · simp [hflushed, effects]

theorem Accounted.turn_settle (haccounted : engine.Accounted lost)
    (env : CycleEnv setup) :
    (readLba (engine.flushTurn env).2.device : Lba setup → Block setup) =
      Persistence.settle (readLba engine.device)
        (effects (engine.taskIssued (.turn env))) := by
  have hcycle : ∀ flusher : Option FlushChannel,
      (readLba (CacheEngine.flushDirtyBlocks env.order env.writes
        { engine with flusher := flusher }).2.device : Lba setup → Block setup) =
      Persistence.settle (readLba engine.device)
        ((engine.table.dirtyEntries env.order).map fun pair =>
          .write pair.1 ((env.writes pair.1).leaves (engine.blocks pair.2))) :=
    fun flusher => flushLoop_settle env.writes _ 0 { engine with flusher := flusher }
  have htail : Persistence.settle (readLba engine.device)
      (effects (engine.taskIssued (.turn env))) =
        Persistence.settle (readLba engine.device)
          ((engine.table.dirtyEntries env.order).map fun pair =>
            .write pair.1 ((env.writes pair.1).leaves (engine.blocks pair.2))) := by
    rw [haccounted.turn_effects, Persistence.settle_append]
    split
    · rfl
    · rfl
  rw [htail, CacheEngine.flushTurn]
  split
  · exact hcycle engine.flusher
  · exact hcycle _

theorem Accounted.task_settle (haccounted : engine.Accounted lost)
    (task : Task setup) :
    (readLba (engine.performTask task).device : Lba setup → Block setup) =
      Persistence.settle (readLba engine.device)
        (effects (engine.taskIssued task)) := by
  cases task with
  | read env lba =>
      by_cases hlba : lba < setup.maxLba
      · rw [engine.performTask_read env ⟨lba, hlba⟩]
        exact haccounted.read_settle env ⟨lba, hlba⟩
      · obtain ⟨hsame, hcalls⟩ := engine.performTask_read_outside env hlba
        rw [hsame, taskIssued, hcalls]
        rfl
  | write env lba buf =>
      by_cases hlba : lba < setup.maxLba
      · rw [engine.performTask_write env ⟨lba, hlba⟩]
        exact haccounted.write_settle env ⟨lba, hlba⟩ buf
      · obtain ⟨hsame, hcalls⟩ := engine.performTask_write_outside env hlba buf
        rw [hsame, taskIssued, hcalls]
        rfl
  | turn env => exact haccounted.turn_settle env

theorem Accounted.tasks_settle (haccounted : engine.Accounted lost)
    (tasks : List (Task setup)) :
    (readLba (engine.runTasks tasks).device : Lba setup → Block setup) =
      Persistence.settle (readLba engine.device)
        (effects (engine.tasksIssued tasks)) := by
  induction tasks generalizing engine lost with
  | nil => rfl
  | cons task rest ih =>
      obtain ⟨lostNext, hslots⟩ := haccounted.performTask task
      rw [tasksIssued, effects_append, Persistence.settle_append,
        ← haccounted.task_settle]
      exact ih hslots

theorem tasksIssued_append (first second : List (Task setup))
    (engine : CacheEngine setup) :
    engine.tasksIssued (first ++ second) =
      engine.tasksIssued first ++ (engine.runTasks first).tasksIssued second := by
  induction first generalizing engine with
  | nil => rfl
  | cons task rest ih =>
      simp only [List.cons_append, tasksIssued, ih, List.append_assoc]
      rfl

/-! Every block written is the one the client expects at that time, unless the
call failed. -/

theorem Accounted.mem_evictionCalls (haccounted : engine.Accounted lost)
    {env : OpEnv setup} {origin : Origin} {lba : Lba setup} {succeeded : Bool}
    (hmem : .pwrite origin lba succeeded ∈ engine.evictionCalls env) :
    engine.table.dirtyOf lba = some true ∧ succeeded = env.evict.succeeds := by
  unfold evictionCalls at hmem
  split at hmem
  · cases hmem
  · split at hmem
    · cases hmem
    · next candidate hselect =>
      split at hmem
      · next hflush =>
        cases List.mem_singleton.mp hmem
        have hdirty := (selectEvictionCandidate_spec haccounted.keyed hselect).2
        rw [hflush] at hdirty
        exact ⟨hdirty, rfl⟩
      · cases hmem

/-- A task writes dirty blocks only, and the flag of a write is the answer of
the device. -/
theorem Accounted.mem_taskCalls (haccounted : engine.Accounted lost)
    {task : Task setup} {origin : Origin} {lba : Lba setup} {succeeded : Bool}
    (hmem : .pwrite origin lba succeeded ∈ engine.taskCalls task) :
    engine.table.dirtyOf lba = some true ∧
      succeeded = (task.outcome lba).succeeds := by
  cases task with
  | read env address =>
      simp only [taskCalls, readCalls] at hmem
      split at hmem
      · split at hmem
        · cases hmem
        · exact haccounted.mem_evictionCalls hmem
      · cases hmem
  | write env address buf =>
      simp only [taskCalls, writeCalls] at hmem
      split at hmem
      · split at hmem
        · cases hmem
        · split at hmem
          · cases hmem
          · exact haccounted.mem_evictionCalls hmem
      · cases hmem
  | turn env =>
      rcases List.mem_append.mp hmem with hwrite | hsync
      · obtain ⟨written, hdirty, heq⟩ := mem_flushLoopCalls.mp hwrite
        cases heq
        exact ⟨(haccounted.mem_snapshot_iff env.order).mp hdirty, rfl⟩
      · split at hsync
        · simp at hsync
        · cases hsync

section Current

variable {image : Image} {logical : Lba setup → Block setup}

theorem Coherent.taskIssued (hcoherent : Coherent image logical engine)
    (haccounted : engine.Accounted lost)
    {task : Task setup} {issued : Issued setup} {lba : Lba setup}
    {block : Block setup} (hmem : issued ∈ engine.taskIssued task)
    (hwrites : issued.effect = some (.write lba block)) :
    block = logical lba ∨
      ∃ origin, issued = ⟨.pwrite origin lba false, some (.write lba block)⟩ := by
  obtain ⟨call, hcall, rfl⟩ := List.mem_map.mp hmem
  cases call with
  | fsync succeeded =>
      simp only [issue] at hwrites
      split at hwrites
      · cases hwrites
      · cases hwrites
  | pwrite origin written succeeded =>
      cases hwrites
      obtain ⟨_, hanswer⟩ := haccounted.mem_taskCalls hcall
      cases houtcome : task.outcome lba with
      | ok =>
          left
          exact hcoherent.content lba
      | fail error torn =>
          right
          rw [houtcome] at hanswer
          subst hanswer
          refine ⟨origin, ?_⟩
          rw [issue, houtcome]
          rfl

theorem Coherent.performTask (hcoherent : Coherent image logical engine)
    (haccounted : engine.Accounted lost) (task : Task setup) :
    Coherent image (Register.replay logical (engine.taskEvents task))
      (engine.performTask task) := by
  cases task with
  | read env lba => exact (hcoherent.perform haccounted (.read env lba)).1
  | write env lba buf => exact (hcoherent.perform haccounted (.write env lba buf)).1
  | turn env =>
      have hcycle : ∀ flusher : Option FlushChannel,
          Coherent image logical (CacheEngine.flushDirtyBlocks env.order env.writes
            { engine with flusher := flusher }).2 := by
        intro flusher
        have hsame : Coherent image logical
            { engine with flusher := flusher } :=
          hcoherent.same_view rfl rfl rfl rfl
        exact (hsame.perform (haccounted.rechannel flusher)
          (.flush env.order env.writes)).1
      simp only [CacheEngine.performTask, CacheEngine.flushTurn]
      split
      · exact hcycle engine.flusher
      · exact hcycle _

theorem Coherent.runTasks (hcoherent : Coherent image logical engine)
    (haccounted : engine.Accounted lost) (tasks : List (Task setup)) :
    Coherent image (Register.replay logical (engine.tasksEvents tasks))
      (engine.runTasks tasks) := by
  induction tasks generalizing engine logical lost with
  | nil => exact hcoherent
  | cons task rest ih =>
      obtain ⟨lostNext, hslots⟩ := haccounted.performTask task
      rw [tasksEvents, Register.replay_append]
      exact ih (hcoherent.performTask haccounted task) hslots

theorem Coherent.tasksIssued (hcoherent : Coherent image logical engine)
    (haccounted : engine.Accounted lost) {tasks : List (Task setup)}
    {issued : Issued setup} {lba : Lba setup} {block : Block setup}
    (hmem : issued ∈ engine.tasksIssued tasks)
    (hwrites : issued.effect = some (.write lba block)) :
    (∃ seen, seen <+: engine.tasksEvents tasks ∧
      block = Register.replay logical seen lba) ∨
    ∃ origin, issued = ⟨.pwrite origin lba false, some (.write lba block)⟩ := by
  induction tasks generalizing engine logical lost with
  | nil => cases hmem
  | cons task rest ih =>
      rcases List.mem_append.mp hmem with hfirst | hlater
      · rcases hcoherent.taskIssued haccounted hfirst hwrites with hcurrent | hfailed
        · exact .inl ⟨[], List.nil_prefix, hcurrent⟩
        · exact .inr hfailed
      · obtain ⟨lostNext, hslots⟩ := haccounted.performTask task
        rcases ih (hcoherent.performTask haccounted task) hslots hlater with
          ⟨seen, hseen, hblock⟩ | hfailed
        · left
          refine ⟨engine.taskEvents task ++ seen,
            (List.prefix_append_right_inj _).mpr hseen, ?_⟩
          rw [Register.replay_append]
          exact hblock
        · exact .inr hfailed

/-- The same up to a power cut inside the task `last`. -/
theorem Coherent.cutIssued (hcoherent : Coherent image logical engine)
    (haccounted : engine.Accounted lost) {done : List (Task setup)}
    {last : Task setup} {cut : List (Issued setup)}
    (hcut : cut <+: (engine.runTasks done).taskIssued last)
    {issued : Issued setup} {lba : Lba setup} {block : Block setup}
    (hmem : issued ∈ engine.tasksIssued done ++ cut)
    (hwrites : issued.effect = some (.write lba block)) :
    (∃ seen, seen <+: engine.tasksEvents done ∧
      block = Register.replay logical seen lba) ∨
    ∃ origin, issued = ⟨.pwrite origin lba false, some (.write lba block)⟩ := by
  rcases List.mem_append.mp hmem with hdone | hlast
  · exact hcoherent.tasksIssued haccounted hdone hwrites
  · obtain ⟨lostLast, hslots⟩ := haccounted.runTasks done
    rcases (hcoherent.runTasks haccounted done).taskIssued hslots
      (hcut.subset hlast) hwrites with hblock | hfailed
    · exact .inl ⟨_, List.prefix_rfl, hblock⟩
    · exact .inr hfailed

end Current

/-- A turn that writes every dirty block and syncs the device ends with the
sync, and leaves nothing that is not on the device. -/
theorem Accounted.turn_synced (haccounted : engine.Accounted lost)
    {env : CycleEnv setup} (hdirty : engine.HasDirty)
    (hwrites : ∀ lba, engine.table.dirtyOf lba = some true →
      (env.writes lba).succeeds = true) (hsync : env.sync = true) :
    (∃ writes, effects (engine.taskIssued (.turn env)) = writes ++ [.sync]) ∧
      ∀ lba, (engine.flushTurn env).2.table.dirtyOf lba ≠ some true := by
  constructor
  · obtain ⟨lba, hlba⟩ := hdirty
    have hflushes : 0 < (engine.flushDirtyBlocks env.order env.writes).1 :=
      (haccounted.flushed_pos_iff env).mpr ⟨lba, hlba, hwrites lba hlba⟩
    rw [haccounted.turn_effects, if_pos ⟨hflushes, hsync⟩]
    exact ⟨_, rfl⟩
  · intro lba hstill
    obtain ⟨hbefore, hfails⟩ := (haccounted.dirtyOf_flushTurn env lba).mp hstill
    rw [hwrites lba hbefore] at hfails
    cases hfails

/-- After a turn that found something dirty, wrote all of it and synced, a
power cut between any two later device calls, here after the calls `cut` of the
task `last`, costs no block anything that was acknowledged before the turn.  It
comes back with its state at the turn or after some of the calls acknowledged
since, unless a write of that block was issued since and failed, and left what
came back. -/
theorem power_cut_keeps_synced (image : Image) (flusher : Option FlushChannel)
    {before done : List (Task setup)} {env : CycleEnv setup} {last : Task setup}
    (hdirty : ((boot setup image flusher).runTasks before).HasDirty)
    (hwrites : ∀ lba,
      ((boot setup image flusher).runTasks before).table.dirtyOf lba = some true →
      (env.writes lba).succeeds = true)
    (hsync : env.sync = true) {cut : List (Issued setup)}
    (hcut : cut <+: ((boot setup image flusher).runTasks
      (before ++ .turn env :: done)).taskIssued last)
    {lba : Lba setup} {block : Block setup}
    (hsurvives : Persistence.Survives (readLba image)
      (effects ((boot setup image flusher).tasksIssued
        (before ++ .turn env :: done) ++ cut)) lba block) :
    (∃ seen, seen <+: ((boot setup image flusher).runTasks
        (before ++ [.turn env])).tasksEvents done ∧
      block = Register.replay (readLba image)
        ((boot setup image flusher).tasksEvents before ++ seen) lba) ∨
    ∃ origin, ⟨.pwrite origin lba false, some (.write lba block)⟩ ∈
      ((boot setup image flusher).runTasks
        (before ++ [.turn env])).tasksIssued done ++ cut := by
  have hboot : (boot setup image flusher).Accounted [] :=
    Accounted.boot image flusher
  obtain ⟨lost, haccounted⟩ := hboot.runTasks before
  obtain ⟨⟨writes, hends⟩, hclean⟩ := haccounted.turn_synced hdirty hwrites hsync
  have hcoherent := (Coherent.boot image flusher).runTasks hboot before
  have hturned := hcoherent.performTask haccounted (.turn env)
  have hslots := haccounted.flushTurn env
  have hrun : (boot setup image flusher).runTasks (before ++ [.turn env]) =
      ((boot setup image flusher).runTasks before).performTask (.turn env) :=
    runTasks_concat _ before _
  have hpast : effects ((boot setup image flusher).tasksIssued
      (before ++ [.turn env])) =
      effects ((boot setup image flusher).tasksIssued before) ++ writes ++
        [.sync] := by
    rw [tasksIssued_append, effects_append, List.append_assoc, ← hends]
    simp [tasksIssued]
  have hdevice : Persistence.settle (readLba image)
      (effects ((boot setup image flusher).tasksIssued before) ++ writes) =
      readLba ((boot setup image flusher).runTasks
        (before ++ [.turn env])).device := by
    rw [hboot.tasks_settle, hpast, Persistence.settle_append _ _ [Persistence.Effect.sync]]
    rfl
  have hwhole : (boot setup image flusher).tasksIssued
      (before ++ .turn env :: done) ++ cut =
      (boot setup image flusher).tasksIssued (before ++ [.turn env]) ++
        (((boot setup image flusher).runTasks
          (before ++ [.turn env])).tasksIssued done ++ cut) := by
    rw [List.append_cons before _ done, tasksIssued_append, List.append_assoc]
  rw [hwhole, effects_append, hpast] at hsurvives
  have hlast : (boot setup image flusher).runTasks (before ++ .turn env :: done) =
      (((boot setup image flusher).runTasks before).performTask
        (.turn env)).runTasks done := by
    simp [runTasks]
  rw [hlast] at hcut
  rw [hrun] at hdevice hsurvives ⊢
  rcases hsurvives.after_sync.mem with hkept | hwritten
  · left
    refine ⟨[], List.nil_prefix, ?_⟩
    rw [hkept, hdevice, ← hturned.content_eq_device (hclean lba), List.append_nil]
    exact hturned.content lba
  · obtain ⟨issued, hissued, heffect⟩ := List.mem_filterMap.mp hwritten
    rcases hturned.cutIssued hslots hcut hissued heffect with
      ⟨seen, hseen, hblock⟩ | ⟨origin, rfl⟩
    · left
      refine ⟨seen, hseen, ?_⟩
      rw [Register.replay_append]
      exact hblock
    · exact .inr ⟨origin, hissued⟩

/-- One write, one turn of the flush thread, then a power cut. -/
theorem power_cut_after_turn : ∃ block, Persistence.Survives (readLba fun _ => 0)
    (effects ((boot (.mini 0) (fun _ => 0) none).tasksIssued
      [.write ⟨1, 1, .stored, .ok, .ok⟩ 0 fun _ => 5,
        .turn ⟨.stored, fun _ => .ok, true⟩])) 0 block ∧
    block = fun _ => 5 := by
  have hsurvives : Persistence.Survives (readLba fun _ => 0)
      (effects ((boot (.mini 0) (fun _ => 0) none).tasksIssued
        [.write ⟨1, 1, .stored, .ok, .ok⟩ 0 fun _ => 5,
          .turn ⟨.stored, fun _ => .ok, true⟩] ++ [])) 0 _ :=
    ⟨_, [], (List.append_nil _).symm, List.not_mem_nil, rfl⟩
  refine ⟨_, hsurvives, ?_⟩
  have hkept := power_cut_keeps_synced (fun _ => 0) none
    (show ((boot (.mini 0) (fun _ => 0) none).runTasks
      [.write ⟨1, 1, .stored, .ok, .ok⟩ 0 fun _ => 5]).HasDirty from
        ⟨0, by decide +kernel⟩)
    (fun _ _ => rfl) rfl
    (List.nil_prefix : [] <+: CacheEngine.taskIssued _
      (.turn ⟨.stored, fun _ => .ok, true⟩)) hsurvives
  rcases hkept with ⟨seen, hseen, hblock⟩ | ⟨origin, hmem⟩
  · rw [List.prefix_nil.mp hseen] at hblock
    exact hblock
  · cases hmem

end CacheEngine

end AsmCacheInject.Engine

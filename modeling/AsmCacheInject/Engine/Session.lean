import AsmCacheInject.Data.Barrier
import AsmCacheInject.Engine.Transparency

namespace AsmCacheInject.Engine

open AsmCacheInject.Cache
open AsmCacheInject.Data
open AsmCacheInject.Flush

variable {setup : Setup}

/-! One started session: client operations and turns of the flush thread, each
run to completion, and a final `stop`.  Beside the engine state we follow the
device calls that write, and the `fsync` calls between them. -/

inductive Origin
  | eviction
  | cycle
  deriving DecidableEq, Repr

inductive DeviceCall (setup : Setup)
  | pwrite (origin : Origin) (lba : Lba setup) (succeeded : Bool)
  | fsync (succeeded : Bool)
  deriving DecidableEq

/-- What the surroundings decide during one turn of the flush thread. -/
structure CycleEnv (setup : Setup) where
  order : HashOrder (CacheEntry (Lba setup))
  writes : Lba setup → IoOutcome setup
  sync : Bool

inductive Task (setup : Setup)
  | read (env : OpEnv setup) (lba : Nat)
  | write (env : OpEnv setup) (lba : Nat) (buf : Block setup)
  | turn (env : CycleEnv setup)

namespace CacheEngine

/-- `CacheEngine::start`.  A read-only engine has no flush thread. -/
def start (engine : CacheEngine setup) : CacheEngine setup :=
  if engine.flusher.isSome then engine
  else if setup.readOnly then engine
  else { engine with flusher := some .fresh }

/-- One turn of the loop in `flush_thread_main`: wait, flush, check.  The flag
tells whether the turn leaves the loop.  A failed `fsync` is only logged. -/
def flushTurn (env : CycleEnv setup) (engine : CacheEngine setup) :
    Bool × CacheEngine setup :=
  match engine.flusher with
  | none => (true, (engine.flushDirtyBlocks env.order env.writes).2)
  | some channel =>
      let (signal, drained) := channel.receive
      let received := { engine with flusher := some drained }
      (signal = some .shutdown || drained.stop,
        (received.flushDirtyBlocks env.order env.writes).2)

/-- `CacheEngine::stop`, with the turn the flush thread takes while it is
joined; `none` while that turn has not left the loop. -/
def stop (env : CycleEnv setup) (engine : CacheEngine setup) :
    Option (Except CacheError Unit × CacheEngine setup) :=
  match engine.flusher with
  | none => some (.ok (), engine)
  | some channel =>
      let signalled :=
        { engine with flusher := some channel.storeStop.sendShutdown }
      match signalled.flushTurn env with
      | (true, flushed) => some (.ok (), { flushed with flusher := none })
      | (false, _) => none

def performTask (engine : CacheEngine setup) : Task setup → CacheEngine setup
  | .read env lba => (engine.read env lba).2
  | .write env lba buf => (engine.write env lba buf).2
  | .turn env => (engine.flushTurn env).2

def runTasks (engine : CacheEngine setup) (tasks : List (Task setup)) :
    CacheEngine setup :=
  tasks.foldl performTask engine

/-! The device calls of each operation, in the order they are issued. -/

def evictionCalls (env : OpEnv setup) (engine : CacheEngine setup) :
    List (DeviceCall setup) :=
  match engine.allocate with
  | (.ok _, _) => []
  | (.error _, _) =>
      match selectEvictionCandidate env.order engine.table with
      | none => []
      | some candidate =>
          if candidate.needsFlush then
            [.pwrite .eviction candidate.lba env.evict.succeeds]
          else []

def readCalls (env : OpEnv setup) (lba : Nat) (engine : CacheEngine setup) :
    List (DeviceCall setup) :=
  if hlba : lba < setup.maxLba then
    match engine.table.getAndTouch env.now ⟨lba, hlba⟩ with
    | (some _, _) => []
    | (none, _) => engine.evictionCalls env
  else []

def writeCalls (env : OpEnv setup) (lba : Nat) (engine : CacheEngine setup) :
    List (DeviceCall setup) :=
  if hlba : lba < setup.maxLba then
    if setup.readOnly then []
    else
      match engine.table.get ⟨lba, hlba⟩ with
      | some _ => []
      | none => engine.evictionCalls env
  else []

/-- The writes of `flush_dirty_blocks`. -/
def flushLoopCalls (writes : Lba setup → IoOutcome setup) :
    List (Lba setup × Nat) → List (DeviceCall setup)
  | [] => []
  | (lba, _) :: rest =>
      .pwrite .cycle lba (writes lba).succeeds :: flushLoopCalls writes rest

/-- A whole cycle: the device is only synced when a block was flushed. -/
def turnCalls (env : CycleEnv setup) (engine : CacheEngine setup) :
    List (DeviceCall setup) :=
  flushLoopCalls env.writes (engine.table.dirtyEntries env.order) ++
    if 0 < (engine.flushDirtyBlocks env.order env.writes).1 then
      [.fsync env.sync]
    else []

def taskCalls (engine : CacheEngine setup) :
    Task setup → List (DeviceCall setup)
  | .read env lba => engine.readCalls env lba
  | .write env lba _ => engine.writeCalls env lba
  | .turn env => engine.turnCalls env

def stopCalls (env : CycleEnv setup) (engine : CacheEngine setup) :
    List (DeviceCall setup) :=
  match engine.flusher with
  | none => []
  | some _ => engine.turnCalls env

def tasksCalls (engine : CacheEngine setup) :
    List (Task setup) → List (DeviceCall setup)
  | [] => []
  | task :: rest =>
      engine.taskCalls task ++ tasksCalls (engine.performTask task) rest

def sessionCalls (engine : CacheEngine setup) (tasks : List (Task setup))
    (final : CycleEnv setup) : List (DeviceCall setup) :=
  engine.tasksCalls tasks ++ (engine.runTasks tasks).stopCalls final

theorem runTasks_concat (engine : CacheEngine setup) (past : List (Task setup))
    (task : Task setup) :
    engine.runTasks (past ++ [task]) =
      (engine.runTasks past).performTask task := by
  simp [runTasks]

theorem tasksCalls_concat (engine : CacheEngine setup)
    (past : List (Task setup)) (task : Task setup) :
    engine.tasksCalls (past ++ [task]) =
      engine.tasksCalls past ++ (engine.runTasks past).taskCalls task := by
  induction past generalizing engine with
  | nil => simp [tasksCalls, runTasks]
  | cons head rest ih =>
      simp only [List.cons_append, tasksCalls, ih, List.append_assoc]
      rfl

section Addressing

variable (engine : CacheEngine setup) (env : OpEnv setup)

theorem performTask_read (lba : Lba setup) :
    engine.performTask (.read env lba.val) = (engine.cachedRead env lba).2 := by
  simp [performTask, CacheEngine.read]

theorem performTask_write (lba : Lba setup) (buf : Block setup) :
    engine.performTask (.write env lba.val buf) =
      (engine.cachedWrite env lba buf).2 := by
  simp [performTask, CacheEngine.write]

theorem performTask_read_outside {lba : Nat} (hlba : ¬lba < setup.maxLba) :
    engine.performTask (.read env lba) = engine ∧
      engine.taskCalls (.read env lba) = [] := by
  simp [performTask, CacheEngine.read, taskCalls, readCalls, hlba]

theorem performTask_write_outside {lba : Nat} (hlba : ¬lba < setup.maxLba)
    (buf : Block setup) :
    engine.performTask (.write env lba buf) = engine ∧
      engine.taskCalls (.write env lba buf) = [] := by
  simp [performTask, CacheEngine.write, taskCalls, writeCalls, hlba]

end Addressing

/-! The slot ledger over tasks. -/

namespace Accounted

variable {engine : CacheEngine setup} {lost : List Nat}

theorem rechannel (haccounted : engine.Accounted lost)
    (flusher : Option FlushChannel) :
    CacheEngine.Accounted { engine with flusher := flusher } lost :=
  ⟨haccounted.keyed, haccounted.ledger⟩

theorem flushTurn (haccounted : engine.Accounted lost) (env : CycleEnv setup) :
    (engine.flushTurn env).2.Accounted lost := by
  unfold CacheEngine.flushTurn
  split
  · exact haccounted.flushLoop env.writes _ 0
  · exact (haccounted.rechannel _).flushLoop env.writes _ 0

theorem performTask (haccounted : engine.Accounted lost) (task : Task setup) :
    ∃ lostNext, (engine.performTask task).Accounted lostNext := by
  cases task with
  | read env lba => exact haccounted.perform (.read env lba)
  | write env lba buf => exact haccounted.perform (.write env lba buf)
  | turn env => exact ⟨lost, haccounted.flushTurn env⟩

theorem runTasks (haccounted : engine.Accounted lost)
    (tasks : List (Task setup)) :
    ∃ lostNext, (engine.runTasks tasks).Accounted lostNext := by
  induction tasks generalizing engine lost with
  | nil => exact ⟨lost, haccounted⟩
  | cons task rest ih =>
      obtain ⟨middle, hmiddle⟩ := haccounted.performTask task
      exact ih hmiddle

end Accounted

/-! The channel.  Before `stop` nobody has asked the thread to leave, so every
turn of a session goes back to waiting. -/

def Listening (engine : CacheEngine setup) : Prop :=
  ∃ channel, engine.flusher = some channel ∧ channel.stop = false ∧
    channel.pending ≠ some .shutdown

namespace Listening

variable {engine : CacheEngine setup}

theorem boot (image : Image) :
    (CacheEngine.boot setup image (some .fresh)).Listening :=
  ⟨.fresh, rfl, rfl, by simp [FlushChannel.fresh]⟩

theorem wake (hlistening : engine.Listening) : engine.wake.Listening := by
  obtain ⟨channel, hchannel, hstop, hpending⟩ := hlistening
  refine ⟨channel.wake, by simp [CacheEngine.wake, hchannel], ?_, ?_⟩
  · unfold FlushChannel.wake FlushChannel.trySend
    split <;> exact hstop
  · unfold FlushChannel.wake FlushChannel.trySend
    split
    · simp
    · exact hpending

theorem maybeWakeFlusher (hlistening : engine.Listening) :
    engine.maybeWakeFlusher.Listening := by
  simp only [CacheEngine.maybeWakeFlusher]
  split
  · exact hlistening.wake
  · exact hlistening

theorem allocateOrEvict (hlistening : engine.Listening) (env : OpEnv setup) :
    (engine.allocateOrEvict env).2.Listening := by
  rcases engine.allocateOrEvict_cases env with
    ⟨_, _, _, heq⟩ | ⟨_, _, heq⟩ | ⟨_, _, _, _, _, _, _, heq⟩ |
    ⟨_, _, _, _, _, heq⟩ | ⟨_, _, _, _, heq⟩
  · rw [heq]
    exact hlistening
  · rw [heq]
    exact hlistening
  · rw [heq]
    exact hlistening
  · rw [heq]
    exact hlistening.wake
  · rw [heq]
    exact hlistening

theorem cachedRead (hlistening : engine.Listening) (env : OpEnv setup)
    (lba : Lba setup) : (engine.cachedRead env lba).2.Listening := by
  have hheld := hlistening.allocateOrEvict env
  rcases engine.cachedRead_cases env lba with
    ⟨_, _, heq⟩ | ⟨_, _, _, hcall, heq⟩ | ⟨_, _, _, _, _, hcall, _, heq⟩ |
    ⟨_, _, _, hcall, _, heq⟩
  · rw [heq]
    exact hlistening
  all_goals
    rw [hcall] at hheld
    rw [heq]
    exact hheld

theorem cachedWrite (hlistening : engine.Listening) (env : OpEnv setup)
    (lba : Lba setup) (buf : Block setup) :
    (engine.cachedWrite env lba buf).2.Listening := by
  have hheld := hlistening.allocateOrEvict env
  unfold CacheEngine.cachedWrite
  split
  · exact hlistening
  · split
    · exact maybeWakeFlusher hlistening
    · split
      · next hcall =>
        rw [hcall] at hheld
        exact hheld
      · next hcall =>
        rw [hcall] at hheld
        exact maybeWakeFlusher hheld

theorem flushLoop (hlistening : engine.Listening)
    (writes : Lba setup → IoOutcome setup) (snapshot : List (Lba setup × Nat))
    (flushed : Nat) :
    (CacheEngine.flushLoop writes snapshot flushed engine).2.Listening := by
  induction snapshot generalizing engine flushed with
  | nil => exact hlistening
  | cons pair rest ih =>
      obtain ⟨lba, slot⟩ := pair
      cases hwrite : writes lba with
      | ok =>
          simp only [CacheEngine.flushLoop, writeBack, hwrite]
          apply ih
          exact hlistening
      | fail error torn =>
          simp only [CacheEngine.flushLoop, writeBack, hwrite]
          apply ih
          exact hlistening

theorem flushTurn (hlistening : engine.Listening) (env : CycleEnv setup) :
    (engine.flushTurn env).1 = false ∧ (engine.flushTurn env).2.Listening := by
  obtain ⟨channel, hchannel, hstop, hpending⟩ := hlistening
  simp only [CacheEngine.flushTurn, hchannel, FlushChannel.receive]
  refine ⟨Bool.or_eq_false_iff.mpr ⟨decide_eq_false hpending, hstop⟩, ?_⟩
  have hreceived : CacheEngine.Listening
      { engine with flusher := some { channel with pending := none } } :=
    ⟨_, rfl, hstop, by simp⟩
  exact hreceived.flushLoop env.writes _ 0

theorem performTask (hlistening : engine.Listening) (task : Task setup) :
    (engine.performTask task).Listening := by
  cases task with
  | read env lba =>
      simp only [CacheEngine.performTask, CacheEngine.read]
      split
      · exact hlistening.cachedRead env _
      · exact hlistening
  | write env lba buf =>
      simp only [CacheEngine.performTask, CacheEngine.write]
      split
      · exact hlistening.cachedWrite env _ buf
      · exact hlistening
  | turn env => exact (hlistening.flushTurn env).2

theorem runTasks (hlistening : engine.Listening) (tasks : List (Task setup)) :
    (engine.runTasks tasks).Listening := by
  induction tasks generalizing engine with
  | nil => exact hlistening
  | cons task rest ih => exact ih (hlistening.performTask task)

end Listening

/-! The dirty flags after a flush cycle, whichever of its writes fail. -/

def HasDirty (engine : CacheEngine setup) : Prop :=
  ∃ lba, engine.table.dirtyOf lba = some true

theorem flushLoop_dirty_iff (writes : Lba setup → IoOutcome setup)
    (snapshot : List (Lba setup × Nat)) (flushed : Nat)
    (engine : CacheEngine setup) (lba : Lba setup) :
    (flushLoop writes snapshot flushed engine).2.table.dirtyOf lba = some true ↔
      engine.table.dirtyOf lba = some true ∧
        ¬(lba ∈ snapshot.map Prod.fst ∧ (writes lba).succeeds = true) := by
  induction snapshot generalizing engine flushed with
  | nil => simp [flushLoop]
  | cons pair rest ih =>
      obtain ⟨head, slot⟩ := pair
      have hcleaned : (engine.table.markClean head).dirtyOf lba = some true ↔
          engine.table.dirtyOf lba = some true ∧ lba ≠ head := by
        rw [LbaTable.dirtyOf_markClean]
        split
        · next heq => simp [heq]
        · next hne => simp [hne]
      cases hwrite : writes head with
      | ok =>
          simp only [flushLoop, writeBack, hwrite, ih, hcleaned]
          by_cases heq : lba = head
          · subst heq
            simp [hwrite, IoOutcome.succeeds]
          · simp [heq]
      | fail error torn =>
          simp only [flushLoop, writeBack, hwrite, ih]
          by_cases heq : lba = head
          · subst heq
            simp [hwrite, IoOutcome.succeeds]
          · simp [heq]

theorem flushLoop_fst_pos (writes : Lba setup → IoOutcome setup)
    (snapshot : List (Lba setup × Nat)) (flushed : Nat)
    (engine : CacheEngine setup) :
    0 < (flushLoop writes snapshot flushed engine).1 ↔
      0 < flushed ∨ ∃ lba ∈ snapshot.map Prod.fst,
        (writes lba).succeeds = true := by
  induction snapshot generalizing engine flushed with
  | nil => simp [flushLoop]
  | cons pair rest ih =>
      obtain ⟨head, slot⟩ := pair
      cases hwrite : writes head with
      | ok => simp [flushLoop, writeBack, hwrite, ih, IoOutcome.succeeds]
      | fail error torn =>
          simp [flushLoop, writeBack, hwrite, ih, IoOutcome.succeeds]

def Flushes (env : CycleEnv setup) (engine : CacheEngine setup) : Prop :=
  ∃ lba, engine.table.dirtyOf lba = some true ∧
    (env.writes lba).succeeds = true

theorem Accounted.mem_snapshot_iff {engine : CacheEngine setup}
    {lost : List Nat} (haccounted : engine.Accounted lost)
    (order : HashOrder (CacheEntry (Lba setup))) {lba : Lba setup} :
    lba ∈ (engine.table.dirtyEntries order).map Prod.fst ↔
      engine.table.dirtyOf lba = some true := by
  constructor
  · intro hmem
    obtain ⟨⟨_, slot⟩, hpair, rfl⟩ := List.mem_map.mp hmem
    exact ((LbaTable.mem_dirtyEntries_iff haccounted.keyed order).mp hpair).2
  · exact LbaTable.dirty_mem_dirtyEntries haccounted.keyed order lba

theorem Accounted.flushed_pos_iff {engine : CacheEngine setup}
    {lost : List Nat} (haccounted : engine.Accounted lost)
    (env : CycleEnv setup) :
    0 < (engine.flushDirtyBlocks env.order env.writes).1 ↔
      engine.Flushes env := by
  rw [flushDirtyBlocks, flushLoop_fst_pos]
  simp only [haccounted.mem_snapshot_iff, Nat.lt_irrefl, false_or, Flushes]

theorem Accounted.dirtyOf_flushDirtyBlocks {engine : CacheEngine setup}
    {lost : List Nat} (haccounted : engine.Accounted lost)
    (order : HashOrder (CacheEntry (Lba setup)))
    (writes : Lba setup → IoOutcome setup) (lba : Lba setup) :
    (engine.flushDirtyBlocks order writes).2.table.dirtyOf lba = some true ↔
      engine.table.dirtyOf lba = some true ∧
        (writes lba).succeeds = false := by
  rw [flushDirtyBlocks, flushLoop_dirty_iff, haccounted.mem_snapshot_iff]
  cases (writes lba).succeeds <;> simp

theorem Accounted.dirtyOf_flushTurn {engine : CacheEngine setup}
    {lost : List Nat} (haccounted : engine.Accounted lost)
    (env : CycleEnv setup) (lba : Lba setup) :
    (engine.flushTurn env).2.table.dirtyOf lba = some true ↔
      engine.table.dirtyOf lba = some true ∧
        (env.writes lba).succeeds = false := by
  unfold CacheEngine.flushTurn
  split
  · exact haccounted.dirtyOf_flushDirtyBlocks env.order env.writes lba
  · exact (haccounted.rechannel _).dirtyOf_flushDirtyBlocks env.order
      env.writes lba

theorem Listening.stop {engine : CacheEngine setup}
    (hlistening : engine.Listening) (env : CycleEnv setup) :
    ∃ channel, engine.stop env = some (.ok (),
      { (CacheEngine.flushDirtyBlocks env.order env.writes
          { engine with flusher := some channel }).2 with flusher := none }) := by
  obtain ⟨channel, hchannel, _, _⟩ := hlistening
  have hstop : channel.storeStop.sendShutdown.stop = true := by
    unfold FlushChannel.sendShutdown FlushChannel.trySend
    split <;> rfl
  refine ⟨channel.storeStop.sendShutdown.receive.2, ?_⟩
  simp [CacheEngine.stop, hchannel, CacheEngine.flushTurn,
    FlushChannel.receive, hstop]

theorem Listening.stopCalls {engine : CacheEngine setup}
    (hlistening : engine.Listening) (env : CycleEnv setup) :
    engine.stopCalls env = engine.turnCalls env := by
  obtain ⟨channel, hchannel, _, _⟩ := hlistening
  simp [CacheEngine.stopCalls, hchannel]

end CacheEngine

end AsmCacheInject.Engine

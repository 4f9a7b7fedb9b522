import AsmCacheInject.Bench.Harmless
import AsmCacheInject.Io.Device

namespace AsmCacheInject.Bench

/-- `BenchMode::from_str`.  No character outside ASCII has a lower-case form
among the letters of the accepted words, so lowering ASCII letters is enough. -/
def BenchMode.fromStr (text : String) : Except String BenchMode :=
  match text.toLower with
  | "sequential" => .ok .sequential
  | "seq" => .ok .sequential
  | "random" => .ok .random
  | "rand" => .ok .random
  | "all" => .ok .all
  | _ => .error ("unknown bench mode: " ++ text)

end AsmCacheInject.Bench

namespace AsmCacheInject.Cli

open AsmCacheInject.Bench
open AsmCacheInject.Data
open AsmCacheInject.Data.Command
open AsmCacheInject.Engine
open AsmCacheInject.Flush
open AsmCacheInject.Io

/-! The subcommands, after argument parsing.  What they print is left out. -/

structure CacheArgs where
  device : String
  cacheSize : UInt64
  blockSize : UInt64
  flushInterval : UInt64
  dirtyWatermark : Watermark
  readOnly : Bool

structure BenchArgs where
  device : String
  mode : String
  blockCount : UInt64
  cacheSize : UInt64
  confirmWrite : Bool

structure InfoArgs where
  device : String

inductive Subcommand
  | cache (args : CacheArgs)
  | bench (args : BenchArgs)
  | info (args : InfoArgs)

/-- Everything outside the program: the answers about the device, what a run on
it meets, and the turns of the flush thread before the interrupt. -/
structure Surroundings where
  descriptors : Descriptors
  probe : Probe
  handlerSet : Bool
  turns : (setup : Setup) → List (CycleEnv setup)
  world : World

section Commands

variable (around : Surroundings)

def CacheArgs.config (args : CacheArgs) : CacheConfig where
  devicePath := args.device
  cacheSizeMb := args.cacheSize
  blockSize := args.blockSize
  flushIntervalSecs := args.flushInterval
  dirtyWatermark := args.dirtyWatermark
  readOnly := args.readOnly

/-- The sleeps of `exec_cache`: nobody calls the engine. -/
def waitForInterrupt {setup : Setup} : Step setup Unit :=
  .ofStep fun suite =>
    let turns := turnTasks suite.engine (around.turns setup)
    (.ok (), { suite with
      engine := suite.engine.runTasks turns
      log := suite.log ++ (suite.engine.tasksCalls turns).map deviceEvent })

def keepRunning {setup : Setup} : Step setup Unit := do
  waitForInterrupt around
  if around.handlerSet then stopEngine around.world else throw .panicked

def execCache (args : CacheArgs) : Report :=
  let opened := ((BlockDevice.new args.device around.probe).exec
    around.descriptors).1
  match cacheEngineNew around.world.poolAllocated
      (opened.map fun device => device.info.totalBytes) args.config with
  | .error error => .early around.world error
  | .ok setup => withEngine around.world setup (keepRunning around)

def execBench (args : BenchArgs) : Report :=
  match BenchMode.fromStr args.mode with
  | .error message => .early around.world (.config message)
  | .ok mode =>
      runBenchmarks around.world
        { devicePath := args.device
          mode := mode
          blockCount := args.blockCount
          cacheSizeMb := args.cacheSize
          includeWrites := args.confirmWrite }

def execInfo (args : InfoArgs) : Report :=
  match ((DeviceInfo.query args.device around.probe).exec
      around.descriptors).1 with
  | .error error => .early around.world error
  | .ok _ => ⟨.ok (), [], [], around.world.image⟩

def dispatch : Subcommand → Report
  | .cache args => execCache around args
  | .bench args => execBench around args
  | .info args => execInfo around args

end Commands

/-! What the subcommands do to the device. -/

variable {around : Surroundings}

theorem keepRunning_harmless {setup : Setup} {image : Image} {confirmed : Bool} :
    Maintains (Harmless image confirmed) (keepRunning around : Step setup Unit) := by
  unfold keepRunning
  apply Maintains.bind
  · intro suite hharmless
    obtain ⟨hready, hcalls, hdevice⟩ := hharmless.inert.turns (around.turns setup)
    unfold waitForInterrupt
    rw [exec_ofStep]
    simp only [hcalls, List.map_nil]
    exact hharmless.extend hready hdevice (by simp) suite.serial
  · intro _
    split
    · exact stopEngine_harmless
    · intro suite hharmless
      exact hharmless

def Subcommand.confirmed : Subcommand → Bool
  | .bench args => args.confirmWrite
  | _ => false

theorem dispatch_harmless (hrefuses : RefusesWrites around.world)
    (subcommand : Subcommand) :
    (dispatch around subcommand).Harmless around.world.image
      subcommand.confirmed := by
  cases subcommand with
  | cache args =>
      simp only [dispatch, execCache]
      split
      · exact Report.early_harmless around.world _
      · exact withEngine_harmless keepRunning_harmless
  | bench args =>
      simp only [dispatch, execBench]
      split
      · exact Report.early_harmless around.world _
      · next mode _ =>
        exact runBenchmarks_harmless hrefuses
          ⟨args.device, mode, args.blockCount, args.cacheSize, args.confirmWrite⟩
  | info args =>
      simp only [dispatch, execInfo]
      split
      · exact Report.early_harmless around.world _
      · exact ⟨by simp, rfl⟩

/-- Run from the command line the program never changes the device.  Whatever
fails, however the flush thread is scheduled and however the run ends, with the
engine stopped or only dropped, the device is left as it was found: no
subcommand syncs it, and a `pwrite` is issued only by a benchmark with writes
confirmed, and that one only on a descriptor opened read-only, which refuses
it. -/
theorem dispatch_never_writes (hrefuses : RefusesWrites around.world)
    (subcommand : Subcommand) :
    (dispatch around subcommand).image = around.world.image ∧
      (∀ mode, .fsync mode ∉ (dispatch around subcommand).log) ∧
      ∀ mode lba, .call .pwrite mode lba ∈ (dispatch around subcommand).log →
        subcommand.confirmed = true ∧ mode = .readOnly := by
  have hharmless := dispatch_harmless hrefuses subcommand
  refine ⟨hharmless.device, ?_, ?_⟩
  · intro mode hmem
    exact hharmless.log _ hmem
  · intro mode lba hmem
    exact hharmless.log _ hmem

def steadySurroundings : Surroundings where
  descriptors := ⟨.lowest, [0, 1, 2], 0⟩
  probe := ⟨true, .ok true, .ok (), .ok 4194304, .ok 512, .ok ()⟩
  handlerSet := true
  turns := fun _ => [⟨.stored, fun _ => .ok, true⟩]
  world := steadyWorld 4194304

/-- Confirmed writes, refused on the direct descriptor. -/
theorem confirmedBench_never_writes :
    (dispatch steadySurroundings
        (.bench ⟨"/dev/sda", "Seq", 1, 256, true⟩)).image = (fun _ => 0) ∧
      .call .pwrite .readWrite 0 ∉ (dispatch steadySurroundings
        (.bench ⟨"/dev/sda", "Seq", 1, 256, true⟩)).log := by
  have hrefuses : RefusesWrites steadySurroundings.world := fun _ _ _ => ⟨_, _, rfl⟩
  obtain ⟨himage, _, hwrites⟩ := dispatch_never_writes hrefuses
    (.bench ⟨"/dev/sda", "Seq", 1, 256, true⟩)
  refine ⟨himage, ?_⟩
  intro hmem
  cases (hwrites _ _ hmem).2

end AsmCacheInject.Cli

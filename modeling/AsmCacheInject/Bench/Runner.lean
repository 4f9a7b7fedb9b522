import AsmCacheInject.Data.Command
import AsmCacheInject.Engine.BlockTransfer
import AsmCacheInject.Engine.EvictionSync
import AsmCacheInject.Engine.Sizing

namespace AsmCacheInject.Bench

open AsmCacheInject.Data
open AsmCacheInject.Engine
open AsmCacheInject.Io

/-! The benchmark suite: a descriptor of its own for the direct baselines and a
cache engine over the same device.  Timing is left out, and with it the timed
columns of the report. -/

inductive BenchMode
  | sequential
  | random
  | all
  deriving DecidableEq, Repr

structure BenchConfig where
  devicePath : String
  mode : BenchMode
  blockCount : UInt64
  cacheSizeMb : UInt64
  includeWrites : Bool

def BenchConfig.engineConfig (config : BenchConfig) : CacheConfig :=
  { CacheConfig.new config.devicePath with
    cacheSizeMb := config.cacheSizeMb
    readOnly := !config.includeWrites }

inductive AccessMode
  | readOnly
  | readWrite
  deriving DecidableEq, Repr

def AccessMode.ofReadOnly : Bool → AccessMode
  | true => .readOnly
  | false => .readWrite

inductive CallKind
  | pread
  | pwrite
  deriving DecidableEq, Repr

/-- What a run shows: the blocks it asks for, through the engine or past it,
and the calls made on either descriptor. -/
inductive Event
  | addressed (lba : Nat)
  | call (kind : CallKind) (mode : AccessMode) (lba : Nat)
  | fsync (mode : AccessMode)
  deriving DecidableEq, Repr

/-- Why a run ended early; `blocked` is a call that has not returned. -/
inductive Halt
  | failed (error : CacheError)
  | panicked
  | blocked

/-- A generator of the `rand` crate: the value `gen_range(0..bound)` returns as
sample number `index` after seeding.  An empty range is a panic. -/
structure StdRng where
  sample : (seed : UInt64) → (index : Nat) → (bound : UInt64) → UInt64
  sample_lt : ∀ seed index bound, 0 < bound → sample seed index bound < bound

def StdRng.genRange (rng : StdRng) (seed : UInt64) (index : Nat)
    (bound : UInt64) : Option UInt64 :=
  if bound = 0 then none else some (rng.sample seed index bound)

def generateRandomLbas (rng : StdRng) (count maxLba seed : UInt64) :
    Option (List UInt64) :=
  (List.range count.toNat).mapM fun index => rng.genRange seed index maxLba

def benchSeed : UInt64 := 0xDEADBEEFCAFEF00D

/-- What the surroundings decide about one engine call: the turns the flush
thread takes before it, and the call's own environment. -/
structure Around (setup : Setup) where
  turns : List (CycleEnv setup)
  env : OpEnv setup

/-- Everything outside the suite.  The device is opened twice, and the second
answer need not be the first.  The kernel answers a direct transfer by its
serial number, kind, descriptor, offset (before the cast to `off_t`) and
length.  A panic unwinds, or aborts as the release profile has it. -/
structure World where
  opened : (opening : Nat) → (readOnly : Bool) → Except CacheError UInt64
  image : Image
  poolAllocated : Bool
  bufferAllocated : Nat → Bool
  rng : StdRng
  answers : Nat → CallKind → AccessMode → (offset len : UInt64) →
    List KernelAnswer
  around : (setup : Setup) → Nat → Around setup
  final : (setup : Setup) → CycleEnv setup
  unwinds : Bool

structure ReportRow where
  label : String
  cacheHits : UInt64
  cacheMisses : UInt64
  deriving DecidableEq, Repr

/-- A running suite, with the pairs it has given to `print_comparison`.
`serial` numbers allocations, transfers and engine calls. -/
structure Suite (setup : Setup) where
  engine : CacheEngine setup
  serial : Nat
  log : List Event
  printed : List (ReportRow × ReportRow)

abbrev Step (setup : Setup) (Value : Type) := Command (Suite setup) Halt Value

def settle : Option (Except CacheError Unit) → Except Halt Unit
  | none => .error .blocked
  | some (.error error) => .error (.failed error)
  | some (.ok ()) => .ok ()

section Calls

variable {setup : Setup} (world : World)

def newBuffer (size : UInt64) : Step setup Unit :=
  .ofStep fun suite =>
    match alignedBufferNew (world.bufferAllocated suite.serial) size with
    | .error error => (.error (.failed error), suite)
    | .ok () => (.ok (), { suite with serial := suite.serial + 1 })

/-- Byte `index` of the buffer that the write benchmarks fill. -/
def pattern (index : Nat) : UInt8 := (index % 256).toUInt8

def readLbaDirect (fd : AccessMode) (blockSize lba : UInt64) : Step setup Unit :=
  .ofStep fun suite =>
    let exchange := readLbaInto 0 lba blockSize
      (world.answers suite.serial .pread fd (lba * blockSize) blockSize)
      ⟨suite.engine.device, fun _ => 0⟩
    (settle exchange.outcome,
      { suite with
        serial := suite.serial + 1
        log := suite.log ++ .addressed lba.toNat ::
          exchange.attempts.map fun _ => .call .pread fd lba.toNat })

def writeLbaDirect (fd : AccessMode) (blockSize lba : UInt64) : Step setup Unit :=
  .ofStep fun suite =>
    let exchange := writeLbaFrom 0 lba blockSize
      (world.answers suite.serial .pwrite fd (lba * blockSize) blockSize)
      ⟨suite.engine.device, pattern⟩
    (settle exchange.outcome,
      { suite with
        engine := { suite.engine with device := exchange.host.device }
        serial := suite.serial + 1
        log := suite.log ++ .addressed lba.toNat ::
          exchange.attempts.map fun _ => .call .pwrite fd lba.toNat })

def engineMode (setup : Setup) : AccessMode := .ofReadOnly setup.readOnly

def deviceEvent : DeviceCall setup → Event
  | .pwrite _ lba _ => .call .pwrite (engineMode setup) lba.val
  | .fsync _ => .fsync (engineMode setup)

def fetchEvents (env : OpEnv setup) (lba : Nat) (engine : CacheEngine setup) :
    List Event :=
  if hlba : lba < setup.maxLba then
    match engine.table.slotOf ⟨lba, hlba⟩, (engine.allocateOrEvict env).1 with
    | none, .ok _ => [.call .pread (engineMode setup) lba]
    | _, _ => []
  else []

def turnTasks (engine : CacheEngine setup) (turns : List (CycleEnv setup)) :
    List (Task setup) :=
  if engine.flusher.isSome then turns.map .turn else []

def readCached (lba : UInt64) : Step setup Bool :=
  .ofStep fun suite =>
    let around := world.around setup suite.serial
    let turns := turnTasks suite.engine around.turns
    let ready := suite.engine.runTasks turns
    let calls := suite.engine.tasksCalls turns ++
      ready.readCalls around.env lba.toNat
    let read := ready.read around.env lba.toNat
    (read.1.mapError Halt.failed |>.map ReadResult.cacheHit,
      { suite with
        engine := read.2
        serial := suite.serial + 1
        log := suite.log ++ .addressed lba.toNat :: (calls.map deviceEvent ++
          fetchEvents around.env lba.toNat ready) })

def writeCached (lba : UInt64) : Step setup Bool :=
  .ofStep fun suite =>
    let around := world.around setup suite.serial
    let turns := turnTasks suite.engine around.turns
    let ready := suite.engine.runTasks turns
    let calls := suite.engine.tasksCalls turns ++
      ready.writeCalls around.env lba.toNat
    let written := ready.write around.env lba.toNat fun index => pattern index.val
    (written.1.mapError Halt.failed |>.map WriteResult.wasUpdate,
      { suite with
        engine := written.2
        serial := suite.serial + 1
        log := suite.log ++ .addressed lba.toNat :: calls.map deviceEvent })

def stopEngine : Step setup Unit :=
  .ofStep fun suite =>
    match suite.engine.stop (world.final setup) with
    | none => (.error .blocked, suite)
    | some (result, stopped) =>
        (result.mapError Halt.failed,
          { suite with
            engine := stopped
            log := suite.log ++
              (suite.engine.stopCalls (world.final setup)).map deviceEvent })

def printComparison (direct cached : ReportRow) : Step setup Unit :=
  .ofStep fun suite =>
    (.ok (), { suite with printed := suite.printed ++ [(direct, cached)] })

end Calls

/-! The eight benchmarks.  Each allocates its buffer, then runs its calls in
order and leaves at the first failure. -/

structure SequentialResult where
  operation : String
  cached : Bool
  blockCount : UInt64
  blockSize : UInt64
  cacheHits : UInt64
  cacheMisses : UInt64

structure RandomResult where
  operation : String
  cached : Bool
  opCount : UInt64
  blockSize : UInt64
  lbaRange : UInt64
  cacheHits : UInt64
  cacheMisses : UInt64

section Benchmarks

variable {setup : Setup} (world : World)

def sequentialLbas (blockCount : UInt64) : List UInt64 :=
  (List.range blockCount.toNat).map UInt64.ofNat

def randomLbas (opCount maxLba : UInt64) : Step setup (List UInt64) :=
  match generateRandomLbas world.rng opCount maxLba benchSeed with
  | none => throw .panicked
  | some lbas => pure lbas

def eachLba (call : UInt64 → Step setup Unit) (lbas : List UInt64) :
    Step setup Unit :=
  lbas.foldlM (fun _ lba => call lba) ()

def tally (call : UInt64 → Step setup Bool) (lbas : List UInt64) :
    Step setup (UInt64 × UInt64) :=
  lbas.foldlM (fun counts lba => do
    let hit ← call lba
    return if hit then (counts.1 + 1, counts.2) else (counts.1, counts.2 + 1))
    (0, 0)

def engineBlockSize (setup : Setup) : UInt64 := .ofNat setup.blockSize

def benchSequentialReadDirect (fd : AccessMode) (blockSize blockCount : UInt64) :
    Step setup SequentialResult := do
  newBuffer world blockSize
  eachLba (readLbaDirect world fd blockSize) (sequentialLbas blockCount)
  return ⟨"Sequential Read", false, blockCount, blockSize, 0, blockCount⟩

def benchSequentialReadCached (blockCount : UInt64) :
    Step setup SequentialResult := do
  newBuffer world (engineBlockSize setup)
  let (hits, misses) ← tally (readCached world) (sequentialLbas blockCount)
  return ⟨"Sequential Read", true, blockCount, engineBlockSize setup, hits, misses⟩

def benchSequentialWriteDirect (fd : AccessMode) (blockSize blockCount : UInt64) :
    Step setup SequentialResult := do
  newBuffer world blockSize
  eachLba (writeLbaDirect world fd blockSize) (sequentialLbas blockCount)
  return ⟨"Sequential Write", false, blockCount, blockSize, 0, 0⟩

def benchSequentialWriteCached (blockCount : UInt64) :
    Step setup SequentialResult := do
  newBuffer world (engineBlockSize setup)
  let (updates, inserts) ← tally (writeCached world) (sequentialLbas blockCount)
  return ⟨"Sequential Write", true, blockCount, engineBlockSize setup, updates,
    inserts⟩

def benchRandomReadDirect (fd : AccessMode) (blockSize opCount maxLba : UInt64) :
    Step setup RandomResult := do
  let lbas ← randomLbas world opCount maxLba
  newBuffer world blockSize
  eachLba (readLbaDirect world fd blockSize) lbas
  return ⟨"Random Read", false, opCount, blockSize, maxLba, 0, opCount⟩

def benchRandomReadCached (opCount maxLba : UInt64) :
    Step setup RandomResult := do
  let lbas ← randomLbas world opCount maxLba
  newBuffer world (engineBlockSize setup)
  let (hits, misses) ← tally (readCached world) lbas
  return ⟨"Random Read", true, opCount, engineBlockSize setup, maxLba, hits, misses⟩

def benchRandomWriteDirect (fd : AccessMode) (blockSize opCount maxLba : UInt64) :
    Step setup RandomResult := do
  let lbas ← randomLbas world opCount maxLba
  newBuffer world blockSize
  eachLba (writeLbaDirect world fd blockSize) lbas
  return ⟨"Random Write", false, opCount, blockSize, maxLba, 0, 0⟩

def benchRandomWriteCached (opCount maxLba : UInt64) :
    Step setup RandomResult := do
  let lbas ← randomLbas world opCount maxLba
  newBuffer world (engineBlockSize setup)
  let (updates, inserts) ← tally (writeCached world) lbas
  return ⟨"Random Write", true, opCount, engineBlockSize setup, maxLba, updates,
    inserts⟩

/-! The two parts of `run_benchmarks`, and the end of it. -/

def sequentialReads (fd : AccessMode) (blockSize count : UInt64) :
    Step setup Unit := do
  let direct ← benchSequentialReadDirect world fd blockSize count
  let cached ← benchSequentialReadCached world count
  printComparison ⟨"Seq Read (direct)", 0, direct.blockCount⟩
    ⟨"Seq Read (cached)", cached.cacheHits, cached.cacheMisses⟩
  let warm ← benchSequentialReadCached world count
  printComparison ⟨"Seq Read (direct)", 0, direct.blockCount⟩
    ⟨"Seq Read (warm cache)", warm.cacheHits, warm.cacheMisses⟩

def sequentialWrites (fd : AccessMode) (blockSize count : UInt64) :
    Step setup Unit := do
  let _ ← benchSequentialWriteDirect world fd blockSize count
  let cached ← benchSequentialWriteCached world count
  printComparison ⟨"Seq Write (direct)", 0, 0⟩
    ⟨"Seq Write (cached)", cached.cacheHits, cached.cacheMisses⟩

def sequentialPart (config : BenchConfig) (fd : AccessMode)
    (blockSize count : UInt64) : Step setup Unit :=
  if config.mode = .sequential ∨ config.mode = .all then do
    sequentialReads world fd blockSize count
    if config.includeWrites then sequentialWrites world fd blockSize count
    else pure ()
  else pure ()

def randomReads (fd : AccessMode) (blockSize count maxLba : UInt64) :
    Step setup Unit := do
  let direct ← benchRandomReadDirect world fd blockSize count maxLba
  let cached ← benchRandomReadCached world count maxLba
  printComparison ⟨"Rnd Read (direct)", 0, direct.opCount⟩
    ⟨"Rnd Read (cached)", cached.cacheHits, cached.cacheMisses⟩
  let warm ← benchRandomReadCached world count maxLba
  printComparison ⟨"Rnd Read (direct)", 0, direct.opCount⟩
    ⟨"Rnd Read (warm cache)", warm.cacheHits, warm.cacheMisses⟩

def randomWrites (fd : AccessMode) (blockSize count maxLba : UInt64) :
    Step setup Unit := do
  let _ ← benchRandomWriteDirect world fd blockSize count maxLba
  let cached ← benchRandomWriteCached world count maxLba
  printComparison ⟨"Rnd Write (direct)", 0, 0⟩
    ⟨"Rnd Write (cached)", cached.cacheHits, cached.cacheMisses⟩

def randomPart (config : BenchConfig) (fd : AccessMode)
    (blockSize count maxLba : UInt64) : Step setup Unit :=
  if config.mode = .random ∨ config.mode = .all then do
    randomReads world fd blockSize count maxLba
    if config.includeWrites then randomWrites world fd blockSize count maxLba
    else pure ()
  else pure ()

def benchmarks (config : BenchConfig) (fd : AccessMode)
    (blockSize count maxLba : UInt64) : Step setup Unit := do
  sequentialPart world config fd blockSize count
  randomPart world config fd blockSize count maxLba
  stopEngine world

/-! The end of a run.  Whichever way the function is left, its engine is dropped,
and `BackgroundFlusher::drop` shuts down a flush thread that is still there, as
`stop` does. -/

def dropEngine (suite : Suite setup) : Suite setup :=
  ((stopEngine world).exec suite).2

def unwind : Except Halt Unit → Suite setup → Suite setup
  | .error .blocked, suite => suite
  | .error .panicked, suite => if world.unwinds then dropEngine world suite else suite
  | .error (.failed _), suite => dropEngine world suite
  | .ok (), suite => dropEngine world suite

end Benchmarks

structure Report where
  result : Except Halt Unit
  log : List Event
  printed : List (ReportRow × ReportRow)
  image : Image

def Report.early (world : World) (error : CacheError) : Report :=
  ⟨.error (.failed error), [], [], world.image⟩

def withEngine (world : World) (setup : Setup) (body : Step setup Unit) : Report :=
  let ran := body.exec ⟨(CacheEngine.boot setup world.image none).start, 0, [], []⟩
  let left := unwind world ran.1 ran.2
  ⟨ran.1, left.log, left.printed, left.engine.device⟩

def maxLba (totalBytes blockSize : UInt64) : UInt64 :=
  if blockSize = 0 then 0 else totalBytes / blockSize

def runBenchmarks (world : World) (config : BenchConfig) : Report :=
  match world.opened 0 true with
  | .error error => .early world error
  | .ok totalBytes =>
      let fd := AccessMode.ofReadOnly true
      let blockSize : UInt64 := 4096
      let maxLba := maxLba totalBytes blockSize
      let effectiveCount := min config.blockCount maxLba
      match cacheEngineNew world.poolAllocated
          (world.opened 1 config.engineConfig.readOnly) config.engineConfig with
      | .error error => .early world error
      | .ok setup =>
          withEngine world setup
            (benchmarks world config fd blockSize effectiveCount maxLba)

def printedBy (world : World) (config : BenchConfig) :
    List (ReportRow × ReportRow) :=
  (runBenchmarks world config).printed

end AsmCacheInject.Bench

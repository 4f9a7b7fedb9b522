import AsmCacheInject.Bench.Runner
import AsmCacheInject.Engine.Failures

namespace AsmCacheInject.Bench

open AsmCacheInject.Data
open AsmCacheInject.Data.Command
open AsmCacheInject.Data.Word
open AsmCacheInject.Engine
open AsmCacheInject.Io

/-! Runs on a healthy device.  Until a benchmark writes, nothing in the cache
is dirty, so the engine itself never has to write. -/

def RefusesWrites (world : World) : Prop :=
  ∀ serial offset len, ∃ error rest,
    world.answers serial .pwrite .readOnly offset len = .failed error :: rest

/-- A call fails only when its descriptor forbids it or its range leaves the
device, and every allocation succeeds.  A read-only descriptor does forbid
`pwrite`.  The engine fetches validated blocks on a descriptor that may read, so
its fetches succeed; nothing is assumed about its writes. -/
structure Healthy (world : World) (totalBytes : UInt64) (config : BenchConfig) :
    Prop where
  opened : ∀ opening readOnly, world.opened opening readOnly = .ok totalBytes
  served : ∀ serial kind mode offset len,
    (kind = .pwrite → mode = .readWrite) →
    offset.toNat + len.toNat ≤ totalBytes.toNat →
      len.toNat ≤ (world.answers serial kind mode offset len).length ∧
        ∀ answer ∈ world.answers serial kind mode offset len,
          ∃ limit, limit ≠ 0 ∧ answer = .moved limit
  refused : RefusesWrites world
  fetched : ∀ setup serial, (world.around setup serial).env.fetch.succeeds = true
  buffers : ∀ serial, world.bufferAllocated serial = true
  pool : alignedBufferNew world.poolAllocated config.engineConfig.cacheSizeBytes =
    .ok ()

/-- What a benchmark may do: address blocks of the device, and write only where
the descriptor allows it. -/
def Event.Proper (maxLba : Nat) : Event → Prop
  | .addressed lba => lba < maxLba
  | .call kind mode lba => lba < maxLba ∧ (kind = .pwrite → mode = .readWrite)
  | .fsync _ => True

structure Resting {setup : Setup} (engine : CacheEngine setup) : Prop where
  accounted : engine.Accounted []
  clean : ¬engine.HasDirty
  channel : engine.flusher = none ∨ engine.Listening

structure Calm {setup : Setup} (suite : Suite setup) : Prop where
  resting : Resting suite.engine
  proper : ∀ event ∈ suite.log, event.Proper setup.maxLba

/-- The engine of the suite, over the device the suite has opened. -/
structure OnDevice (setup : Setup) (totalBytes : UInt64) : Prop where
  blockSize : setup.blockSize = 4096
  totalBytes : setup.totalBytes = totalBytes.toNat

namespace Resting

variable {setup : Setup} {engine : CacheEngine setup}

theorem start (image : Image) :
    Resting (CacheEngine.boot setup image none).start where
  accounted := by
    unfold CacheEngine.start
    split_ifs
    · exact .boot image none
    · exact .boot image none
    · exact .boot image (some .fresh)
  clean := by
    unfold CacheEngine.start
    split_ifs
    · exact CacheEngine.not_hasDirty_boot image none
    · exact CacheEngine.not_hasDirty_boot image none
    · exact CacheEngine.not_hasDirty_boot image (some .fresh)
  channel := by
    unfold CacheEngine.start
    split_ifs
    · exact .inl rfl
    · exact .inl rfl
    · exact .inr (.boot image)

theorem turns (hresting : Resting engine) (turns : List (CycleEnv setup)) :
    Resting (engine.runTasks (turnTasks engine turns)) ∧
      engine.tasksCalls (turnTasks engine turns) = [] := by
  rcases hresting.channel with hnone | hlistening
  · have hnothing : turnTasks engine turns = [] := by
      simp [turnTasks, hnone]
    rw [hnothing]
    exact ⟨hresting, rfl⟩
  · have hturns : turnTasks engine turns = turns.map .turn := by
      obtain ⟨channel, hsome, _⟩ := hlistening
      simp [turnTasks, hsome]
    rw [hturns]
    obtain ⟨hafter, hstill, hcalls⟩ :=
      hresting.accounted.turns_of_clean hresting.clean turns
    exact ⟨⟨hafter, hstill, .inr (hlistening.runTasks _)⟩, hcalls⟩

theorem read (hresting : Resting engine) {env : OpEnv setup}
    (hfetch : env.fetch.succeeds = true) {lba : Nat} (hlba : lba < setup.maxLba) :
    (∃ result, (engine.read env lba).1 = .ok result) ∧
      engine.readCalls env lba = [] ∧ Resting (engine.read env lba).2 := by
  rw [CacheEngine.read_of_lt env hlba]
  obtain ⟨hok, hcalls, hclean, hflusher⟩ :=
    hresting.accounted.read_of_clean hresting.clean hfetch ⟨lba, hlba⟩
  refine ⟨hok, hcalls, ?_, hclean, ?_⟩
  · apply hresting.accounted.cachedRead_kept
    rintro ⟨_, _, hfails⟩
    rw [hfetch] at hfails
    cases hfails
  · unfold CacheEngine.Listening
    rw [hflusher]
    exact hresting.channel

end Resting

section Calls

variable {setup : Setup} {world : World} {config : BenchConfig}
  {totalBytes lba : UInt64}

theorem Calm.extend {suite : Suite setup} (hcalm : Calm suite)
    {engine : CacheEngine setup} (hresting : Resting engine)
    {events : List Event} (hevents : ∀ event ∈ events, event.Proper setup.maxLba)
    (serial : Nat) :
    Calm { suite with
      engine := engine, serial := serial, log := suite.log ++ events } where
  resting := hresting
  proper := by
    intro event hmem
    rcases List.mem_append.mp hmem with hbefore | hnew
    · exact hcalm.proper event hbefore
    · exact hevents event hnew

theorem newBuffer_returns (hhealthy : Healthy world totalBytes config) :
    Returns Calm (newBuffer world 4096 : Step setup Unit) Calm := by
  apply Returns.ofStep
  intro suite hcalm
  have hbuffer : alignedBufferNew (world.bufferAllocated suite.serial) 4096 =
      .ok () := by
    rw [hhealthy.buffers]
    rfl
  rw [hbuffer]
  exact ⟨⟨(), rfl⟩, hcalm.resting, hcalm.proper⟩

theorem OnDevice.block_inside (hdevice : OnDevice setup totalBytes)
    (hlba : lba.toNat < setup.maxLba) :
    (lba * 4096).toNat + (4096 : UInt64).toNat ≤ totalBytes.toNat := by
  have hend := lba_end_le (⟨lba.toNat, hlba⟩ : Lba setup)
  simp only [hdevice.blockSize, hdevice.totalBytes] at hend
  have hbound := totalBytes.toNat_lt
  have hproduct : (lba * 4096).toNat = lba.toNat * 4096 := by
    apply toNat_product
    simp only [UInt64.reduceToNat]
    omega
  rw [hproduct]
  exact hend

theorem readLbaDirect_returns (hhealthy : Healthy world totalBytes config)
    (hdevice : OnDevice setup totalBytes) (hlba : lba.toNat < setup.maxLba)
    (fd : AccessMode) :
    Returns Calm (readLbaDirect world fd 4096 lba : Step setup Unit) Calm := by
  apply Returns.ofStep
  intro suite hcalm
  have hreading : CallKind.pread = .pwrite → fd = .readWrite := by
    intro hkind
    cases hkind
  obtain ⟨hlong, hmoving⟩ := hhealthy.served suite.serial .pread fd (lba * 4096)
    4096 hreading (hdevice.block_inside hlba)
  have hok : (readLbaInto 0 lba 4096
      (world.answers suite.serial .pread fd (lba * 4096) 4096)
      ⟨suite.engine.device, fun _ => 0⟩).outcome = some (.ok ()) := by
    apply (congrArg Transfer.outcome (exchangeLoop_toTransfer .pread 0 (lba * 4096)
      4096 0 _ ⟨suite.engine.device, fun _ => 0⟩)).trans
    exact transferLoop_ok hmoving hlong
  refine ⟨⟨(), ?_⟩, hcalm.extend hcalm.resting ?_ (suite.serial + 1)⟩
  · simp only [hok]
    rfl
  · intro event hmem
    rcases List.mem_cons.mp hmem with rfl | hcall
    · exact hlba
    · obtain ⟨_, _, rfl⟩ := List.mem_map.mp hcall
      refine ⟨hlba, ?_⟩
      intro hkind
      cases hkind

theorem writeLbaDirect_stops (hrefuses : RefusesWrites world)
    {before : Suite setup → Prop} :
    Stops before (writeLbaDirect world .readOnly 4096 lba : Step setup Unit) := by
  apply Stops.ofStep
  intro suite _
  obtain ⟨error, rest, hanswers⟩ := hrefuses suite.serial (lba * 4096) 4096
  rw [hanswers]
  exact ⟨.failed (.ofIo "pwrite" error), rfl⟩

theorem fetchEvents_proper {env : OpEnv setup} {engine : CacheEngine setup}
    {address : Nat} {event : Event} (hmem : event ∈ fetchEvents env address engine) :
    event.Proper setup.maxLba := by
  unfold fetchEvents at hmem
  split at hmem
  · next hlba =>
    split at hmem
    · rw [List.mem_singleton] at hmem
      subst hmem
      refine ⟨hlba, ?_⟩
      intro hkind
      cases hkind
    · cases hmem
  · cases hmem

theorem readCached_returns (hhealthy : Healthy world totalBytes config)
    (hlba : lba.toNat < setup.maxLba) :
    Returns Calm (readCached world lba : Step setup Bool) Calm := by
  apply Returns.ofStep
  intro suite hcalm
  obtain ⟨hready, hturns⟩ :=
    hcalm.resting.turns (world.around setup suite.serial).turns
  obtain ⟨⟨result, hok⟩, hcalls, hafter⟩ :=
    hready.read (hhealthy.fetched setup suite.serial) hlba
  simp only [hok, hturns, hcalls, List.nil_append, List.map_nil]
  refine ⟨⟨result.cacheHit, rfl⟩, hcalm.extend hafter ?_ _⟩
  intro event hmem
  rcases List.mem_cons.mp hmem with rfl | hfetched
  · exact hlba
  · exact fetchEvents_proper hfetched

/-- A stopped engine has no flush thread left to shut down. -/
structure Stopped {setup : Setup} (suite : Suite setup) : Prop where
  flusher : suite.engine.flusher = none
  proper : ∀ event ∈ suite.log, event.Proper setup.maxLba

theorem stopEngine_returns :
    Returns Calm (stopEngine world : Step setup Unit) Stopped := by
  apply Returns.ofStep
  intro suite hcalm
  obtain ⟨hstop, hcalls⟩ := hcalm.resting.accounted.stop_of_clean
    hcalm.resting.clean hcalm.resting.channel (world.final setup)
  rw [hstop, hcalls]
  refine ⟨⟨(), rfl⟩, rfl, ?_⟩
  simpa using hcalm.proper

theorem Stopped.dropEngine {suite : Suite setup} (hstopped : Stopped suite) :
    Bench.dropEngine world suite = suite := by
  simp [Bench.dropEngine, stopEngine, CacheEngine.stop, CacheEngine.stopCalls,
    hstopped.flusher]

theorem printComparison_returns (direct cached : ReportRow) :
    Returns Calm (printComparison direct cached : Step setup Unit) Calm := by
  apply Returns.ofStep
  intro suite hcalm
  exact ⟨⟨(), rfl⟩, hcalm.resting, hcalm.proper⟩

end Calls

end AsmCacheInject.Bench

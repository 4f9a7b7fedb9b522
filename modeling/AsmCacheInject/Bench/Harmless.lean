import AsmCacheInject.Bench.Completion

namespace AsmCacheInject.Engine.CacheEngine

open AsmCacheInject.Cache

variable {setup : Setup} {engine : CacheEngine setup} {lost : List Nat}

/-! Reads alone never make the engine write, whatever fails and however many
slots are lost. -/

theorem Accounted.allocateOrEvict_keeps_clean (haccounted : engine.Accounted lost)
    (hclean : ¬engine.HasDirty) (env : OpEnv setup) :
    engine.evictionCalls env = [] ∧ ¬(engine.allocateOrEvict env).2.HasDirty ∧
      (engine.allocateOrEvict env).2.flusher = engine.flusher ∧
      (engine.allocateOrEvict env).2.device = engine.device := by
  have hnever : ∀ {candidate : EvictionCandidate (Lba setup)},
      selectEvictionCandidate env.order engine.table = some candidate →
      engine.table.dirtyOf candidate.lba = some candidate.needsFlush ∧
        candidate.needsFlush ≠ true := by
    intro candidate hselect
    obtain ⟨_, hdirty⟩ := selectEvictionCandidate_spec haccounted.keyed hselect
    exact ⟨hdirty, fun hflush => hclean ⟨candidate.lba, hflush ▸ hdirty⟩⟩
  rcases engine.allocateOrEvict_cases env with
    ⟨slot, rest, hfree, heq⟩ | ⟨hfree, hselect, heq⟩ |
    ⟨_, _, _, _, hselect, hflush, _⟩ | ⟨_, _, hselect, hflush, _⟩ |
    ⟨candidate, hfree, hselect, hflush, heq⟩
  · rw [heq]
    exact ⟨by simp [evictionCalls, allocate, hfree], hclean, rfl, rfl⟩
  · rw [heq]
    exact ⟨by simp [evictionCalls, allocate, hfree, hselect], hclean, rfl, rfl⟩
  · exact absurd hflush (hnever hselect).2
  · exact absurd hflush (hnever hselect).2
  · have hdirty := (hnever hselect).1
    rw [hflush] at hdirty
    rw [heq]
    refine ⟨by simp [evictionCalls, allocate, hfree, hselect, hflush], ?_, rfl,
      rfl⟩
    rw [hasDirty_remove_clean hdirty rfl]
    exact hclean

theorem Accounted.cachedRead_keeps_clean (haccounted : engine.Accounted lost)
    (hclean : ¬engine.HasDirty) (env : OpEnv setup) (lba : Lba setup) :
    engine.readCalls env lba.val = [] ∧ ¬(engine.cachedRead env lba).2.HasDirty ∧
      (engine.cachedRead env lba).2.flusher = engine.flusher ∧
      (engine.cachedRead env lba).2.device = engine.device := by
  obtain ⟨hcalls, hheld, hflusher, hdevice⟩ :=
    haccounted.allocateOrEvict_keeps_clean hclean env
  rcases engine.cachedRead_cases env lba with
    ⟨slot, hslot, heq⟩ | ⟨habsent, error, left, hcall, heq⟩ |
    ⟨habsent, slot, held, error, torn, hcall, _, heq⟩ |
    ⟨habsent, slot, held, hcall, _, heq⟩
  · rw [heq]
    exact ⟨readCalls_of_hit hslot, by simpa [HasDirty] using hclean, rfl, rfl⟩
  · rw [hcall] at hheld hflusher hdevice
    rw [heq, readCalls_of_miss habsent]
    exact ⟨hcalls, hheld, hflusher, hdevice⟩
  · rw [hcall] at hheld hflusher hdevice
    rw [heq, readCalls_of_miss habsent]
    exact ⟨hcalls, hheld, hflusher, hdevice⟩
  · have hkeeps := (haccounted.allocateOrEvict_ok hcall).2 lba habsent
    rw [hcall] at hheld hflusher hdevice
    rw [heq, readCalls_of_miss habsent]
    refine ⟨hcalls, ?_, hflusher, hdevice⟩
    rw [hasDirty_insert_clean hkeeps rfl rfl]
    exact hheld

theorem Accounted.read_keeps_clean (haccounted : engine.Accounted lost)
    (hclean : ¬engine.HasDirty) (env : OpEnv setup) (lba : Nat) :
    engine.readCalls env lba = [] ∧ ¬(engine.read env lba).2.HasDirty ∧
      (engine.read env lba).2.flusher = engine.flusher ∧
      (engine.read env lba).2.device = engine.device := by
  by_cases hlba : lba < setup.maxLba
  · rw [read_of_lt env hlba]
    exact haccounted.cachedRead_keeps_clean hclean env ⟨lba, hlba⟩
  · rw [read_of_le env (Nat.le_of_not_lt hlba)]
    exact ⟨by simp [readCalls, hlba], hclean, rfl, rfl⟩

end AsmCacheInject.Engine.CacheEngine

namespace AsmCacheInject.Bench

open AsmCacheInject.Data
open AsmCacheInject.Data.Command
open AsmCacheInject.Engine
open AsmCacheInject.Io

/-! A suite that has not written through the engine, on any device. -/

/-- No `fsync`, and a `pwrite` only where it was confirmed and then only on a
descriptor that does not allow it. -/
def Event.Harmless (confirmed : Bool) : Event → Prop
  | .call .pwrite mode _ => confirmed = true ∧ mode = .readOnly
  | .fsync _ => False
  | _ => True

/-- An engine with nothing to write, some of its slots perhaps lost. -/
structure Inert {setup : Setup} (engine : CacheEngine setup) : Prop where
  accounted : ∃ lost, engine.Accounted lost
  clean : ¬engine.HasDirty
  channel : engine.flusher = none ∨ engine.Listening

structure Harmless {setup : Setup} (image : Image) (confirmed : Bool)
    (suite : Suite setup) : Prop where
  inert : Inert suite.engine
  log : ∀ event ∈ suite.log, event.Harmless confirmed
  device : suite.engine.device = image

namespace Inert

variable {setup : Setup} {engine : CacheEngine setup}

theorem start (setup : Setup) (image : Image) :
    Inert (CacheEngine.boot setup image none).start :=
  let hresting := Resting.start image
  ⟨⟨[], hresting.accounted⟩, hresting.clean, hresting.channel⟩

theorem turns (hinert : Inert engine) (turns : List (CycleEnv setup)) :
    Inert (engine.runTasks (turnTasks engine turns)) ∧
      engine.tasksCalls (turnTasks engine turns) = [] ∧
      (engine.runTasks (turnTasks engine turns)).device = engine.device := by
  obtain ⟨lost, haccounted⟩ := hinert.accounted
  unfold turnTasks
  split
  · next hsome =>
    obtain ⟨hafter, hclean, hcalls⟩ :=
      haccounted.turns_of_clean hinert.clean turns
    have hlistening : engine.Listening := by
      apply hinert.channel.resolve_left
      intro hnone
      rw [hnone] at hsome
      cases hsome
    refine ⟨⟨⟨lost, hafter⟩, hclean, .inr (hlistening.runTasks _)⟩, hcalls, ?_⟩
    obtain ⟨flusher, hran⟩ := haccounted.runTurns_of_clean hinert.clean turns
    rw [hran]
  · exact ⟨hinert, rfl, rfl⟩

theorem read (hinert : Inert engine) (env : OpEnv setup) (lba : Nat) :
    engine.readCalls env lba = [] ∧ Inert (engine.read env lba).2 ∧
      (engine.read env lba).2.device = engine.device := by
  obtain ⟨lost, haccounted⟩ := hinert.accounted
  obtain ⟨hcalls, hclean, hflusher, hdevice⟩ :=
    haccounted.read_keeps_clean hinert.clean env lba
  refine ⟨hcalls, ⟨haccounted.perform (.read env lba), hclean, ?_⟩, hdevice⟩
  unfold CacheEngine.Listening
  rw [hflusher]
  exact hinert.channel

end Inert

section Steps

variable {setup : Setup} {world : World} {image : Image} {confirmed : Bool}

theorem Harmless.extend {suite : Suite setup}
    (hharmless : Harmless image confirmed suite) {engine : CacheEngine setup}
    (hinert : Inert engine) (hdevice : engine.device = suite.engine.device)
    {events : List Event}
    (hevents : ∀ event ∈ events, event.Harmless confirmed) (serial : Nat) :
    Harmless image confirmed { suite with
      engine := engine, serial := serial, log := suite.log ++ events } where
  inert := hinert
  log := by
    intro event hmem
    rcases List.mem_append.mp hmem with hbefore | hnew
    · exact hharmless.log event hbefore
    · exact hevents event hnew
  device := hdevice.trans hharmless.device

theorem newBuffer_harmless (size : UInt64) :
    Maintains (Harmless image confirmed) (newBuffer world size : Step setup Unit) := by
  intro suite hharmless
  unfold newBuffer
  rw [exec_ofStep]
  split
  · exact hharmless
  · exact ⟨hharmless.inert, hharmless.log, hharmless.device⟩

theorem readLbaDirect_harmless (fd : AccessMode) (blockSize lba : UInt64) :
    Maintains (Harmless image confirmed)
      (readLbaDirect world fd blockSize lba : Step setup Unit) := by
  intro suite hharmless
  apply hharmless.extend hharmless.inert rfl
  intro event hmem
  rcases List.mem_cons.mp hmem with rfl | hcall
  · trivial
  · obtain ⟨_, _, rfl⟩ := List.mem_map.mp hcall
    trivial

/-- The direct descriptor does not allow what is tried here. -/
theorem writeLbaDirect_harmless (hrefuses : RefusesWrites world) (lba : UInt64) :
    Maintains (Harmless image true)
      (writeLbaDirect world .readOnly 4096 lba : Step setup Unit) := by
  intro suite hharmless
  obtain ⟨error, rest, hanswers⟩ := hrefuses suite.serial (lba * 4096) 4096
  unfold writeLbaDirect
  rw [exec_ofStep, hanswers]
  apply hharmless.extend hharmless.inert rfl
  intro event hmem
  rcases List.mem_cons.mp hmem with rfl | hcall
  · trivial
  · obtain ⟨_, _, rfl⟩ := List.mem_map.mp hcall
    exact ⟨rfl, rfl⟩

theorem fetchEvents_harmless {env : OpEnv setup} {engine : CacheEngine setup}
    {lba : Nat} {event : Event} (hmem : event ∈ fetchEvents env lba engine) :
    event.Harmless confirmed := by
  unfold fetchEvents at hmem
  split at hmem
  · split at hmem
    · rw [List.mem_singleton] at hmem
      subst hmem
      trivial
    · cases hmem
  · cases hmem

theorem readCached_harmless (lba : UInt64) :
    Maintains (Harmless image confirmed) (readCached world lba : Step setup Bool) := by
  intro suite hharmless
  obtain ⟨hready, hturns, hturned⟩ :=
    hharmless.inert.turns (world.around setup suite.serial).turns
  obtain ⟨hcalls, hafter, hread⟩ :=
    hready.read (world.around setup suite.serial).env lba.toNat
  unfold readCached
  rw [exec_ofStep]
  simp only [hturns, hcalls, List.nil_append, List.map_nil]
  apply hharmless.extend hafter (hread.trans hturned)
  intro event hmem
  rcases List.mem_cons.mp hmem with rfl | hfetched
  · trivial
  · exact fetchEvents_harmless hfetched

theorem stopEngine_harmless :
    Maintains (Harmless image confirmed) (stopEngine world : Step setup Unit) := by
  intro suite hharmless
  obtain ⟨lost, haccounted⟩ := hharmless.inert.accounted
  obtain ⟨hstop, hcalls⟩ := haccounted.stop_of_clean hharmless.inert.clean
    hharmless.inert.channel (world.final setup)
  unfold stopEngine
  rw [exec_ofStep, hstop]
  simp only [hcalls, List.map_nil]
  apply hharmless.extend ⟨⟨lost, haccounted.rechannel none⟩,
    hharmless.inert.clean, .inl rfl⟩ rfl _ suite.serial
  simp

theorem printComparison_harmless (direct cached : ReportRow) :
    Maintains (Harmless image confirmed)
      (printComparison direct cached : Step setup Unit) := by
  intro suite hharmless
  exact ⟨hharmless.inert, hharmless.log, hharmless.device⟩

theorem unwind_harmless {suite : Suite setup}
    (hharmless : Harmless image confirmed suite) (result : Except Halt Unit) :
    Harmless image confirmed (unwind world result suite) := by
  have hdropped : Harmless image confirmed (dropEngine world suite) :=
    stopEngine_harmless suite hharmless
  unfold unwind
  split
  · exact hharmless
  · split
    · exact hdropped
    · exact hharmless
  · exact hdropped
  · exact hdropped

/-! The benchmarks. -/

theorem eachLba_harmless {call : UInt64 → Step setup Unit} (lbas : List UInt64)
    (hcall : ∀ lba, Maintains (Harmless image confirmed) (call lba)) :
    Maintains (Harmless image confirmed) (eachLba call lbas) := by
  apply Maintains.foldlM
  intro _ lba
  exact hcall lba

theorem tally_harmless (lbas : List UInt64) :
    Maintains (Harmless image confirmed)
      (tally (readCached world) lbas : Step setup (UInt64 × UInt64)) := by
  apply Maintains.foldlM
  intro counts lba
  apply (readCached_harmless lba).bind
  intro hit
  exact Maintains.pure _

theorem randomLbas_harmless (count bound : UInt64) :
    Maintains (Harmless image confirmed)
      (randomLbas world count bound : Step setup (List UInt64)) := by
  intro suite hharmless
  unfold randomLbas
  split
  · exact hharmless
  · exact hharmless

theorem timed_harmless {Value Result : Type} {size : UInt64}
    {loop : Step setup Value} {finish : Value → Step setup Result}
    (hloop : Maintains (Harmless image confirmed) loop)
    (hfinish : ∀ value, Maintains (Harmless image confirmed) (finish value)) :
    Maintains (Harmless image confirmed)
      (newBuffer world size >>= fun _ => loop >>= finish) := by
  apply (newBuffer_harmless size).bind
  intro _
  exact hloop.bind hfinish

theorem benchSequentialReadDirect_harmless (fd : AccessMode)
    (blockSize count : UInt64) :
    Maintains (Harmless image confirmed)
      (benchSequentialReadDirect world fd blockSize count :
        Step setup SequentialResult) := by
  apply timed_harmless
  · exact eachLba_harmless _ (readLbaDirect_harmless fd blockSize)
  · intro _
    exact Maintains.pure _

theorem benchSequentialReadCached_harmless (count : UInt64) :
    Maintains (Harmless image confirmed)
      (benchSequentialReadCached world count : Step setup SequentialResult) := by
  apply timed_harmless
  · exact tally_harmless _
  · intro _
    exact Maintains.pure _

theorem benchRandomReadDirect_harmless (fd : AccessMode)
    (blockSize count bound : UInt64) :
    Maintains (Harmless image confirmed)
      (benchRandomReadDirect world fd blockSize count bound :
        Step setup RandomResult) := by
  apply (randomLbas_harmless count bound).bind
  intro lbas
  apply timed_harmless
  · exact eachLba_harmless _ (readLbaDirect_harmless fd blockSize)
  · intro _
    exact Maintains.pure _

theorem benchRandomReadCached_harmless (count bound : UInt64) :
    Maintains (Harmless image confirmed)
      (benchRandomReadCached world count bound : Step setup RandomResult) := by
  apply (randomLbas_harmless count bound).bind
  intro lbas
  apply timed_harmless
  · exact tally_harmless _
  · intro _
    exact Maintains.pure _

end Steps

/-! The write benchmarks.  The kernel refuses the first direct write, so the
cached one is only reached when there is nothing to do. -/

section Writes

variable {setup : Setup} {world : World} {image : Image}

theorem emptyTally_harmless {call : UInt64 → Step setup Bool} {confirmed : Bool} :
    Maintains (Harmless image confirmed) (tally call []) :=
  Maintains.pure _

theorem directWrites_harmless {Result : Type} (hrefuses : RefusesWrites world)
    (lbas : List UInt64) (result : Result) :
    Maintains (Harmless image true)
      (newBuffer world 4096 >>= fun _ =>
        eachLba (writeLbaDirect world .readOnly 4096) lbas >>= fun _ =>
          (pure result : Step setup Result)) := by
  apply timed_harmless
  · exact eachLba_harmless _ (writeLbaDirect_harmless hrefuses)
  · intro _
    exact Maintains.pure _

theorem directWrites_stop {Result : Type} (hrefuses : RefusesWrites world)
    {lbas : List UInt64} (hlbas : lbas ≠ []) (result : Result) :
    Stops (Harmless image true)
      (newBuffer world 4096 >>= fun _ =>
        eachLba (writeLbaDirect world .readOnly 4096) lbas >>= fun _ =>
          (pure result : Step setup Result)) := by
  apply Stops.bind_maintained (newBuffer_harmless 4096)
  intro _
  exact (eachLba_stops hlbas fun _ => writeLbaDirect_stops hrefuses).bind

theorem sequentialWrites_harmless (hrefuses : RefusesWrites world) (count : UInt64) :
    Maintains (Harmless image true)
      (sequentialWrites world .readOnly 4096 count : Step setup Unit) := by
  have hdirect : Maintains (Harmless image true)
      (benchSequentialWriteDirect world .readOnly 4096 count :
        Step setup SequentialResult) :=
    directWrites_harmless hrefuses _ _
  by_cases hcount : sequentialLbas count = []
  · refine hdirect.bind fun _ => ?_
    refine Maintains.bind ?_ fun cached => printComparison_harmless _ _
    unfold benchSequentialWriteCached
    rw [hcount]
    exact timed_harmless emptyTally_harmless fun _ => Maintains.pure _
  · exact hdirect.bind_of_stops (directWrites_stop hrefuses hcount _)

theorem randomWrites_harmless (hrefuses : RefusesWrites world)
    (count bound : UInt64) :
    Maintains (Harmless image true)
      (randomWrites world .readOnly 4096 count bound : Step setup Unit) := by
  have hdirect : Maintains (Harmless image true)
      (benchRandomWriteDirect world .readOnly 4096 count bound :
        Step setup RandomResult) := by
    apply (randomLbas_harmless count bound).bind
    intro lbas
    exact directWrites_harmless hrefuses _ _
  cases hdrawn : generateRandomLbas world.rng count bound benchSeed with
  | none =>
      apply hdirect.bind_of_stops
      apply Stops.bind
      intro suite _
      exact ⟨.panicked, suite, by simp [randomLbas, hdrawn]⟩
  | some lbas =>
      have hrandom : randomLbas world count bound =
          (pure lbas : Step setup (List UInt64)) := by
        simp [randomLbas, hdrawn]
      by_cases hlbas : lbas = []
      · refine hdirect.bind fun _ => ?_
        refine Maintains.bind ?_ fun cached => printComparison_harmless _ _
        unfold benchRandomWriteCached
        rw [hrandom, pure_bind, hlbas]
        exact timed_harmless emptyTally_harmless fun _ => Maintains.pure _
      · apply hdirect.bind_of_stops
        unfold benchRandomWriteDirect
        rw [hrandom, pure_bind]
        exact directWrites_stop hrefuses hlbas _

end Writes

section Parts

variable {setup : Setup} {world : World} {config : BenchConfig} {image : Image}

theorem sequentialPart_harmless (hrefuses : RefusesWrites world) (count : UInt64) :
    Maintains (Harmless image config.includeWrites)
      (sequentialPart world config .readOnly 4096 count : Step setup Unit) := by
  unfold sequentialPart
  split
  · refine Maintains.bind ?_ fun _ => ?_
    · refine (benchSequentialReadDirect_harmless _ _ count).bind fun _ => ?_
      refine (benchSequentialReadCached_harmless count).bind fun _ => ?_
      refine (printComparison_harmless _ _).bind fun _ => ?_
      refine (benchSequentialReadCached_harmless count).bind fun _ => ?_
      exact printComparison_harmless _ _
    · cases hwrites : config.includeWrites with
      | false => exact Maintains.pure ()
      | true => exact sequentialWrites_harmless hrefuses count
  · exact Maintains.pure ()

theorem randomPart_harmless (hrefuses : RefusesWrites world) (count bound : UInt64) :
    Maintains (Harmless image config.includeWrites)
      (randomPart world config .readOnly 4096 count bound : Step setup Unit) := by
  unfold randomPart
  split
  · refine Maintains.bind ?_ fun _ => ?_
    · refine (benchRandomReadDirect_harmless _ _ count bound).bind fun _ => ?_
      refine (benchRandomReadCached_harmless count bound).bind fun _ => ?_
      refine (printComparison_harmless _ _).bind fun _ => ?_
      refine (benchRandomReadCached_harmless count bound).bind fun _ => ?_
      exact printComparison_harmless _ _
    · cases hwrites : config.includeWrites with
      | false => exact Maintains.pure ()
      | true => exact randomWrites_harmless hrefuses count bound
  · exact Maintains.pure ()

theorem benchmarks_harmless (hrefuses : RefusesWrites world) (count bound : UInt64) :
    Maintains (Harmless image config.includeWrites)
      (benchmarks world config .readOnly 4096 count bound : Step setup Unit) := by
  refine (sequentialPart_harmless hrefuses count).bind fun _ => ?_
  refine (randomPart_harmless hrefuses count bound).bind fun _ => ?_
  exact stopEngine_harmless

end Parts

structure Report.Harmless (image : Image) (confirmed : Bool) (report : Report) :
    Prop where
  log : ∀ event ∈ report.log, event.Harmless confirmed
  device : report.image = image

section Reports

variable {setup : Setup} {world : World} {confirmed : Bool}

theorem Report.early_harmless (world : World) (error : CacheError) :
    (Report.early world error).Harmless world.image confirmed where
  log := by simp [Report.early]
  device := rfl

theorem withEngine_harmless {body : Step setup Unit}
    (hbody : Maintains (Bench.Harmless world.image confirmed) body) :
    (withEngine world setup body).Harmless world.image confirmed := by
  have hstart : Bench.Harmless world.image confirmed
      (⟨(CacheEngine.boot setup world.image none).start, 0, [], []⟩ :
        Suite setup) := by
    refine ⟨Inert.start setup world.image, by simp, ?_⟩
    unfold CacheEngine.start
    split_ifs
    · rfl
    · rfl
    · rfl
  have hleft : Bench.Harmless world.image confirmed (unwind world _ _) :=
    unwind_harmless (hbody _ hstart)
      (body.exec ⟨(CacheEngine.boot setup world.image none).start, 0, [], []⟩).1
  exact ⟨hleft.log, hleft.device⟩

theorem runBenchmarks_harmless (hrefuses : RefusesWrites world)
    (config : BenchConfig) :
    (runBenchmarks world config).Harmless world.image config.includeWrites := by
  unfold runBenchmarks
  split
  · exact Report.early_harmless world _
  · split
    · exact Report.early_harmless world _
    · exact withEngine_harmless (benchmarks_harmless hrefuses _ _)

end Reports

end AsmCacheInject.Bench

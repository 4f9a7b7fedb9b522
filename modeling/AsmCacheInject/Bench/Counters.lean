import AsmCacheInject.Bench.Completion
import AsmCacheInject.Data.Lru
import AsmCacheInject.Engine.Lru

namespace AsmCacheInject.Engine.CacheEngine

open AsmCacheInject.Cache
open AsmCacheInject.Data

variable {setup : Setup} {engine : CacheEngine setup}
variable {history : List (Lba setup)} {readings : List Instant}

/-! The cache under reads and turns of the flush thread. -/

theorem FrontCached.rechannel {recency : List (Lba setup)}
    (hfront : engine.FrontCached recency) (flusher : Option Flush.FlushChannel) :
    FrontCached { engine with flusher := flusher } recency :=
  ⟨hfront.accounted.rechannel flusher, hfront.clean, hfront.split⟩

theorem Recent.rechannel (hrecent : engine.Recent history readings)
    (flusher : Option Flush.FlushChannel) :
    Recent { engine with flusher := flusher } history readings :=
  ⟨hrecent.stamped, hrecent.listed, hrecent.descending⟩

theorem FrontCached.not_hasDirty {recency : List (Lba setup)}
    (hfront : engine.FrontCached recency) : ¬engine.HasDirty := by
  rintro ⟨lba, hdirty⟩
  exact hfront.clean lba hdirty

theorem Recent.cachedRead (hrecent : engine.Recent history readings)
    {env : OpEnv setup} {lba : Lba setup} {result : ReadResult setup}
    (hresult : (engine.cachedRead env lba).1 = .ok result)
    (hclock : ∀ reading ∈ readings, reading < env.now) :
    (engine.cachedRead env lba).2.Recent (history ++ [lba])
      (readings ++ [env.now]) := by
  have haccessed : engine.accessed (.read env lba.val) = [lba] := by
    simp [accessed, CacheEngine.perform, CacheEngine.read, Request.acknowledged,
      hresult, BlockEvent.lba]
  have hnext : (engine.perform (.read env lba.val)).2.Recent
      (history ++ engine.accessed (.read env lba.val))
      (readings ++ (Request.read env lba.val).readings) := by
    apply hrecent.perform
    intro reading hreading later hlater
    rw [Request.readings, List.mem_singleton] at hlater
    rw [hlater]
    exact hclock reading hreading
  rw [haccessed] at hnext
  simpa [CacheEngine.perform, CacheEngine.read, Request.readings] using hnext

end AsmCacheInject.Engine.CacheEngine

namespace AsmCacheInject.Bench

open AsmCacheInject.Cache
open AsmCacheInject.Data
open AsmCacheInject.Data.Command
open AsmCacheInject.Engine

/-! The counters of the read benchmarks.  Whatever the flush thread does beside
them, they are those of an ideal LRU cache over the blocks read so far. -/

/-- Every engine call reads the clock later than the calls before it. -/
def Ticking (world : World) : Prop :=
  ∀ (setup : Setup) first second, first < second →
    (world.around setup first).env.now < (world.around setup second).env.now

structure Reading {setup : Setup} (world : World) (seen : List Nat)
    (suite : Suite setup) : Prop where
  calm : Calm suite
  served : ∃ history readings, history.map (·.val) = seen ∧
    suite.engine.FrontCached (Recency.stack history) ∧
    suite.engine.Recent history readings ∧
    ∀ reading ∈ readings, ∀ serial, suite.serial ≤ serial →
      reading < (world.around setup serial).env.now

section Calls

variable {setup : Setup} {world : World} {config : BenchConfig}
  {totalBytes : UInt64} {seen : List Nat}

theorem Reading.start (world : World) (setup : Setup) (image : Image) :
    Reading world []
      (⟨(CacheEngine.boot setup image none).start, 0, [], []⟩ : Suite setup) := by
  refine ⟨calm_start setup image, [], [], rfl, ?_, ?_, by simp⟩
  · unfold CacheEngine.start
    split_ifs
    · exact .boot image none
    · exact .boot image none
    · exact .boot image (some .fresh)
  · unfold CacheEngine.start
    split_ifs
    · exact .boot image none
    · exact .boot image none
    · exact .boot image (some .fresh)

theorem Reading.later {suite next : Suite setup} (hreading : Reading world seen suite)
    (hcalm : Calm next) (hengine : next.engine = suite.engine)
    (hserial : suite.serial ≤ next.serial) : Reading world seen next := by
  obtain ⟨history, readings, hseen, hfront, hrecent, hpast⟩ := hreading.served
  refine ⟨hcalm, history, readings, hseen, hengine ▸ hfront, hengine ▸ hrecent, ?_⟩
  intro reading hmem serial hle
  exact hpast reading hmem serial (Nat.le_trans hserial hle)

theorem newBuffer_reading (hhealthy : Healthy world totalBytes config) :
    Yields (Reading world seen) (newBuffer world 4096 : Step setup Unit) ()
      (Reading world seen) := by
  intro suite hreading
  obtain ⟨value, next, hexec, hcalm⟩ :=
    newBuffer_returns hhealthy suite hreading.calm
  have hnext : next = { suite with serial := suite.serial + 1 } := by
    have hbuffer : alignedBufferNew (world.bufferAllocated suite.serial) 4096 =
        .ok () := by
      rw [hhealthy.buffers]
      rfl
    have hran := congrArg Prod.snd hexec
    simp only [newBuffer, Command.exec, Command.ofStep, ExceptT.run, ExceptT.mk,
      StateT.run, hbuffer] at hran
    exact hran.symm
  refine ⟨next, hexec, hreading.later hcalm ?_ ?_⟩
  · rw [hnext]
  · rw [hnext]
    exact Nat.le_succ _

theorem readLbaDirect_reading (hhealthy : Healthy world totalBytes config)
    (hdevice : OnDevice setup totalBytes) {lba : UInt64}
    (hlba : lba.toNat < setup.maxLba) (fd : AccessMode) :
    Yields (Reading world seen) (readLbaDirect world fd 4096 lba : Step setup Unit) ()
      (Reading world seen) := by
  intro suite hreading
  obtain ⟨value, next, hexec, hcalm⟩ :=
    readLbaDirect_returns hhealthy hdevice hlba fd suite hreading.calm
  have hran : ((readLbaDirect world fd 4096 lba).exec suite).2 = next :=
    congrArg Prod.snd hexec
  refine ⟨next, hexec, hreading.later hcalm ?_ ?_⟩
  · rw [← hran]
    rfl
  · rw [← hran]
    exact Nat.le_succ _

theorem readCached_reading (hhealthy : Healthy world totalBytes config)
    (hticking : Ticking world) {lba : UInt64} (hlba : lba.toNat < setup.maxLba) :
    Yields (Reading world seen) (readCached world lba : Step setup Bool)
      (decide (lba.toNat ∈ (Recency.stack seen).take setup.capacity))
      (Reading world (seen ++ [lba.toNat])) := by
  intro suite hreading
  obtain ⟨history, readings, hseen, hfront, hrecent, hpast⟩ := hreading.served
  obtain ⟨hit, next, hexec, hcalm⟩ :=
    readCached_returns hhealthy hlba suite hreading.calm
  have hready : ∃ flusher, suite.engine.runTasks (turnTasks suite.engine
      (world.around setup suite.serial).turns) =
        { suite.engine with flusher := flusher } := by
    unfold turnTasks
    split
    · exact hfront.accounted.runTurns_of_clean hfront.not_hasDirty _
    · exact ⟨suite.engine.flusher, rfl⟩
  obtain ⟨flusher, hready⟩ := hready
  obtain ⟨hfrontNext, result, hresult, hhit⟩ :=
    (hfront.rechannel flusher).cachedRead (hrecent.rechannel flusher)
      (hhealthy.fetched setup suite.serial) ⟨lba.toNat, hlba⟩
  have hrecentNext := (hrecent.rechannel flusher).cachedRead hresult
    (fun reading hmem => hpast reading hmem suite.serial (Nat.le_refl _))
  rw [(hfront.rechannel flusher).cached_iff,
    ← Recency.mem_take_stack_map Fin.val_injective, hseen] at hhit
  have hvalue : ((readCached world lba).exec suite).1 = .ok hit :=
    congrArg Prod.fst hexec
  have hstate : ((readCached world lba).exec suite).2 = next :=
    congrArg Prod.snd hexec
  have hengine : next.engine =
      (CacheEngine.cachedRead (world.around setup suite.serial).env
        ⟨lba.toNat, hlba⟩ { suite.engine with flusher := flusher }).2 := by
    rw [← hstate, ← hready, ← CacheEngine.read_of_lt _ hlba]
    rfl
  have hserial : next.serial = suite.serial + 1 := by
    rw [← hstate]
    rfl
  have hmatches : hit = result.cacheHit := by
    have hread : ((readCached world lba).exec suite).1 =
        ((CacheEngine.read (world.around setup suite.serial).env lba.toNat
          (suite.engine.runTasks (turnTasks suite.engine
            (world.around setup suite.serial).turns))).1.mapError
              Halt.failed).map ReadResult.cacheHit := rfl
    rw [hready, CacheEngine.read_of_lt _ hlba, hresult, hvalue] at hread
    exact Except.ok.inj hread
  refine ⟨next, ?_, hcalm, history ++ [⟨lba.toNat, hlba⟩], _, ?_,
    hengine ▸ hfrontNext, hengine ▸ hrecentNext, ?_⟩
  · rw [hexec, hmatches]
    congr 2
    rw [Bool.eq_iff_iff, hhit, decide_eq_true_iff]
  · rw [List.map_append, hseen]
    rfl
  · intro reading hmem serial hle
    rw [hserial] at hle
    rcases List.mem_append.mp hmem with hbefore | hnow
    · exact hpast reading hbefore serial (by omega)
    · rw [List.mem_singleton.mp hnow]
      exact hticking setup suite.serial serial (by omega)

theorem round_reading (hhealthy : Healthy world totalBytes config)
    (hticking : Ticking world) {lba : UInt64} (hlba : lba.toNat < setup.maxLba)
    (counts : UInt64 × UInt64) :
    Yields (Reading world seen)
      (do
        let hit ← (readCached world lba : Step setup Bool)
        return if hit then (counts.1 + 1, counts.2) else (counts.1, counts.2 + 1))
      (if lba.toNat ∈ (Recency.stack seen).take setup.capacity then
        (counts.1 + 1, counts.2) else (counts.1, counts.2 + 1))
      (Reading world (seen ++ [lba.toNat])) := by
  apply (readCached_reading hhealthy hticking hlba).bind
  simp only [decide_eq_true_eq]
  exact Yields.pure _

theorem rounds_reading (hhealthy : Healthy world totalBytes config)
    (hticking : Ticking world) {lbas : List UInt64}
    (hlbas : ∀ lba ∈ lbas, lba.toNat < setup.maxLba) (counts : UInt64 × UInt64) :
    Yields (Reading world seen)
      (lbas.foldlM (fun counts lba => do
        let hit ← (readCached world lba : Step setup Bool)
        return if hit then (counts.1 + 1, counts.2)
          else (counts.1, counts.2 + 1)) counts)
      (counts.1 + .ofNat
          (Recency.hits setup.capacity seen (lbas.map UInt64.toNat)),
        counts.2 + .ofNat (lbas.length -
          Recency.hits setup.capacity seen (lbas.map UInt64.toNat)))
      (Reading world (seen ++ lbas.map UInt64.toNat)) := by
  induction lbas generalizing seen counts with
  | nil =>
      intro suite hreading
      refine ⟨suite, ?_, by simpa using hreading⟩
      simp [Recency.hits]
  | cons lba rest ih =>
      obtain ⟨hlba, hrest⟩ := List.forall_mem_cons.mp hlbas
      have hbound : Recency.hits setup.capacity (seen ++ [lba.toNat])
          (rest.map UInt64.toNat) ≤ (rest.map UInt64.toNat).length :=
        Recency.hits_le_length _ _
      rw [List.length_map] at hbound
      rw [List.foldlM_cons, List.map_cons, Recency.hits, List.length_cons]
      apply (round_reading hhealthy hticking hlba counts).bind
      rw [List.append_cons seen lba.toNat (rest.map UInt64.toNat)]
      split
      · rw [Nat.add_comm 1, Nat.add_sub_add_right, UInt64.ofNat_add,
          UInt64.add_comm (.ofNat _), ← UInt64.add_assoc]
        exact ih hrest (counts.1 + 1, counts.2)
      · rw [Nat.zero_add, Nat.add_comm rest.length, Nat.add_sub_assoc hbound,
          UInt64.ofNat_add, ← UInt64.add_assoc]
        exact ih hrest (counts.1, counts.2 + 1)

/-- The loop of a read benchmark counts the hits and misses of the LRU cache. -/
theorem tally_reading (hhealthy : Healthy world totalBytes config)
    (hticking : Ticking world) {lbas : List UInt64}
    (hlbas : ∀ lba ∈ lbas, lba.toNat < setup.maxLba) :
    Yields (Reading world seen)
      (tally (readCached world) lbas : Step setup (UInt64 × UInt64))
      (.ofNat (Recency.hits setup.capacity seen (lbas.map UInt64.toNat)),
        .ofNat (lbas.length -
          Recency.hits setup.capacity seen (lbas.map UInt64.toNat)))
      (Reading world (seen ++ lbas.map UInt64.toNat)) := by
  have hrounds : Yields (Reading world seen) _ _ _ :=
    rounds_reading hhealthy hticking hlbas (0, 0)
  simp only [UInt64.zero_add] at hrounds
  exact hrounds

end Calls

/-! The benchmarks.  Direct ones leave the engine alone; each pass through the
engine extends the history by the blocks it reads. -/

section Benchmarks

variable {setup : Setup} {world : World} {config : BenchConfig}
  {totalBytes count bound : UInt64} {seen : List Nat}

theorem sequentialLbas_toNat (count : UInt64) :
    (sequentialLbas count).map UInt64.toNat = List.range count.toNat := by
  apply List.ext_getElem
  · simp [sequentialLbas]
  · intro index hleft hright
    have hcount := count.toNat_lt
    rw [List.length_range] at hright
    simp [sequentialLbas]
    omega

theorem eachLba_reading (hhealthy : Healthy world totalBytes config)
    (hdevice : OnDevice setup totalBytes) (fd : AccessMode) {lbas : List UInt64}
    (hlbas : ∀ lba ∈ lbas, lba.toNat < setup.maxLba) :
    Yields (Reading world seen)
      (eachLba (readLbaDirect world fd 4096) lbas : Step setup Unit) ()
      (Reading world seen) := by
  unfold eachLba
  induction lbas with
  | nil => exact Yields.pure ()
  | cons lba rest ih =>
      obtain ⟨hlba, hrest⟩ := List.forall_mem_cons.mp hlbas
      rw [List.foldlM_cons]
      exact (readLbaDirect_reading hhealthy hdevice hlba fd).bind (ih hrest)

theorem benchSequentialReadDirect_reading
    (hhealthy : Healthy world totalBytes config)
    (hdevice : OnDevice setup totalBytes) (hclamped : Clamped setup count bound)
    (fd : AccessMode) :
    Yields (Reading world seen)
      (benchSequentialReadDirect world fd 4096 count : Step setup SequentialResult)
      ⟨"Sequential Read", false, count, 4096, 0, count⟩ (Reading world seen) := by
  apply (newBuffer_reading hhealthy).bind
  apply (eachLba_reading hhealthy hdevice fd hclamped.sequential).bind
  exact Yields.pure _

theorem benchSequentialReadCached_reading
    (hhealthy : Healthy world totalBytes config) (hticking : Ticking world)
    (hdevice : OnDevice setup totalBytes) (hclamped : Clamped setup count bound) :
    Yields (Reading world seen)
      (benchSequentialReadCached world count : Step setup SequentialResult)
      ⟨"Sequential Read", true, count, 4096,
        .ofNat (Recency.hits setup.capacity seen (List.range count.toNat)),
        .ofNat (count.toNat -
          Recency.hits setup.capacity seen (List.range count.toNat))⟩
      (Reading world (seen ++ List.range count.toNat)) := by
  have hloop : Yields (Reading world seen)
      (tally (readCached world) (sequentialLbas count) :
        Step setup (UInt64 × UInt64)) _ _ :=
    tally_reading hhealthy hticking hclamped.sequential
  rw [sequentialLbas_toNat, length_sequentialLbas] at hloop
  unfold benchSequentialReadCached
  rw [hdevice.engineBlockSize]
  apply (newBuffer_reading hhealthy).bind
  apply hloop.bind
  exact Yields.pure _

theorem benchRandomReadDirect_reading (hhealthy : Healthy world totalBytes config)
    (hdevice : OnDevice setup totalBytes) (hclamped : Clamped setup count bound)
    (fd : AccessMode) :
    Yields (Reading world seen)
      (benchRandomReadDirect world fd 4096 count bound : Step setup RandomResult)
      ⟨"Random Read", false, count, 4096, bound, 0, count⟩
      (Reading world seen) := by
  obtain ⟨lbas, hrandom, _, _, hlbas⟩ := hclamped.random world
  unfold benchRandomReadDirect
  rw [hrandom, pure_bind]
  apply (newBuffer_reading hhealthy).bind
  apply (eachLba_reading hhealthy hdevice fd hlbas).bind
  exact Yields.pure _

theorem benchRandomReadCached_reading (hhealthy : Healthy world totalBytes config)
    (hticking : Ticking world) (hdevice : OnDevice setup totalBytes)
    (hclamped : Clamped setup count bound) :
    Yields (Reading world seen)
      (benchRandomReadCached world count bound : Step setup RandomResult)
      ⟨"Random Read", true, count, 4096, bound,
        .ofNat (Recency.hits setup.capacity seen (randomTrace world count bound)),
        .ofNat (count.toNat -
          Recency.hits setup.capacity seen (randomTrace world count bound))⟩
      (Reading world (seen ++ randomTrace world count bound)) := by
  obtain ⟨lbas, hrandom, hlength, htrace, hlbas⟩ := hclamped.random world
  have hloop : Yields (Reading world seen)
      (tally (readCached world) lbas : Step setup (UInt64 × UInt64)) _ _ :=
    tally_reading hhealthy hticking hlbas
  rw [htrace, hlength] at hloop
  unfold benchRandomReadCached
  rw [hrandom, pure_bind, hdevice.engineBlockSize]
  apply (newBuffer_reading hhealthy).bind
  apply hloop.bind
  exact Yields.pure _

end Benchmarks

/-! The report. -/

/-- The two comparisons of a read benchmark: the direct pass against the first
and against the second pass through the engine. -/
def passRows (operation : String) (count : UInt64) (cold warm : Nat) :
    List (ReportRow × ReportRow) :=
  [(⟨operation ++ " (direct)", 0, count⟩,
      ⟨operation ++ " (cached)", .ofNat cold, .ofNat (count.toNat - cold)⟩),
    (⟨operation ++ " (direct)", 0, count⟩,
      ⟨operation ++ " (warm cache)", .ofNat warm, .ofNat (count.toNat - warm)⟩)]

def lruRows (operation : String) (count : UInt64) (capacity : Nat)
    (seen lbas : List Nat) : List (ReportRow × ReportRow) :=
  passRows operation count (Recency.hits capacity seen lbas)
    (Recency.hits capacity (seen ++ lbas) lbas)

theorem append_passRows (shown : List (ReportRow × ReportRow)) (operation : String)
    (count : UInt64) (cold warm : Nat) :
    shown ++ passRows operation count cold warm =
      shown ++ [(⟨operation ++ " (direct)", 0, count⟩,
          ⟨operation ++ " (cached)", .ofNat cold, .ofNat (count.toNat - cold)⟩)] ++
        [(⟨operation ++ " (direct)", 0, count⟩,
          ⟨operation ++ " (warm cache)", .ofNat warm,
            .ofNat (count.toNat - warm)⟩)] := by
  rw [passRows, List.append_assoc]
  rfl

/-! What is printed.  Only `print_comparison` adds to it. -/

section Silence

variable {setup : Setup} {world : World} {Value Next : Type}

def Silent (step : Step setup Value) : Prop :=
  ∀ shown, Maintains (fun suite => suite.printed = shown) step

theorem Silent.pure (value : Value) :
    Silent (Pure.pure value : Step setup Value) :=
  fun _ => Maintains.pure value

theorem Silent.bind {first : Step setup Value} {rest : Value → Step setup Next}
    (hfirst : Silent first) (hrest : ∀ value, Silent (rest value)) :
    Silent (first >>= rest) :=
  fun shown => (hfirst shown).bind fun value => hrest value shown

theorem newBuffer_silent (size : UInt64) :
    Silent (newBuffer world size : Step setup Unit) := by
  intro shown suite hprinted
  unfold newBuffer
  rw [exec_ofStep]
  split
  · exact hprinted
  · exact hprinted

theorem randomLbas_silent (count bound : UInt64) :
    Silent (randomLbas world count bound : Step setup (List UInt64)) := by
  intro shown suite hprinted
  unfold randomLbas
  split
  · exact hprinted
  · exact hprinted

theorem stopEngine_silent : Silent (stopEngine world : Step setup Unit) := by
  intro shown suite hprinted
  unfold stopEngine
  rw [exec_ofStep]
  split
  · exact hprinted
  · exact hprinted

theorem unwind_printed (result : Except Halt Unit) (suite : Suite setup) :
    (unwind world result suite).printed = suite.printed := by
  have hdropped : (dropEngine world suite).printed = suite.printed :=
    stopEngine_silent _ suite rfl
  unfold unwind
  split
  · rfl
  · split
    · exact hdropped
    · rfl
  · exact hdropped
  · exact hdropped

theorem eachLba_silent {call : UInt64 → Step setup Unit} (lbas : List UInt64)
    (hcall : ∀ lba, Silent (call lba)) : Silent (eachLba call lbas) := by
  intro shown
  exact Maintains.foldlM (fun _ lba => hcall lba shown) ()

theorem tally_silent {call : UInt64 → Step setup Bool} (lbas : List UInt64)
    (hcall : ∀ lba, Silent (call lba)) : Silent (tally call lbas) := by
  intro shown
  apply Maintains.foldlM
  intro counts lba
  exact (hcall lba shown).bind fun hit => Maintains.pure _

theorem timed_silent {Result : Type} {size : UInt64} {loop : Step setup Value}
    {result : Value → Result} (hloop : Silent loop) :
    Silent (newBuffer world size >>= fun _ => loop >>= fun value =>
      pure (result value)) :=
  (newBuffer_silent size).bind fun _ => hloop.bind fun _ => Silent.pure _

theorem readDirect_silent (fd : AccessMode) (blockSize : UInt64)
    (lbas : List UInt64) :
    Silent (eachLba (readLbaDirect world fd blockSize) lbas : Step setup Unit) :=
  eachLba_silent lbas fun _ _ _ hprinted => hprinted

theorem readCached_silent (lbas : List UInt64) :
    Silent (tally (readCached world) lbas : Step setup (UInt64 × UInt64)) :=
  tally_silent lbas fun _ _ _ hprinted => hprinted

theorem writeDirect_silent (fd : AccessMode) (blockSize : UInt64)
    (lbas : List UInt64) :
    Silent (eachLba (writeLbaDirect world fd blockSize) lbas : Step setup Unit) :=
  eachLba_silent lbas fun _ _ _ hprinted => hprinted

theorem writeCached_silent (lbas : List UInt64) :
    Silent (tally (writeCached world) lbas : Step setup (UInt64 × UInt64)) :=
  tally_silent lbas fun _ _ _ hprinted => hprinted

theorem benchSequentialReadDirect_silent (fd : AccessMode)
    (blockSize count : UInt64) :
    Silent (benchSequentialReadDirect world fd blockSize count :
      Step setup SequentialResult) :=
  timed_silent (readDirect_silent _ _ _)

theorem benchSequentialReadCached_silent (count : UInt64) :
    Silent (benchSequentialReadCached world count :
      Step setup SequentialResult) :=
  timed_silent (readCached_silent _)

theorem benchRandomReadDirect_silent (fd : AccessMode)
    (blockSize count bound : UInt64) :
    Silent (benchRandomReadDirect world fd blockSize count bound :
      Step setup RandomResult) :=
  (randomLbas_silent count bound).bind fun _ =>
    timed_silent (readDirect_silent _ _ _)

theorem benchRandomReadCached_silent (count bound : UInt64) :
    Silent (benchRandomReadCached world count bound : Step setup RandomResult) :=
  (randomLbas_silent count bound).bind fun _ => timed_silent (readCached_silent _)

end Silence

section Report

variable {setup : Setup} {world : World} {config : BenchConfig}
  {totalBytes count bound : UInt64} {seen : List Nat}
  {shown : List (ReportRow × ReportRow)} {Value Next : Type}

def Showing (world : World) (seen : List Nat)
    (shown : List (ReportRow × ReportRow)) (suite : Suite setup) : Prop :=
  Reading world seen suite ∧ suite.printed = shown

theorem Silent.yields {step : Step setup Value} {value : Value} {next : List Nat}
    (hsilent : Silent step)
    (hstep : Yields (Reading world seen) step value (Reading world next)) :
    Yields (Showing world seen shown) step value (Showing world next shown) := by
  rintro suite ⟨hreading, hprinted⟩
  obtain ⟨after, hexec, hafter⟩ := hstep suite hreading
  have hstill := hsilent shown suite hprinted
  rw [hexec] at hstill
  exact ⟨after, hexec, hafter, hstill⟩

theorem printComparison_yields (direct cached : ReportRow) :
    Yields (Showing world seen shown)
      (printComparison direct cached : Step setup Unit) ()
      (Showing world seen (shown ++ [(direct, cached)])) := by
  rintro suite ⟨hreading, hprinted⟩
  refine ⟨_, rfl, ?_, by rw [hprinted]⟩
  exact hreading.later ⟨hreading.calm.resting, hreading.calm.proper⟩ rfl
    (Nat.le_refl _)

/-- Whether or not the command returns, the printed rows start with `rows`. -/
def Shows (before : Suite setup → Prop) (command : Step setup Value)
    (rows : List (ReportRow × ReportRow)) : Prop :=
  ∀ suite, before suite → ∃ more, (command.exec suite).2.printed = rows ++ more

def Grows (command : Step setup Value) : Prop :=
  ∀ suite, Shows (· = suite) command suite.printed

theorem Silent.grows {command : Step setup Value} (hsilent : Silent command) :
    Grows command := by
  rintro suite _ rfl
  exact ⟨[], by rw [hsilent _ _ rfl, List.append_nil]⟩

theorem Grows.printComparison (direct cached : ReportRow) :
    Grows (Bench.printComparison direct cached : Step setup Unit) := by
  rintro suite _ rfl
  exact ⟨[(direct, cached)], rfl⟩

theorem Grows.shows {command : Step setup Value} (hgrows : Grows command) :
    Shows (Showing world seen shown) command shown := by
  rintro suite ⟨_, hprinted⟩
  rw [← hprinted]
  exact hgrows suite suite rfl

theorem Shows.after {before between : Suite setup → Prop}
    {first : Step setup Value} {rest : Value → Step setup Next}
    {value : Value} {rows : List (ReportRow × ReportRow)}
    (hfirst : Yields before first value between)
    (hrest : Shows between (rest value) rows) :
    Shows before (first >>= rest) rows := by
  intro suite hbefore
  obtain ⟨next, hexec, hbetween⟩ := hfirst suite hbefore
  rw [exec_bind_ok hexec]
  exact hrest next hbetween

theorem Shows.bind {before : Suite setup → Prop}
    {first : Step setup Value} {rest : Value → Step setup Next}
    {rows : List (ReportRow × ReportRow)} (hfirst : Shows before first rows)
    (hrest : ∀ value, Grows (rest value)) : Shows before (first >>= rest) rows := by
  intro suite hbefore
  obtain ⟨early, hearly⟩ := hfirst suite hbefore
  rcases hexec : first.exec suite with ⟨outcome, next⟩
  rw [hexec] at hearly
  cases outcome with
  | error exit =>
      rw [exec_bind_error hexec]
      exact ⟨early, hearly⟩
  | ok value =>
      obtain ⟨later, hlater⟩ := hrest value next next rfl
      rw [exec_bind_ok hexec]
      exact ⟨early ++ later, by rw [hlater, hearly, List.append_assoc]⟩

theorem Grows.bind {first : Step setup Value}
    {rest : Value → Step setup Next} (hfirst : Grows first)
    (hrest : ∀ value, Grows (rest value)) : Grows (first >>= rest) := by
  intro suite
  exact (hfirst suite).bind hrest

theorem sequentialReads_yields (hhealthy : Healthy world totalBytes config)
    (hticking : Ticking world) (hdevice : OnDevice setup totalBytes)
    (hclamped : Clamped setup count bound) :
    Yields (Showing world seen shown)
      (sequentialReads world .readOnly 4096 count : Step setup Unit) ()
      (Showing world (seen ++ List.range count.toNat ++ List.range count.toNat)
        (shown ++ lruRows "Seq Read" count setup.capacity seen
          (List.range count.toNat))) := by
  apply ((benchSequentialReadDirect_silent _ _ _).yields
    (benchSequentialReadDirect_reading hhealthy hdevice hclamped _)).bind
  apply ((benchSequentialReadCached_silent _).yields
    (benchSequentialReadCached_reading hhealthy hticking hdevice hclamped)).bind
  apply (printComparison_yields _ _).bind
  apply ((benchSequentialReadCached_silent _).yields
    (benchSequentialReadCached_reading hhealthy hticking hdevice hclamped)).bind
  rw [lruRows, append_passRows]
  exact printComparison_yields _ _

theorem randomReads_yields (hhealthy : Healthy world totalBytes config)
    (hticking : Ticking world) (hdevice : OnDevice setup totalBytes)
    (hclamped : Clamped setup count bound) :
    Yields (Showing world seen shown)
      (randomReads world .readOnly 4096 count bound : Step setup Unit) ()
      (Showing world (seen ++ randomTrace world count bound ++
          randomTrace world count bound)
        (shown ++ lruRows "Rnd Read" count setup.capacity seen
          (randomTrace world count bound))) := by
  apply ((benchRandomReadDirect_silent _ _ _ _).yields
    (benchRandomReadDirect_reading hhealthy hdevice hclamped _)).bind
  apply ((benchRandomReadCached_silent _ _).yields
    (benchRandomReadCached_reading hhealthy hticking hdevice hclamped)).bind
  apply (printComparison_yields _ _).bind
  apply ((benchRandomReadCached_silent _ _).yields
    (benchRandomReadCached_reading hhealthy hticking hdevice hclamped)).bind
  rw [lruRows, append_passRows]
  exact printComparison_yields _ _

/-! After its reads a part still prints, and takes nothing back. -/

theorem sequentialWrites_grows (count : UInt64) :
    Grows (sequentialWrites world .readOnly 4096 count : Step setup Unit) := by
  have hdirect : Silent (benchSequentialWriteDirect world .readOnly 4096 count :
      Step setup SequentialResult) :=
    timed_silent (writeDirect_silent _ _ _)
  have hcached : Silent (benchSequentialWriteCached world count :
      Step setup SequentialResult) :=
    timed_silent (writeCached_silent _)
  refine hdirect.grows.bind fun _ => ?_
  exact hcached.grows.bind fun cached => Grows.printComparison _ _

theorem randomWrites_grows (count bound : UInt64) :
    Grows (randomWrites world .readOnly 4096 count bound : Step setup Unit) := by
  have hdirect : Silent (benchRandomWriteDirect world .readOnly 4096 count bound :
      Step setup RandomResult) :=
    (randomLbas_silent count bound).bind fun lbas =>
      timed_silent (writeDirect_silent _ _ _)
  have hcached : Silent (benchRandomWriteCached world count bound :
      Step setup RandomResult) :=
    (randomLbas_silent count bound).bind fun lbas =>
      timed_silent (writeCached_silent _)
  refine hdirect.grows.bind fun _ => ?_
  exact hcached.grows.bind fun cached => Grows.printComparison _ _

theorem Grows.ite {condition : Prop} [Decidable condition]
    {command : Step setup Unit} (hgrows : Grows command) :
    Grows (if condition then command else Pure.pure ()) := by
  split
  · exact hgrows
  · exact (Silent.pure ()).grows

theorem randomPart_grows (config : BenchConfig) (count bound : UInt64) :
    Grows (randomPart world config .readOnly 4096 count bound :
      Step setup Unit) := by
  have hreads : Grows (randomReads world .readOnly 4096 count bound :
      Step setup Unit) := by
    refine (benchRandomReadDirect_silent _ _ _ _).grows.bind fun direct => ?_
    refine (benchRandomReadCached_silent _ _).grows.bind fun cached => ?_
    refine (Grows.printComparison _ _).bind fun _ => ?_
    refine (benchRandomReadCached_silent _ _).grows.bind fun warm => ?_
    exact Grows.printComparison _ _
  exact Grows.ite (hreads.bind fun _ => Grows.ite (randomWrites_grows count bound))

theorem benchmarks_open (hhealthy : Healthy world totalBytes config)
    (hticking : Ticking world) (hdevice : OnDevice setup totalBytes)
    (hclamped : Clamped setup count bound) :
    (config.mode ≠ .random → Shows (Showing world [] [])
      (benchmarks world config .readOnly 4096 count bound : Step setup Unit)
      (lruRows "Seq Read" count setup.capacity [] (List.range count.toNat))) ∧
    (config.mode = .random → Shows (Showing world [] [])
      (benchmarks world config .readOnly 4096 count bound : Step setup Unit)
      (lruRows "Rnd Read" count setup.capacity []
        (randomTrace world count bound))) := by
  constructor
  · intro hmode
    have hsequential : config.mode = .sequential ∨ config.mode = .all := by
      cases hother : config.mode with
      | sequential => exact .inl rfl
      | random => exact absurd hother hmode
      | all => exact .inr rfl
    unfold benchmarks sequentialPart
    rw [if_pos hsequential, bind_assoc]
    apply Shows.after
      (sequentialReads_yields hhealthy hticking hdevice hclamped)
    apply Grows.shows
    refine (Grows.ite (sequentialWrites_grows count)).bind fun _ => ?_
    refine (randomPart_grows config count bound).bind fun _ => ?_
    exact stopEngine_silent.grows
  · intro hmode
    unfold benchmarks sequentialPart randomPart
    rw [hmode, if_neg (by decide), pure_bind, if_pos (.inl rfl), bind_assoc]
    apply Shows.after (randomReads_yields hhealthy hticking hdevice hclamped)
    apply Grows.shows
    refine (Grows.ite (randomWrites_grows count bound)).bind fun _ => ?_
    exact stopEngine_silent.grows

theorem benchmarks_both (hhealthy : Healthy world totalBytes config)
    (hticking : Ticking world) (hdevice : OnDevice setup totalBytes)
    (hclamped : Clamped setup count bound) (hmode : config.mode = .all)
    (hreads : config.includeWrites = false) {suite : Suite setup}
    (hshowing : Showing world [] [] suite) :
    ((benchmarks world config .readOnly 4096 count bound).exec suite).2.printed =
      lruRows "Seq Read" count setup.capacity [] (List.range count.toNat) ++
        lruRows "Rnd Read" count setup.capacity
          (List.range count.toNat ++ List.range count.toNat)
          (randomTrace world count bound) := by
  unfold benchmarks sequentialPart randomPart
  simp only [hmode, hreads, or_true, if_true, Bool.false_eq_true, if_false,
    bind_assoc, pure_bind]
  obtain ⟨between, hfirst, hbetween⟩ :=
    sequentialReads_yields hhealthy hticking hdevice hclamped suite hshowing
  obtain ⟨final, hsecond, hfinal⟩ :=
    randomReads_yields hhealthy hticking hdevice hclamped between hbetween
  rw [exec_bind_ok hfirst, exec_bind_ok hsecond]
  exact stopEngine_silent _ final hfinal.2

end Report

section Run

variable {world : World} {config : BenchConfig} {totalBytes : UInt64}

theorem hits_warm_range (capacity count : Nat) :
    Recency.hits capacity (List.range count) (List.range count) =
      if count ≤ capacity then count else 0 := by
  have hnodup : (List.range count).Nodup := List.nodup_range
  split
  · next hfits =>
    have hdistinct : (List.range count).toFinset.card ≤ capacity := by
      rw [List.toFinset_card_of_nodup hnodup, List.length_range]
      exact hfits
    have hreplay := (Recency.hits_replay_iff [] (List.range count)).mpr hdistinct
    rwa [List.nil_append, List.length_range] at hreplay
  · next hlarge =>
    apply Recency.hits_rescan hnodup _ []
    rw [List.length_range]
    omega

/-- What the report says about reads, with a clock that ticks between calls.
The first sequential pass misses on every block; the second hits on all of them
if they fit the cache, and otherwise on none.  The second random pass, which
repeats the blocks of the first, hits every time exactly when the different
blocks among them fit; before that each of them costs a miss, and a second one
only if they do not fit. -/
theorem printed_counts (hhealthy : Healthy world totalBytes config)
    (hvalid : config.engineConfig.validate = .ok ()) (hticking : Ticking world)
    {bound count : UInt64} (hbound : bound = maxLba totalBytes 4096)
    (hcount : count = min config.blockCount bound)
    {capacity distinct : Nat}
    (hcapacity : capacity = config.engineConfig.blockCount.toNat)
    (hdistinct : distinct = (randomTrace world count bound).toFinset.card) :
    (config.mode ≠ .random → ∃ more, printedBy world config =
      passRows "Seq Read" count 0
        (if count.toNat ≤ capacity then count.toNat else 0) ++ more) ∧
    (config.mode = .random → ∃ cold warm more, printedBy world config =
        passRows "Rnd Read" count cold warm ++ more ∧
      cold + distinct ≤ count.toNat ∧
      (distinct ≤ capacity → cold + distinct = count.toNat) ∧
      warm ≤ count.toNat ∧ (warm = count.toNat ↔ distinct ≤ capacity)) ∧
    (config.mode = .all → config.includeWrites = false →
      ∃ cold warm, printedBy world config =
          passRows "Seq Read" count 0
              (if count.toNat ≤ capacity then count.toNat else 0) ++
            passRows "Rnd Read" count cold warm ∧
        cold ≤ count.toNat ∧ warm ≤ count.toNat ∧
        (warm = count.toNat ↔ distinct ≤ capacity)) := by
  obtain ⟨setup, hdevice, hsize, hclamped, hrun⟩ :=
    runBenchmarks_eq hhealthy hvalid
  rw [← hbound, ← hcount] at hclamped hrun
  have hprinted : printedBy world config =
      ((benchmarks world config .readOnly 4096 count bound).exec
        ⟨(CacheEngine.boot setup world.image none).start, 0, [], []⟩).2.printed := by
    rw [printedBy, hrun, withEngine]
    exact unwind_printed _ _
  rw [← hcapacity] at hsize
  obtain ⟨hsequential, hrandom⟩ :=
    benchmarks_open hhealthy hticking hdevice hclamped
  have hstart : Showing world [] []
      (⟨(CacheEngine.boot setup world.image none).start, 0, [], []⟩ :
        Suite setup) := ⟨Reading.start world setup world.image, rfl⟩
  have hcold : Recency.hits capacity [] (List.range count.toNat) = 0 :=
    Recency.hits_fresh List.nodup_range (List.disjoint_nil_right _)
  have hrows : lruRows "Seq Read" count setup.capacity [] (List.range count.toNat) =
      passRows "Seq Read" count 0
        (if count.toNat ≤ capacity then count.toNat else 0) := by
    rw [lruRows, hsize, hcold, List.nil_append, hits_warm_range]
  have hlength := length_randomTrace world count bound
  have hbounded : ∀ seen,
      Recency.hits capacity seen (randomTrace world count bound) ≤ count.toNat := by
    intro seen
    rw [← hlength]
    exact Recency.hits_le_length seen _
  have hwarm : ∀ seen, Recency.hits capacity
      (seen ++ randomTrace world count bound) (randomTrace world count bound) =
        count.toNat ↔ distinct ≤ capacity := by
    intro seen
    rw [← hlength, hdistinct]
    exact Recency.hits_replay_iff seen _
  refine ⟨?_, ?_, ?_⟩
  · intro hmode
    rw [hprinted, ← hrows]
    exact hsequential hmode _ hstart
  · intro hmode
    obtain ⟨more, hmore⟩ := hrandom hmode _ hstart
    obtain ⟨hfirst, hexact⟩ :=
      Recency.hits_cold capacity (randomTrace world count bound)
    rw [hlength, ← hdistinct] at hfirst hexact
    rw [lruRows, hsize] at hmore
    exact ⟨_, _, more, hprinted.trans hmore, hfirst, hexact, hbounded _,
      hwarm []⟩
  · intro hmode hreads
    have hboth := benchmarks_both hhealthy hticking hdevice hclamped hmode hreads
      hstart
    rw [← hprinted, hrows, lruRows, hsize] at hboth
    exact ⟨_, _, hboth, hbounded _, hbounded _, hwarm _⟩

end Run

def tickingWorld (totalBytes : UInt64) : World :=
  { steadyWorld totalBytes with
    around := fun _ serial => ⟨[], ⟨serial, serial, .stored, .ok, .ok⟩⟩ }

theorem tickingWorld_healthy (mode : BenchMode) (blockCount totalBytes : UInt64) :
    Healthy (tickingWorld totalBytes) totalBytes
      (.quick mode blockCount false) where
  opened := (quick_healthy mode blockCount totalBytes false).opened
  served := (quick_healthy mode blockCount totalBytes false).served
  refused := (quick_healthy mode blockCount totalBytes false).refused
  fetched := fun _ _ => rfl
  buffers := fun _ => rfl
  pool := (quick_healthy mode blockCount totalBytes false).pool

/-- Three rounds of either kind; the generator of the steady device always draws
block 0. -/
theorem threeRounds_printed :
    ∃ cold warm, printedBy (tickingWorld 4194304) (.quick .all 3 false) =
        passRows "Seq Read" 3 0 3 ++ passRows "Rnd Read" 3 cold warm ∧
      warm = 3 := by
  obtain ⟨cold, warm, hprinted, _, _, hwarm⟩ :=
    (printed_counts (tickingWorld_healthy .all 3 4194304) rfl
      (fun _ _ _ hlt => hlt) rfl rfl rfl rfl).2.2 rfl rfl
  exact ⟨cold, warm, hprinted, hwarm.mpr (by decide)⟩

end AsmCacheInject.Bench

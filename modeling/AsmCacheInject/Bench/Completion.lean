import AsmCacheInject.Bench.Calls

namespace AsmCacheInject.Bench

open AsmCacheInject.Data
open AsmCacheInject.Data.Command
open AsmCacheInject.Data.Word
open AsmCacheInject.Engine
open AsmCacheInject.Io

/-! The blocks a benchmark visits. -/

theorem mem_sequentialLbas {count lba : UInt64} (hmem : lba ∈ sequentialLbas count) :
    lba.toNat < count.toNat := by
  obtain ⟨index, hindex, rfl⟩ := List.mem_map.mp hmem
  rw [List.mem_range] at hindex
  have hcount := count.toNat_lt
  rw [UInt64.toNat_ofNat_of_lt' (by rw [UInt64.size]; omega)]
  exact hindex

theorem length_sequentialLbas (count : UInt64) :
    (sequentialLbas count).length = count.toNat := by
  simp [sequentialLbas]

theorem generateRandomLbas_of_ne_zero (rng : StdRng) (count : UInt64)
    {bound : UInt64} (hbound : bound ≠ 0) (seed : UInt64) :
    generateRandomLbas rng count bound seed =
      some ((List.range count.toNat).map fun index =>
        rng.sample seed index bound) := by
  unfold generateRandomLbas StdRng.genRange
  simp only [if_neg hbound]
  exact List.mapM_pure

def randomTrace (world : World) (count bound : UInt64) : List Nat :=
  (List.range count.toNat).map fun index =>
    (world.rng.sample benchSeed index bound).toNat

theorem length_randomTrace (world : World) (count bound : UInt64) :
    (randomTrace world count bound).length = count.toNat := by
  simp [randomTrace]

/-- No empty range is sampled as long as there are at most as many samples as
blocks. -/
theorem randomLbas_eq {setup : Setup} (world : World) {count bound : UInt64}
    (hclamped : count.toNat ≤ bound.toNat) :
    ∃ lbas, randomLbas world count bound =
        (pure lbas : Step setup (List UInt64)) ∧
      lbas.map UInt64.toNat = randomTrace world count bound ∧
      ∀ lba ∈ lbas, lba.toNat < bound.toNat := by
  by_cases hzero : bound = 0
  · subst hzero
    have hnone : count.toNat = 0 := Nat.le_zero.mp hclamped
    refine ⟨[], ?_, by simp [randomTrace, hnone], by simp⟩
    simp [randomLbas, generateRandomLbas, hnone]
  · refine ⟨(List.range count.toNat).map fun index =>
      world.rng.sample benchSeed index bound, ?_, by simp [randomTrace], ?_⟩
    · unfold randomLbas
      rw [generateRandomLbas_of_ne_zero _ _ hzero]
    · intro lba hmem
      obtain ⟨index, _, rfl⟩ := List.mem_map.mp hmem
      apply UInt64.lt_iff_toNat_lt.mp
      apply world.rng.sample_lt
      rw [UInt64.lt_iff_toNat_lt, UInt64.toNat_zero]
      exact toNat_pos_of_ne_zero hzero

section Benchmarks

variable {setup : Setup} {world : World} {config : BenchConfig}
  {totalBytes : UInt64} {Value Result : Type}

theorem timed_returns (hhealthy : Healthy world totalBytes config)
    {loop : Step setup Value} {finish : Value → Step setup Result}
    (hloop : Returns Calm loop Calm)
    (hfinish : ∀ value, Returns Calm (finish value) Calm) :
    Returns Calm (newBuffer world 4096 >>= fun _ => loop >>= finish) Calm := by
  apply Returns.bind (newBuffer_returns hhealthy)
  intro _
  exact hloop.bind hfinish

theorem timed_stops (hhealthy : Healthy world totalBytes config)
    {loop : Step setup Value} {finish : Value → Step setup Result}
    (hloop : Stops Calm loop) :
    Stops Calm (newBuffer world 4096 >>= fun _ => loop >>= finish) := by
  apply Returns.bind_stops (newBuffer_returns hhealthy)
  intro _
  exact hloop.bind

theorem eachLba_returns {call : UInt64 → Step setup Unit} {lbas : List UInt64}
    (hcall : ∀ lba ∈ lbas, Returns Calm (call lba) Calm) :
    Returns Calm (eachLba call lbas) Calm := by
  apply Returns.foldlM
  intro lba hmem _
  exact hcall lba hmem

theorem tally_returns {call : UInt64 → Step setup Bool} {lbas : List UInt64}
    (hcall : ∀ lba ∈ lbas, Returns Calm (call lba) Calm) :
    Returns Calm (tally call lbas) Calm := by
  apply Returns.foldlM
  intro lba hmem counts
  apply Returns.bind (hcall lba hmem)
  intro hit
  exact Returns.pure _

theorem eachLba_stops {before : Suite setup → Prop}
    {call : UInt64 → Step setup Unit} {lbas : List UInt64}
    (hnonempty : lbas ≠ []) (hcall : ∀ lba, Stops before (call lba)) :
    Stops before (eachLba call lbas) := by
  cases lbas with
  | nil => exact absurd rfl hnonempty
  | cons lba rest => exact Stops.foldlM (hcall lba)

theorem OnDevice.engineBlockSize (hdevice : OnDevice setup totalBytes) :
    engineBlockSize setup = 4096 := by
  unfold Bench.engineBlockSize
  rw [hdevice.blockSize]
  rfl

/-- The number of rounds and the range they are drawn from, after clamping. -/
structure Clamped (setup : Setup) (count bound : UInt64) : Prop where
  bound_eq : bound.toNat = setup.maxLba
  count_le : count.toNat ≤ bound.toNat

section Reads

variable {count bound : UInt64} {lbas : List UInt64}

theorem readLoop_returns (hhealthy : Healthy world totalBytes config)
    (hdevice : OnDevice setup totalBytes) (fd : AccessMode)
    (hlbas : ∀ lba ∈ lbas, lba.toNat < setup.maxLba) :
    Returns Calm (eachLba (readLbaDirect world fd 4096) lbas :
      Step setup Unit) Calm := by
  apply eachLba_returns
  intro lba hmem
  exact readLbaDirect_returns hhealthy hdevice (hlbas lba hmem) fd

theorem cachedLoop_returns (hhealthy : Healthy world totalBytes config)
    (hlbas : ∀ lba ∈ lbas, lba.toNat < setup.maxLba) :
    Returns Calm (tally (readCached world) lbas :
      Step setup (UInt64 × UInt64)) Calm := by
  apply tally_returns
  intro lba hmem
  exact readCached_returns hhealthy (hlbas lba hmem)

theorem Clamped.sequential (hclamped : Clamped setup count bound) :
    ∀ lba ∈ sequentialLbas count, lba.toNat < setup.maxLba := by
  intro lba hmem
  rw [← hclamped.bound_eq]
  exact Nat.lt_of_lt_of_le (mem_sequentialLbas hmem) hclamped.count_le

theorem Clamped.random (hclamped : Clamped setup count bound) (world : World) :
    ∃ lbas, randomLbas world count bound =
        (pure lbas : Step setup (List UInt64)) ∧
      lbas.length = count.toNat ∧
      lbas.map UInt64.toNat = randomTrace world count bound ∧
      ∀ lba ∈ lbas, lba.toNat < setup.maxLba := by
  obtain ⟨lbas, hdraws, htrace, hlbas⟩ := randomLbas_eq world hclamped.count_le
  rw [← hclamped.bound_eq]
  refine ⟨lbas, hdraws, ?_, htrace, hlbas⟩
  rw [← List.length_map UInt64.toNat, htrace, length_randomTrace]

theorem benchSequentialReadDirect_returns
    (hhealthy : Healthy world totalBytes config)
    (hdevice : OnDevice setup totalBytes) (hclamped : Clamped setup count bound)
    (fd : AccessMode) :
    Returns Calm (benchSequentialReadDirect world fd 4096 count :
      Step setup SequentialResult) Calm := by
  apply timed_returns hhealthy
  · exact readLoop_returns hhealthy hdevice fd hclamped.sequential
  · intro _
    exact Returns.pure _

theorem benchSequentialReadCached_returns
    (hhealthy : Healthy world totalBytes config)
    (hdevice : OnDevice setup totalBytes) (hclamped : Clamped setup count bound) :
    Returns Calm (benchSequentialReadCached world count :
      Step setup SequentialResult) Calm := by
  unfold benchSequentialReadCached
  rw [hdevice.engineBlockSize]
  apply timed_returns hhealthy
  · exact cachedLoop_returns hhealthy hclamped.sequential
  · intro _
    exact Returns.pure _

theorem benchRandomReadDirect_returns (hhealthy : Healthy world totalBytes config)
    (hdevice : OnDevice setup totalBytes) (hclamped : Clamped setup count bound)
    (fd : AccessMode) :
    Returns Calm (benchRandomReadDirect world fd 4096 count bound :
      Step setup RandomResult) Calm := by
  obtain ⟨lbas, hrandom, _, _, hlbas⟩ := hclamped.random world
  unfold benchRandomReadDirect
  rw [hrandom, pure_bind]
  apply timed_returns hhealthy
  · exact readLoop_returns hhealthy hdevice fd hlbas
  · intro _
    exact Returns.pure _

theorem benchRandomReadCached_returns (hhealthy : Healthy world totalBytes config)
    (hdevice : OnDevice setup totalBytes) (hclamped : Clamped setup count bound) :
    Returns Calm (benchRandomReadCached world count bound :
      Step setup RandomResult) Calm := by
  obtain ⟨lbas, hrandom, _, _, hlbas⟩ := hclamped.random world
  unfold benchRandomReadCached
  rw [hrandom, pure_bind, hdevice.engineBlockSize]
  apply timed_returns hhealthy
  · exact cachedLoop_returns hhealthy hlbas
  · intro _
    exact Returns.pure _

end Reads

/-! The write benchmarks do nothing without a round, and end the run in their
first. -/

section Writes

variable {count bound : UInt64}

theorem rounds_eq_nil_iff {lbas : List UInt64}
    (hlength : lbas.length = count.toNat) : lbas = [] ↔ count = 0 := by
  rw [← List.length_eq_zero_iff, hlength, ← UInt64.toNat_inj]
  rfl

theorem benchSequentialWriteDirect_returns
    (hhealthy : Healthy world totalBytes config) (hcount : count = 0)
    (fd : AccessMode) :
    Returns Calm (benchSequentialWriteDirect world fd 4096 count :
      Step setup SequentialResult) Calm := by
  unfold benchSequentialWriteDirect
  rw [(rounds_eq_nil_iff (length_sequentialLbas count)).mpr hcount]
  apply timed_returns hhealthy
  · exact eachLba_returns (by simp)
  · intro _
    exact Returns.pure _

theorem benchSequentialWriteCached_returns
    (hhealthy : Healthy world totalBytes config)
    (hdevice : OnDevice setup totalBytes) (hcount : count = 0) :
    Returns Calm (benchSequentialWriteCached world count :
      Step setup SequentialResult) Calm := by
  unfold benchSequentialWriteCached
  rw [(rounds_eq_nil_iff (length_sequentialLbas count)).mpr hcount,
    hdevice.engineBlockSize]
  apply timed_returns hhealthy
  · exact tally_returns (by simp)
  · intro _
    exact Returns.pure _

theorem benchSequentialWriteDirect_stops
    (hhealthy : Healthy world totalBytes config) (hcount : count ≠ 0) :
    Stops Calm (benchSequentialWriteDirect world .readOnly 4096 count :
      Step setup SequentialResult) := by
  apply timed_stops hhealthy
  apply eachLba_stops
    (mt (rounds_eq_nil_iff (length_sequentialLbas count)).mp hcount)
  intro lba
  exact writeLbaDirect_stops hhealthy.refused

theorem benchRandomWriteDirect_returns (hhealthy : Healthy world totalBytes config)
    (hclamped : Clamped setup count bound) (hcount : count = 0) (fd : AccessMode) :
    Returns Calm (benchRandomWriteDirect world fd 4096 count bound :
      Step setup RandomResult) Calm := by
  obtain ⟨lbas, hrandom, hlength, _, _⟩ := hclamped.random world
  unfold benchRandomWriteDirect
  rw [hrandom, pure_bind, (rounds_eq_nil_iff hlength).mpr hcount]
  apply timed_returns hhealthy
  · exact eachLba_returns (by simp)
  · intro _
    exact Returns.pure _

theorem benchRandomWriteCached_returns (hhealthy : Healthy world totalBytes config)
    (hdevice : OnDevice setup totalBytes) (hclamped : Clamped setup count bound)
    (hcount : count = 0) :
    Returns Calm (benchRandomWriteCached world count bound :
      Step setup RandomResult) Calm := by
  obtain ⟨lbas, hrandom, hlength, _, _⟩ := hclamped.random world
  unfold benchRandomWriteCached
  rw [hrandom, pure_bind, (rounds_eq_nil_iff hlength).mpr hcount,
    hdevice.engineBlockSize]
  apply timed_returns hhealthy
  · exact tally_returns (by simp)
  · intro _
    exact Returns.pure _

theorem benchRandomWriteDirect_stops (hhealthy : Healthy world totalBytes config)
    (hclamped : Clamped setup count bound) (hcount : count ≠ 0) :
    Stops Calm (benchRandomWriteDirect world .readOnly 4096 count bound :
      Step setup RandomResult) := by
  obtain ⟨lbas, hrandom, hlength, _, _⟩ := hclamped.random world
  unfold benchRandomWriteDirect
  rw [hrandom, pure_bind]
  apply timed_stops hhealthy
  apply eachLba_stops (mt (rounds_eq_nil_iff hlength).mp hcount)
  intro lba
  exact writeLbaDirect_stops hhealthy.refused

end Writes

/-! The two parts, and the run as a whole. -/

section Parts

variable {count bound : UInt64}

theorem sequentialReads_returns (hhealthy : Healthy world totalBytes config)
    (hdevice : OnDevice setup totalBytes) (hclamped : Clamped setup count bound) :
    Returns Calm (sequentialReads world .readOnly 4096 count :
      Step setup Unit) Calm := by
  apply Returns.bind
    (benchSequentialReadDirect_returns hhealthy hdevice hclamped _)
  intro _
  apply Returns.bind (benchSequentialReadCached_returns hhealthy hdevice hclamped)
  intro _
  apply Returns.bind (printComparison_returns _ _)
  intro _
  apply Returns.bind (benchSequentialReadCached_returns hhealthy hdevice hclamped)
  intro _
  exact printComparison_returns _ _

theorem sequentialWrites_returns (hhealthy : Healthy world totalBytes config)
    (hdevice : OnDevice setup totalBytes) (hcount : count = 0) :
    Returns Calm (sequentialWrites world .readOnly 4096 count :
      Step setup Unit) Calm := by
  apply Returns.bind (benchSequentialWriteDirect_returns hhealthy hcount _)
  intro _
  apply Returns.bind (benchSequentialWriteCached_returns hhealthy hdevice hcount)
  intro _
  exact printComparison_returns _ _

theorem randomReads_returns (hhealthy : Healthy world totalBytes config)
    (hdevice : OnDevice setup totalBytes) (hclamped : Clamped setup count bound) :
    Returns Calm (randomReads world .readOnly 4096 count bound :
      Step setup Unit) Calm := by
  apply Returns.bind (benchRandomReadDirect_returns hhealthy hdevice hclamped _)
  intro _
  apply Returns.bind (benchRandomReadCached_returns hhealthy hdevice hclamped)
  intro _
  apply Returns.bind (printComparison_returns _ _)
  intro _
  apply Returns.bind (benchRandomReadCached_returns hhealthy hdevice hclamped)
  intro _
  exact printComparison_returns _ _

theorem randomWrites_returns (hhealthy : Healthy world totalBytes config)
    (hdevice : OnDevice setup totalBytes) (hclamped : Clamped setup count bound)
    (hcount : count = 0) :
    Returns Calm (randomWrites world .readOnly 4096 count bound :
      Step setup Unit) Calm := by
  apply Returns.bind (benchRandomWriteDirect_returns hhealthy hclamped hcount _)
  intro _
  apply Returns.bind
    (benchRandomWriteCached_returns hhealthy hdevice hclamped hcount)
  intro _
  exact printComparison_returns _ _

theorem sequentialPart_returns (hhealthy : Healthy world totalBytes config)
    (hdevice : OnDevice setup totalBytes) (hclamped : Clamped setup count bound)
    (hquiet : config.includeWrites = false ∨ count = 0) :
    Returns Calm (sequentialPart world config .readOnly 4096 count :
      Step setup Unit) Calm := by
  unfold sequentialPart
  split
  · apply Returns.bind (sequentialReads_returns hhealthy hdevice hclamped)
    intro _
    split
    · next hwrites =>
      exact sequentialWrites_returns hhealthy hdevice
        (hquiet.resolve_left (by simp [hwrites]))
    · exact Returns.pure _
  · exact Returns.pure _

theorem randomPart_returns (hhealthy : Healthy world totalBytes config)
    (hdevice : OnDevice setup totalBytes) (hclamped : Clamped setup count bound)
    (hquiet : config.includeWrites = false ∨ count = 0) :
    Returns Calm (randomPart world config .readOnly 4096 count bound :
      Step setup Unit) Calm := by
  unfold randomPart
  split
  · apply Returns.bind (randomReads_returns hhealthy hdevice hclamped)
    intro _
    split
    · next hwrites =>
      exact randomWrites_returns hhealthy hdevice hclamped
        (hquiet.resolve_left (by simp [hwrites]))
    · exact Returns.pure _
  · exact Returns.pure _

theorem sequentialPart_stops (hhealthy : Healthy world totalBytes config)
    (hdevice : OnDevice setup totalBytes) (hclamped : Clamped setup count bound)
    (hmode : config.mode = .sequential ∨ config.mode = .all)
    (hwrites : config.includeWrites = true) (hcount : count ≠ 0) :
    Stops Calm (sequentialPart world config .readOnly 4096 count :
      Step setup Unit) := by
  unfold sequentialPart
  rw [if_pos hmode, if_pos hwrites]
  apply Returns.bind_stops (sequentialReads_returns hhealthy hdevice hclamped)
  intro _
  exact (benchSequentialWriteDirect_stops hhealthy hcount).bind

theorem randomPart_stops (hhealthy : Healthy world totalBytes config)
    (hdevice : OnDevice setup totalBytes) (hclamped : Clamped setup count bound)
    (hmode : config.mode = .random ∨ config.mode = .all)
    (hwrites : config.includeWrites = true) (hcount : count ≠ 0) :
    Stops Calm (randomPart world config .readOnly 4096 count bound :
      Step setup Unit) := by
  unfold randomPart
  rw [if_pos hmode, if_pos hwrites]
  apply Returns.bind_stops (randomReads_returns hhealthy hdevice hclamped)
  intro _
  exact (benchRandomWriteDirect_stops hhealthy hclamped hcount).bind

theorem benchmarks_returns (hhealthy : Healthy world totalBytes config)
    (hdevice : OnDevice setup totalBytes) (hclamped : Clamped setup count bound)
    (hquiet : config.includeWrites = false ∨ count = 0) :
    Returns Calm (benchmarks world config .readOnly 4096 count bound :
      Step setup Unit) Stopped := by
  apply Returns.bind (sequentialPart_returns hhealthy hdevice hclamped hquiet)
  intro _
  apply Returns.bind (randomPart_returns hhealthy hdevice hclamped hquiet)
  intro _
  exact stopEngine_returns

theorem benchmarks_stops (hhealthy : Healthy world totalBytes config)
    (hdevice : OnDevice setup totalBytes) (hclamped : Clamped setup count bound)
    (hwrites : config.includeWrites = true) (hcount : count ≠ 0) :
    Stops Calm (benchmarks world config .readOnly 4096 count bound :
      Step setup Unit) := by
  by_cases hmode : config.mode = .sequential ∨ config.mode = .all
  · exact (sequentialPart_stops hhealthy hdevice hclamped hmode hwrites hcount).bind
  · have hskipped : (sequentialPart world config .readOnly 4096 count :
        Step setup Unit) = pure () := by
      unfold sequentialPart
      rw [if_neg hmode]
    have hrandom : config.mode = .random ∨ config.mode = .all := by
      cases hother : config.mode with
      | sequential => exact absurd (.inl hother) hmode
      | random => exact .inl rfl
      | all => exact .inr rfl
    unfold benchmarks
    rw [hskipped, pure_bind]
    exact (randomPart_stops hhealthy hdevice hclamped hrandom hwrites hcount).bind

end Parts

end Benchmarks

/-- The suite returns `Ok`, addresses blocks of the device only and issues every
`pwrite` on a descriptor opened read-write. -/
structure Completes (totalBytes : UInt64) (report : Report) : Prop where
  ok : report.result = .ok ()
  addressed : ∀ lba, .addressed lba ∈ report.log →
    lba < (maxLba totalBytes 4096).toNat
  called : ∀ kind mode lba, .call kind mode lba ∈ report.log →
    lba < (maxLba totalBytes 4096).toNat
  writable : ∀ mode lba, .call .pwrite mode lba ∈ report.log →
    mode = .readWrite

section Run

variable {world : World} {config : BenchConfig} {totalBytes : UInt64}

theorem toNat_maxLba (totalBytes : UInt64) :
    (maxLba totalBytes 4096).toNat = totalBytes.toNat / 4096 := by
  unfold maxLba
  rw [if_neg (by decide), UInt64.toNat_div]
  rfl

/-- On a healthy device the run gets as far as the benchmarks, on a pool of the
configured size. -/
theorem runBenchmarks_eq (hhealthy : Healthy world totalBytes config)
    (hvalid : config.engineConfig.validate = .ok ()) :
    ∃ setup, OnDevice setup totalBytes ∧
      setup.capacity = config.engineConfig.blockCount.toNat ∧
      Clamped setup (min config.blockCount (maxLba totalBytes 4096))
        (maxLba totalBytes 4096) ∧
      runBenchmarks world config = withEngine world setup
        (benchmarks world config .readOnly 4096
          (min config.blockCount (maxLba totalBytes 4096))
          (maxLba totalBytes 4096)) := by
  obtain ⟨setup, hnew, hblock, hbytes, _⟩ :=
    cacheEngineNew_of_valid hvalid hhealthy.pool totalBytes
  have hbound : (maxLba totalBytes 4096).toNat = setup.maxLba := by
    unfold Setup.maxLba
    rw [toNat_maxLba, hblock, hbytes]
    rfl
  refine ⟨setup, ⟨hblock, hbytes⟩, ?_, ⟨hbound, ?_⟩, ?_⟩
  · rw [(memoryPoolNew_ok (cacheEngineNew_ok hnew).2).2.1, CacheConfig.blockCount,
      UInt64.toNat_div]
  · rw [toNat_min]
    exact Nat.min_le_right _ _
  · simp only [runBenchmarks, hhealthy.opened, hnew]
    rfl

theorem calm_start (setup : Setup) (image : Image) :
    Calm (⟨(CacheEngine.boot setup image none).start, 0, [], []⟩ : Suite setup) where
  resting := Resting.start image
  proper := by simp

theorem runBenchmarks_quiet (hhealthy : Healthy world totalBytes config)
    (hvalid : config.engineConfig.validate = .ok ())
    (hquiet : config.includeWrites = false ∨
      min config.blockCount (maxLba totalBytes 4096) = 0) :
    Completes totalBytes (runBenchmarks world config) := by
  obtain ⟨setup, hdevice, _, hclamped, hrun⟩ := runBenchmarks_eq hhealthy hvalid
  obtain ⟨_, after, hexec, hstopped⟩ :=
    benchmarks_returns hhealthy hdevice hclamped hquiet _
      (calm_start setup world.image)
  have hproper := hstopped.proper
  rw [← hclamped.bound_eq] at hproper
  rw [hrun, withEngine, hexec]
  simp only [unwind, hstopped.dropEngine]
  exact
    { ok := rfl
      addressed := by
        intro lba hmem
        exact hproper _ hmem
      called := by
        intro kind mode lba hmem
        exact (hproper _ hmem).1
      writable := by
        intro mode lba hmem
        exact (hproper _ hmem).2 rfl }

theorem runBenchmarks_writes (hhealthy : Healthy world totalBytes config)
    (hvalid : config.engineConfig.validate = .ok ())
    (hwrites : config.includeWrites = true)
    (hcount : min config.blockCount (maxLba totalBytes 4096) ≠ 0) :
    ¬Completes totalBytes (runBenchmarks world config) := by
  obtain ⟨setup, hdevice, _, hclamped, hrun⟩ := runBenchmarks_eq hhealthy hvalid
  obtain ⟨halt, left, hexec⟩ :=
    benchmarks_stops hhealthy hdevice hclamped hwrites hcount _
      (calm_start setup world.image)
  intro hcompletes
  have hok := hcompletes.ok
  rw [hrun, withEngine, hexec] at hok
  cases hok

theorem effectiveCount_eq_zero_iff :
    min config.blockCount (maxLba totalBytes 4096) = 0 ↔
      config.blockCount = 0 ∨ totalBytes.toNat < 4096 := by
  rw [← UInt64.toNat_inj, toNat_min, toNat_maxLba, ← UInt64.toNat_inj,
    UInt64.toNat_zero]
  omega

/-- The direct descriptor is opened read-only whatever the run is asked to do,
so a healthy run completes exactly when it gets by without a direct write. -/
theorem runBenchmarks_completes_iff (hhealthy : Healthy world totalBytes config)
    (hvalid : config.engineConfig.validate = .ok ()) :
    Completes totalBytes (runBenchmarks world config) ↔
      config.includeWrites = false ∨ config.blockCount = 0 ∨
        totalBytes.toNat < 4096 := by
  rw [← effectiveCount_eq_zero_iff]
  constructor
  · intro hcompletes
    cases hwrites : config.includeWrites with
    | false => exact .inl rfl
    | true =>
        right
        by_contra hcount
        exact runBenchmarks_writes hhealthy hvalid hwrites hcount hcompletes
  · intro hquiet
    exact runBenchmarks_quiet hhealthy hvalid hquiet

end Run

def steadyWorld (totalBytes : UInt64) : World where
  opened := fun _ _ => .ok totalBytes
  image := fun _ => 0
  poolAllocated := true
  bufferAllocated := fun _ => true
  rng := {
    sample := fun _ _ _ => 0
    sample_lt := by
      intro _ _ _ hbound
      exact hbound }
  answers := fun _ kind mode offset len =>
    if kind = .pwrite ∧ mode = .readOnly then
      [.failed ⟨.other, "Bad file descriptor (os error 9)"⟩]
    else if totalBytes.toNat < offset.toNat + len.toNat then
      if kind = .pread then [.moved 0]
      else [.failed ⟨.other, "No space left on device (os error 28)"⟩]
    else List.replicate len.toNat (.moved len)
  around := fun _ _ => ⟨[], ⟨0, 0, .stored, .ok, .ok⟩⟩
  final := fun _ => ⟨.stored, fun _ => .ok, true⟩
  unwinds := true

theorem steadyWorld_healthy (totalBytes : UInt64) {config : BenchConfig}
    (hpool : alignedBufferNew true config.engineConfig.cacheSizeBytes = .ok ()) :
    Healthy (steadyWorld totalBytes) totalBytes config where
  opened := fun _ _ => rfl
  served := by
    intro serial kind mode offset len hallowed hinside
    have hpermitted : ¬(kind = .pwrite ∧ mode = .readOnly) := by
      rintro ⟨hkind, hmode⟩
      rw [hallowed hkind] at hmode
      cases hmode
    have hanswers : (steadyWorld totalBytes).answers serial kind mode offset len =
        List.replicate len.toNat (.moved len) := by
      simp only [steadyWorld]
      rw [if_neg hpermitted, if_neg (Nat.not_lt.mpr hinside)]
    rw [hanswers]
    refine ⟨by simp, ?_⟩
    intro answer hmem
    obtain ⟨hne, rfl⟩ := List.mem_replicate.mp hmem
    refine ⟨len, ?_, rfl⟩
    rintro rfl
    exact hne rfl
  refused := fun _ _ _ => ⟨_, _, rfl⟩
  fetched := fun _ _ => rfl
  buffers := fun _ => rfl
  pool := hpool

def BenchConfig.quick (mode : BenchMode) (blockCount : UInt64)
    (includeWrites : Bool) : BenchConfig :=
  ⟨"/dev/sda", mode, blockCount, 256, includeWrites⟩

theorem quick_healthy (mode : BenchMode) (blockCount totalBytes : UInt64)
    (includeWrites : Bool) :
    Healthy (steadyWorld totalBytes) totalBytes
      (.quick mode blockCount includeWrites) := by
  apply steadyWorld_healthy
  show alignedBufferNew true (256 * 1024 * 1024) = .ok ()
  unfold alignedBufferNew
  rw [if_neg (by decide), if_neg (by decide), if_neg (by decide),
    if_neg (by decide)]

theorem readSuite_completes :
    Completes 4194304 (runBenchmarks (steadyWorld 4194304)
      (.quick .all 1000 false)) :=
  (runBenchmarks_completes_iff (quick_healthy .all 1000 4194304 false) rfl).mpr
    (.inl rfl)

/-- One sequential round with writes confirmed. -/
theorem confirmed_write_fails :
    ¬∀ (world : World) (totalBytes : UInt64) (config : BenchConfig),
      Healthy world totalBytes config →
      config.engineConfig.validate = .ok () →
      config.cacheSizeMb.toNat < 2 ^ 44 →
        Completes totalBytes (runBenchmarks world config) := by
  intro halways
  have hhealthy := quick_healthy .sequential 1 4194304 true
  have hcompletes := halways (steadyWorld 4194304) 4194304 (.quick .sequential 1 true)
    hhealthy rfl (by decide)
  exact runBenchmarks_writes hhealthy rfl rfl (by decide) hcompletes

end AsmCacheInject.Bench

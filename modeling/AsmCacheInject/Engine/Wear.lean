import AsmCacheInject.Engine.Failures

namespace AsmCacheInject.Engine.CacheEngine

open AsmCacheInject.Cache
open AsmCacheInject.Data
open AsmCacheInject.Flush

variable {setup : Setup}

/-! How the pool wears.  A fetch that fails with a slot in hand costs that slot
for good, and nothing else does; the engine serves as long as one slot is
left. -/

section Losses

variable (engine : CacheEngine setup)

instance (env : OpEnv setup) : Decidable (engine.SlotObtained env) :=
  inferInstanceAs (Decidable (_ ∨ _))

instance : (request : Request setup) → Decidable (engine.FetchLosesSlot request)
  | .read _ _ => inferInstanceAs (Decidable (∃ _ : _, _ ∧ _ ∧ _))
  | .write _ _ _ => inferInstanceAs (Decidable False)
  | .flush _ _ => inferInstanceAs (Decidable False)

def fetchLosses : CacheEngine setup → List (Request setup) → Nat
  | _, [] => 0
  | engine, request :: rest =>
      (if engine.FetchLosesSlot request then 1 else 0) +
        fetchLosses (engine.perform request).2 rest

end Losses

/-- Nothing is free and nothing can be evicted. -/
structure WornOut (engine : CacheEngine setup) : Prop where
  free : engine.freeList = []
  slots : engine.table.slots = []

namespace WornOut

variable {engine : CacheEngine setup}

theorem absent (hworn : engine.WornOut) (lba : Lba setup) :
    engine.table.slotOf lba = none := by
  apply Option.eq_none_iff_forall_ne_some.mpr
  intro slot hslot
  have hmem := LbaTable.mem_slots_iff.mpr ⟨lba, hslot⟩
  rw [hworn.slots] at hmem
  cases hmem

theorem allocateOrEvict_eq (hworn : engine.WornOut) (env : OpEnv setup) :
    engine.allocateOrEvict env = (.error (.internal
      "pool exhausted but cache table is empty — inconsistent state"),
      engine) := by
  have hselect : selectEvictionCandidate env.order engine.table = none :=
    selectEvictionCandidate_eq_none_iff.mpr hworn.slots
  simp only [allocateOrEvict, allocate, hworn.free, hselect]

theorem cachedRead_eq (hworn : engine.WornOut) (env : OpEnv setup)
    (lba : Lba setup) :
    engine.cachedRead env lba = (.error (.internal
      "pool exhausted but cache table is empty — inconsistent state"),
      engine) := by
  have hcall := hworn.allocateOrEvict_eq env
  rcases engine.cachedRead_cases env lba with
    ⟨slot, hslot, _⟩ | ⟨_, error, left, hfails, heq⟩ |
    ⟨_, slot, held, _, _, hgets, _⟩ | ⟨_, slot, held, hgets, _⟩
  · rw [hworn.absent lba] at hslot
    cases hslot
  · rw [hcall] at hfails
    cases hfails
    exact heq
  · rw [hcall] at hgets
    cases hgets
  · rw [hcall] at hgets
    cases hgets

theorem cachedWrite_eq (hworn : engine.WornOut) (env : OpEnv setup)
    (lba : Lba setup) (buf : Block setup) (hwritable : setup.readOnly = false) :
    engine.cachedWrite env lba buf = (.error (.internal
      "pool exhausted but cache table is empty — inconsistent state"),
      engine) := by
  have hcall := hworn.allocateOrEvict_eq env
  rcases engine.cachedWrite_cases env lba buf with
    ⟨hreadOnly, _⟩ | ⟨_, slot, _, hslot, _⟩ | ⟨_, _, error, left, hfails, heq⟩ |
    ⟨_, _, slot, held, _, hgets, _⟩
  · rw [hwritable] at hreadOnly
    cases hreadOnly
  · rw [hworn.absent lba] at hslot
    cases hslot
  · rw [hcall] at hfails
    cases hfails
    exact heq
  · rw [hcall] at hgets
    cases hgets

theorem perform_eq (hworn : engine.WornOut) (request : Request setup) :
    (engine.perform request).2 = engine := by
  cases request with
  | read env lba =>
      simp only [CacheEngine.perform, CacheEngine.read]
      split
      · next hlba => rw [hworn.cachedRead_eq env ⟨lba, hlba⟩]
      · rfl
  | write env lba buf =>
      simp only [CacheEngine.perform, CacheEngine.write]
      split
      · next hlba =>
        cases hmode : setup.readOnly with
        | true => simp only [cachedWrite, hmode, if_true]
        | false => rw [hworn.cachedWrite_eq env ⟨lba, hlba⟩ buf hmode]
      · rfl
  | flush order writes =>
      have hrows : Keyed.rows engine.table = [] := by
        have hslots := hworn.slots
        simpa [LbaTable.slots, Keyed.cells, Keyed.rows] using hslots
      have hdirty : engine.table.dirtyEntries order = [] := by
        have hperm := order.arrange_perm (Keyed.rows engine.table)
        rw [hrows] at hperm
        simp [LbaTable.dirtyEntries, hrows, hperm.eq_nil]
      simp only [CacheEngine.perform, flushDirtyBlocks, hdirty, flushLoop]

theorem runAll_eq (hworn : engine.WornOut) (run : List (Request setup)) :
    engine.runAll run = engine := by
  induction run with
  | nil => rfl
  | cons request rest ih =>
      calc
        engine.runAll (request :: rest) =
            (engine.perform request).2.runAll rest := rfl
        _ = engine.runAll rest := by rw [hworn.perform_eq request]
        _ = engine := ih

end WornOut

/-! The ledger counts the losses. -/

namespace Accounted

variable {engine : CacheEngine setup} {lost : List Nat}

theorem slots_count (haccounted : engine.Accounted lost) :
    engine.freeList.length + engine.table.stats.totalEntries + lost.length =
      setup.capacity := by
  have hlength := haccounted.ledger.length_eq
  simpa only [List.length_append, List.length_range,
    LbaTable.length_slots] using hlength

theorem perform_losses (haccounted : engine.Accounted lost)
    (request : Request setup) :
    ∃ lostNext, (engine.perform request).2.Accounted lostNext ∧
      lostNext.length = lost.length +
        if engine.FetchLosesSlot request then 1 else 0 := by
  split
  · next hloses =>
    obtain ⟨slot, hnext⟩ := haccounted.perform_lost hloses
    exact ⟨slot :: lost, hnext, rfl⟩
  · next hkept => exact ⟨lost, haccounted.perform_kept hkept, rfl⟩

theorem runAll_losses (haccounted : engine.Accounted lost)
    (run : List (Request setup)) :
    ∃ lostNext, (engine.runAll run).Accounted lostNext ∧
      lostNext.length = lost.length + fetchLosses engine run := by
  induction run generalizing engine lost with
  | nil => exact ⟨lost, haccounted, rfl⟩
  | cons request rest ih =>
      obtain ⟨middle, hmiddle, hone⟩ := haccounted.perform_losses request
      obtain ⟨lostNext, hnext, hrest⟩ := ih hmiddle
      refine ⟨lostNext, hnext, ?_⟩
      rw [hrest, hone, fetchLosses, Nat.add_assoc]

theorem wornOut_iff (haccounted : engine.Accounted lost) :
    engine.WornOut ↔ lost.length = setup.capacity := by
  have hcount := haccounted.slots_count
  rw [← LbaTable.length_slots] at hcount
  constructor
  · rintro ⟨hfree, hslots⟩
    rw [hfree, hslots] at hcount
    simpa using hcount
  · intro hall
    exact ⟨List.length_eq_zero_iff.mp (by omega),
      List.length_eq_zero_iff.mp (by omega)⟩

theorem allocateOrEvict_of_left (haccounted : engine.Accounted lost)
    (hleft : lost.length < setup.capacity) {env : OpEnv setup}
    (hevict : env.evict.succeeds = true) :
    ∃ slot held, engine.allocateOrEvict env = (.ok slot, held) := by
  rcases hcall : engine.allocateOrEvict env with ⟨error | slot, held⟩
  · obtain ⟨hfree, ⟨hselect, _⟩ | ⟨_, _, _, _, _, hfail, _⟩⟩ :=
      allocateOrEvict_error_cases hcall
    · have hworn : engine.WornOut :=
        ⟨hfree, selectEvictionCandidate_eq_none_iff.mp hselect⟩
      have hall := haccounted.wornOut_iff.mp hworn
      omega
    · exact absurd hfail (IoOutcome.ne_fail hevict _ _)
  · exact ⟨slot, held, rfl⟩

theorem cachedRead_of_left (haccounted : engine.Accounted lost)
    (hleft : lost.length < setup.capacity) {env : OpEnv setup}
    (hevict : env.evict.succeeds = true) (hfetch : env.fetch.succeeds = true)
    (lba : Lba setup) : ∃ result, (engine.cachedRead env lba).1 = .ok result := by
  obtain ⟨slot, held, hcall⟩ := haccounted.allocateOrEvict_of_left hleft hevict
  rcases engine.cachedRead_cases env lba with
    ⟨_, _, heq⟩ | ⟨_, error, left, hfails, _⟩ | ⟨_, _, _, _, _, _, hfail, _⟩ |
    ⟨_, _, _, _, _, heq⟩
  · exact ⟨_, congrArg Prod.fst heq⟩
  · rw [hcall] at hfails
    cases hfails
  · exact absurd hfail (IoOutcome.ne_fail hfetch _ _)
  · exact ⟨_, congrArg Prod.fst heq⟩

theorem cachedWrite_of_left (haccounted : engine.Accounted lost)
    (hleft : lost.length < setup.capacity) {env : OpEnv setup}
    (hevict : env.evict.succeeds = true) (hwritable : setup.readOnly = false)
    (lba : Lba setup) (buf : Block setup) :
    ∃ result, (engine.cachedWrite env lba buf).1 = .ok result := by
  obtain ⟨slot, held, hcall⟩ := haccounted.allocateOrEvict_of_left hleft hevict
  rcases engine.cachedWrite_cases env lba buf with
    ⟨hreadOnly, _⟩ | ⟨_, _, _, _, heq⟩ | ⟨_, _, error, left, hfails, _⟩ |
    ⟨_, _, _, _, _, _, heq⟩
  · rw [hwritable] at hreadOnly
    cases hreadOnly
  · exact ⟨_, congrArg Prod.fst heq⟩
  · rw [hcall] at hfails
    cases hfails
  · exact ⟨_, congrArg Prod.fst heq⟩

end Accounted

/-- Every in-range call is answered, as long as the device answers. -/
def Serves (engine : CacheEngine setup) : Prop :=
  ∀ (env : OpEnv setup) (lba : Nat) (buf : Block setup), lba < setup.maxLba →
    env.evict.succeeds = true → env.fetch.succeeds = true →
    (∃ result, (engine.read env lba).1 = .ok result) ∧
      (setup.readOnly = false → ∃ result, (engine.write env lba buf).1 = .ok result)

/-- No in-range call is ever answered again, however the device behaves and
whatever is tried in between. -/
def Stuck (engine : CacheEngine setup) : Prop :=
  ∀ (later : List (Request setup)) (env : OpEnv setup) (lba : Nat)
    (buf : Block setup), lba < setup.maxLba →
    (engine.runAll later).read env lba = (.error (.internal
      "pool exhausted but cache table is empty — inconsistent state"), engine) ∧
    (setup.readOnly = false →
      (engine.runAll later).write env lba buf = (.error (.internal
        "pool exhausted but cache table is empty — inconsistent state"), engine))

theorem Accounted.serves {engine : CacheEngine setup} {lost : List Nat}
    (haccounted : engine.Accounted lost) (hleft : lost.length < setup.capacity) :
    engine.Serves := by
  intro env lba buf hlba hevict hfetch
  rw [read_of_lt env hlba, write_of_lt env hlba]
  exact ⟨haccounted.cachedRead_of_left hleft hevict hfetch ⟨lba, hlba⟩,
    fun hwritable =>
      haccounted.cachedWrite_of_left hleft hevict hwritable ⟨lba, hlba⟩ buf⟩

theorem WornOut.stuck {engine : CacheEngine setup} (hworn : engine.WornOut) :
    engine.Stuck := by
  intro later env lba buf hlba
  rw [hworn.runAll_eq later, read_of_lt env hlba, write_of_lt env hlba]
  exact ⟨hworn.cachedRead_eq env ⟨lba, hlba⟩,
    hworn.cachedWrite_eq env ⟨lba, hlba⟩ buf⟩

/-- After any run the free slots, the cached blocks and the failed fetches add
up to the pool; below that many failures the engine still serves, and with the
last slot gone it is stuck for good. -/
theorem pool_wears_out (image : Image) (flusher : Option FlushChannel)
    (run : List (Request setup)) :
    ((boot setup image flusher).runAll run).freeList.length +
        ((boot setup image flusher).runAll run).table.stats.totalEntries +
        fetchLosses (boot setup image flusher) run = setup.capacity ∧
      (fetchLosses (boot setup image flusher) run < setup.capacity →
        ((boot setup image flusher).runAll run).Serves) ∧
      (fetchLosses (boot setup image flusher) run = setup.capacity →
        ((boot setup image flusher).runAll run).Stuck) := by
  obtain ⟨lost, haccounted, hlength⟩ :=
    (Accounted.boot image flusher).runAll_losses run
  rw [List.length_nil, Nat.zero_add] at hlength
  rw [← hlength]
  exact ⟨haccounted.slots_count, haccounted.serves,
    fun hall => (haccounted.wornOut_iff.mpr hall).stuck⟩

/-- One failed fetch, and the pool of one block is gone. -/
theorem failedFetch_wears_out :
    ((boot (.mini 0) (fun _ => 0) none).runAll [.read {
        now := 1
        later := 2
        order := .stored
        evict := .ok
        fetch := .fail ⟨.other, "Input/output error (os error 5)"⟩
          fun _ => 0 } 0]).Stuck :=
  (pool_wears_out (fun _ => 0) none _).2.2 (by decide)

end AsmCacheInject.Engine.CacheEngine

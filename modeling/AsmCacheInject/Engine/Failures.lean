import AsmCacheInject.Engine.Accounting

namespace AsmCacheInject.Engine

open AsmCacheInject.Cache
open AsmCacheInject.Data
open AsmCacheInject.Flush

variable {setup : Setup}

namespace CacheEngine

/-! Failing calls: when a sequential operation returns an error, and what it
leaves behind. -/

/-- A miss has to give up a dirty victim and cannot write it back. -/
structure VictimWriteFails (env : OpEnv setup) (engine : CacheEngine setup) :
    Prop where
  exhausted : engine.freeList = []
  only_dirty : ∀ lba entry, engine.table.get lba = some entry →
    entry.dirty = true
  chosen : ∃ candidate,
    selectEvictionCandidate env.order engine.table = some candidate
  fails : env.evict.succeeds = false

namespace Accounted

variable {engine : CacheEngine setup}

theorem allocateOrEvict_error_iff (haccounted : engine.Accounted [])
    (env : OpEnv setup) :
    (∃ error left, engine.allocateOrEvict env = (.error error, left)) ↔
      engine.VictimWriteFails env := by
  constructor
  · rintro ⟨error, left, hcall⟩
    obtain ⟨hfree, ⟨hselect, _⟩ |
      ⟨candidate, failure, torn, hselect, hflush, hevict, _⟩⟩ :=
      allocateOrEvict_error_cases hcall
    · exact absurd hselect
        (haccounted.selectEvictionCandidate_ne_none hfree env.order)
    · refine ⟨hfree, ?_, ⟨candidate, hselect⟩, by rw [hevict]; rfl⟩
      intro lba entry hget
      have hnever := selectEvictionCandidate_dirty hselect hflush lba
      cases hdirty : entry.dirty with
      | true => rfl
      | false =>
          exact absurd
            (LbaTable.dirtyOf_eq_some_iff.mpr ⟨entry, hget, hdirty⟩) hnever
  · rintro ⟨hfree, honly, ⟨victim, hvictim⟩, hfails⟩
    obtain ⟨lba, entry, hentry, rfl⟩ :=
      selectEvictionCandidate_expendable hvictim
    have hdirty := honly lba entry hentry.stored
    rcases engine.allocateOrEvict_cases env with
      ⟨_, _, hcons, _⟩ | ⟨_, _, heq⟩ | ⟨_, _, _, _, _, _, _, heq⟩ |
      ⟨_, _, _, _, hevict, _⟩ | ⟨candidate, _, hselect, hflush, _⟩
    · rw [hfree] at hcons
      cases hcons
    · exact ⟨_, _, heq⟩
    · exact ⟨_, _, heq⟩
    · rw [hevict] at hfails
      cases hfails
    · rw [hvictim] at hselect
      cases hselect
      rw [hdirty] at hflush
      cases hflush

theorem cachedRead_error_iff (haccounted : engine.Accounted [])
    (env : OpEnv setup) (lba : Lba setup) :
    (∃ error, (engine.cachedRead env lba).1 = .error error) ↔
      engine.table.get lba = none ∧ (engine.VictimWriteFails env ∨
        engine.SlotObtained env ∧ env.fetch.succeeds = false) := by
  rw [← LbaTable.slotOf_eq_none_iff, ← haccounted.allocateOrEvict_error_iff env]
  rcases engine.cachedRead_cases env lba with
    ⟨slot, hslot, heq⟩ | ⟨habsent, error, left, hcall, heq⟩ |
    ⟨habsent, slot, held, error, torn, hcall, hfetch, heq⟩ |
    ⟨habsent, slot, held, hcall, hfetch, heq⟩
  · simp [heq, hslot]
  · simp [heq, habsent, hcall]
  · have hobtained := slotObtained_of_ok hcall
    simp [heq, habsent, hobtained, hfetch, IoOutcome.succeeds]
  · simp [heq, hcall, hfetch, IoOutcome.succeeds]

theorem cachedWrite_error_iff (haccounted : engine.Accounted [])
    (hwritable : setup.readOnly = false) (env : OpEnv setup) (lba : Lba setup)
    (buf : Block setup) :
    (∃ error, (engine.cachedWrite env lba buf).1 = .error error) ↔
      engine.table.get lba = none ∧ engine.VictimWriteFails env := by
  rw [← LbaTable.slotOf_eq_none_iff, ← haccounted.allocateOrEvict_error_iff env]
  rcases engine.cachedWrite_cases env lba buf with
    ⟨hreadOnly, _⟩ | ⟨_, slot, flusher, hslot, heq⟩ |
    ⟨_, habsent, error, left, hcall, heq⟩ |
    ⟨_, habsent, slot, held, flusher, hcall, heq⟩
  · rw [hwritable] at hreadOnly
    cases hreadOnly
  · simp [heq, hslot]
  · simp [heq, habsent, hcall]
  · simp [heq, hcall]

theorem cachedRead_error_io (haccounted : engine.Accounted [])
    {env : OpEnv setup} {lba : Lba setup} {error : CacheError}
    (herror : (engine.cachedRead env lba).1 = .error error) :
    ∃ operation failure, error = .ofIo operation failure := by
  rcases engine.cachedRead_cases env lba with
    ⟨slot, _, heq⟩ | ⟨_, failure, left, hcall, heq⟩ |
    ⟨_, slot, held, failure, torn, _, _, heq⟩ | ⟨_, slot, held, _, _, heq⟩
  · rw [heq] at herror
    cases herror
  · rw [heq] at herror
    cases herror
    exact ⟨"pwrite", haccounted.allocateOrEvict_error_io hcall⟩
  · rw [heq] at herror
    cases herror
    exact ⟨"pread", failure, rfl⟩
  · rw [heq] at herror
    cases herror

theorem cachedWrite_error_io (haccounted : engine.Accounted [])
    (hwritable : setup.readOnly = false) {env : OpEnv setup}
    {lba : Lba setup} {buf : Block setup} {error : CacheError}
    (herror : (engine.cachedWrite env lba buf).1 = .error error) :
    ∃ operation failure, error = .ofIo operation failure := by
  rcases engine.cachedWrite_cases env lba buf with
    ⟨hreadOnly, _⟩ | ⟨_, slot, flusher, _, heq⟩ |
    ⟨_, _, failure, left, hcall, heq⟩ | ⟨_, _, slot, held, flusher, _, heq⟩
  · rw [hwritable] at hreadOnly
    cases hreadOnly
  · rw [heq] at herror
    cases herror
  · rw [heq] at herror
    cases herror
    exact ⟨"pwrite", haccounted.allocateOrEvict_error_io hcall⟩
  · rw [heq] at herror
    cases herror

end Accounted

theorem read_of_lt {engine : CacheEngine setup} (env : OpEnv setup) {lba : Nat}
    (hlba : lba < setup.maxLba) :
    engine.read env lba = engine.cachedRead env ⟨lba, hlba⟩ :=
  dif_pos hlba

theorem write_of_lt {engine : CacheEngine setup} (env : OpEnv setup) {lba : Nat}
    (hlba : lba < setup.maxLba) (buf : Block setup) :
    engine.write env lba buf = engine.cachedWrite env ⟨lba, hlba⟩ buf :=
  dif_pos hlba

theorem read_of_le {engine : CacheEngine setup} (env : OpEnv setup) {lba : Nat}
    (hlba : setup.maxLba ≤ lba) :
    engine.read env lba = (.error (.lbaOutOfRange lba setup.maxLba), engine) :=
  dif_neg (Nat.not_lt.mpr hlba)

theorem write_of_le {engine : CacheEngine setup} (env : OpEnv setup) {lba : Nat}
    (hlba : setup.maxLba ≤ lba) (buf : Block setup) :
    engine.write env lba buf =
      (.error (.lbaOutOfRange lba setup.maxLba), engine) :=
  dif_neg (Nat.not_lt.mpr hlba)

namespace Accounted

variable {engine : CacheEngine setup}

theorem read_error_iff (haccounted : engine.Accounted []) (env : OpEnv setup)
    (lba : Nat) :
    (∃ error, (engine.read env lba).1 = .error error) ↔
      setup.maxLba ≤ lba ∨ ∃ hlba : lba < setup.maxLba,
        engine.table.get ⟨lba, hlba⟩ = none ∧ (engine.VictimWriteFails env ∨
          engine.SlotObtained env ∧ env.fetch.succeeds = false) := by
  rcases Nat.lt_or_ge lba setup.maxLba with hlba | hlba
  · rw [read_of_lt env hlba, haccounted.cachedRead_error_iff]
    simp [hlba]
  · simp [read_of_le env hlba, hlba]

theorem write_error_iff (haccounted : engine.Accounted [])
    (hwritable : setup.readOnly = false) (env : OpEnv setup) (lba : Nat)
    (buf : Block setup) :
    (∃ error, (engine.write env lba buf).1 = .error error) ↔
      setup.maxLba ≤ lba ∨ ∃ hlba : lba < setup.maxLba,
        engine.table.get ⟨lba, hlba⟩ = none ∧ engine.VictimWriteFails env := by
  rcases Nat.lt_or_ge lba setup.maxLba with hlba | hlba
  · rw [write_of_lt env hlba, haccounted.cachedWrite_error_iff hwritable]
    simp [hlba]
  · simp [write_of_le env hlba, hlba]

theorem read_error_kind (haccounted : engine.Accounted []) {env : OpEnv setup}
    {lba : Nat} {error : CacheError}
    (herror : (engine.read env lba).1 = .error error) :
    error = .lbaOutOfRange lba setup.maxLba ∨
      ∃ operation failure, error = .ofIo operation failure := by
  rcases Nat.lt_or_ge lba setup.maxLba with hlba | hlba
  · rw [read_of_lt env hlba] at herror
    exact Or.inr (haccounted.cachedRead_error_io herror)
  · rw [read_of_le env hlba] at herror
    cases herror
    exact Or.inl rfl

theorem write_error_kind (haccounted : engine.Accounted [])
    (hwritable : setup.readOnly = false) {env : OpEnv setup} {lba : Nat}
    {buf : Block setup} {error : CacheError}
    (herror : (engine.write env lba buf).1 = .error error) :
    error = .lbaOutOfRange lba setup.maxLba ∨
      ∃ operation failure, error = .ofIo operation failure := by
  rcases Nat.lt_or_ge lba setup.maxLba with hlba | hlba
  · rw [write_of_lt env hlba] at herror
    exact Or.inr (haccounted.cachedWrite_error_io hwritable herror)
  · rw [write_of_le env hlba] at herror
    cases herror
    exact Or.inl rfl

end Accounted

def BlamesPool (error : CacheError) : Prop :=
  (∃ inUse capacity, error = .poolExhausted inUse capacity) ∨
    ∃ message, error = .internal message

theorem not_blamesPool {error : CacheError} {lba maxLba : Nat}
    (hkind : error = .lbaOutOfRange lba maxLba ∨
      ∃ operation failure, error = .ofIo operation failure) :
    ¬BlamesPool error := by
  rintro (⟨inUse, capacity, hpool⟩ | ⟨message, hinternal⟩)
  · rcases hkind with rfl | ⟨operation, failure, rfl⟩
    · cases hpool
    · exact CacheError.ofIo_ne_poolExhausted _ _ _ _ hpool
  · rcases hkind with rfl | ⟨operation, failure, rfl⟩
    · cases hinternal
    · exact CacheError.ofIo_ne_internal _ _ _ hinternal

theorem sequential_failures (hwritable : setup.readOnly = false) (image : Image)
    (flusher : Option FlushChannel) (run : List (Request setup))
    (hfetched : ∀ past request rest, run = past ++ request :: rest →
      ¬((boot setup image flusher).runAll past).FetchLosesSlot request)
    (env : OpEnv setup) (lba : Nat) (buf : Block setup) :
    let engine := (boot setup image flusher).runAll run
    ((∃ error, (engine.read env lba).1 = .error error) ↔
      setup.maxLba ≤ lba ∨ ∃ hlba : lba < setup.maxLba,
        engine.table.get ⟨lba, hlba⟩ = none ∧ (engine.VictimWriteFails env ∨
          engine.SlotObtained env ∧ env.fetch.succeeds = false)) ∧
    ((∃ error, (engine.write env lba buf).1 = .error error) ↔
      setup.maxLba ≤ lba ∨ ∃ hlba : lba < setup.maxLba,
        engine.table.get ⟨lba, hlba⟩ = none ∧ engine.VictimWriteFails env) ∧
    (∀ error, (engine.read env lba).1 = .error error → ¬BlamesPool error) ∧
    (∀ error, (engine.write env lba buf).1 = .error error →
      ¬BlamesPool error) ∧
    ∀ hlba : lba < setup.maxLba, engine.table.get ⟨lba, hlba⟩ ≠ none →
      (∃ result, (engine.read env lba).1 = .ok result) ∧
        ∃ result, (engine.write env lba buf).1 = .ok result := by
  intro engine
  have haccounted : engine.Accounted [] :=
    (Accounted.boot image flusher).runAll_kept hfetched
  refine ⟨haccounted.read_error_iff env lba,
    haccounted.write_error_iff hwritable env lba buf, ?_, ?_, ?_⟩
  · intro error herror
    exact not_blamesPool (haccounted.read_error_kind herror)
  · intro error herror
    exact not_blamesPool (haccounted.write_error_kind hwritable herror)
  · intro hlba hcached
    constructor
    · cases hread : (engine.read env lba).1 with
      | ok result => exact ⟨result, rfl⟩
      | error error =>
          rw [read_of_lt env hlba] at hread
          have habsent :=
            ((haccounted.cachedRead_error_iff env ⟨lba, hlba⟩).mp
              ⟨error, hread⟩).1
          exact absurd habsent hcached
    · cases hwrite : (engine.write env lba buf).1 with
      | ok result => exact ⟨result, rfl⟩
      | error error =>
          rw [write_of_lt env hlba] at hwrite
          have habsent :=
            ((haccounted.cachedWrite_error_iff hwritable env ⟨lba, hlba⟩
              buf).mp ⟨error, hwrite⟩).1
          exact absurd habsent hcached

/-- One dirty block in a pool of one: a miss cannot make room when the
write-back fails. -/
theorem sequential_failures_dirty_victim :
    ∃ error, (((boot (.mini 0) (fun _ => 0) none).runAll
      [.write ⟨1, 1, .stored, .ok, .ok⟩ 0 fun _ => 5]).read
        ⟨2, 2, .stored, .fail ⟨.other, "Input/output error (os error 5)"⟩
          fun _ => 9, .ok⟩ 1).1 = .error error := by
  have hfetched : ∀ past request rest,
      [Request.write (⟨1, 1, .stored, .ok, .ok⟩ : OpEnv (.mini 0)) 0 fun _ => 5] =
        past ++ request :: rest →
      ¬((boot (.mini 0) (fun _ => 0) none).runAll past).FetchLosesSlot
        request := by
    intro past request rest hsplit
    cases past with
    | nil =>
        cases hsplit
        exact id
    | cons head tail => simp at hsplit
  apply (sequential_failures rfl (fun _ => 0) none _ hfetched _ 1
    fun _ => 0).1.mpr
  have hclean : ∀ lba, ((boot (.mini 0) (fun _ => 0) none).runAll
      [.write ⟨1, 1, .stored, .ok, .ok⟩ 0 fun _ => 5]).table.dirtyOf lba ≠
        some false := by
    decide +kernel
  refine Or.inr ⟨by decide, by decide +kernel, Or.inl ⟨rfl, ?_, ⟨_, rfl⟩, rfl⟩⟩
  intro lba entry hget
  cases hdirty : entry.dirty with
  | true => rfl
  | false =>
      exact absurd
        (LbaTable.dirtyOf_eq_some_iff.mpr ⟨entry, hget, hdirty⟩) (hclean lba)

/-! A failed write is undone: it leaves table and pool alone, and of the device
at most the block of the victim it could not write back. -/

/-- `next` differs from `engine` at most in the device block of the victim that
`env` would have evicted, and the victim is still cached and dirty. -/
structure OnlyVictimTorn (env : OpEnv setup) (engine next : CacheEngine setup) :
    Prop where
  table : next.table = engine.table
  freeList : next.freeList = engine.freeList
  blocks : next.blocks = engine.blocks
  device : next.device = engine.device ∨
    ∃ candidate entry,
      selectEvictionCandidate env.order engine.table = some candidate ∧
      next.table.get candidate.lba = some entry ∧ entry.dirty = true ∧
      ∀ position, position < candidate.lba.val * setup.blockSize ∨
        candidate.lba.val * setup.blockSize + setup.blockSize ≤ position →
        next.device position = engine.device position

theorem OnlyVictimTorn.refl (env : OpEnv setup) (engine : CacheEngine setup) :
    OnlyVictimTorn env engine engine :=
  ⟨rfl, rfl, rfl, Or.inl rfl⟩

theorem allocateOrEvict_error_onlyVictimTorn {engine left : CacheEngine setup}
    (hkeyed : engine.table.SelfKeyed) {env : OpEnv setup} {error : CacheError}
    (hcall : engine.allocateOrEvict env = (.error error, left)) :
    OnlyVictimTorn env engine left := by
  obtain ⟨_, ⟨_, _, rfl⟩ | ⟨candidate, _, torn, hselect, hflush, _, _, rfl⟩⟩ :=
    allocateOrEvict_error_cases hcall
  · exact OnlyVictimTorn.refl env _
  · obtain ⟨_, hdirty⟩ := selectEvictionCandidate_spec hkeyed hselect
    rw [hflush] at hdirty
    obtain ⟨entry, hget, hentry⟩ := LbaTable.dirtyOf_eq_some_iff.mp hdirty
    refine ⟨rfl, rfl, rfl, Or.inr ⟨candidate, entry, hselect, hget, hentry, ?_⟩⟩
    intro position houtside
    apply ByteImage.writeAt_outside
    rw [lbaOffset_eq]
    exact houtside

theorem cachedWrite_error_onlyVictimTorn {engine : CacheEngine setup}
    (hkeyed : engine.table.SelfKeyed) {env : OpEnv setup} {lba : Lba setup}
    {buf : Block setup} {error : CacheError}
    (herror : (engine.cachedWrite env lba buf).1 = .error error) :
    OnlyVictimTorn env engine (engine.cachedWrite env lba buf).2 := by
  rcases engine.cachedWrite_cases env lba buf with
    ⟨_, heq⟩ | ⟨_, slot, flusher, _, heq⟩ | ⟨_, _, failure, left, hcall, heq⟩ |
    ⟨_, _, slot, held, flusher, _, heq⟩
  · rw [heq]
    exact OnlyVictimTorn.refl env engine
  · rw [heq] at herror
    cases herror
  · rw [heq]
    exact allocateOrEvict_error_onlyVictimTorn hkeyed hcall
  · rw [heq] at herror
    cases herror

theorem runAll_failed_write_atomic (image : Image)
    (flusher : Option FlushChannel) (run : List (Request setup))
    (env : OpEnv setup) (lba : Nat) (buf : Block setup) (error : CacheError)
    (herror : (((boot setup image flusher).runAll run).write env lba buf).1 =
      .error error) :
    OnlyVictimTorn env ((boot setup image flusher).runAll run)
      (((boot setup image flusher).runAll run).write env lba buf).2 := by
  obtain ⟨lost, haccounted⟩ := runAll_accounted image flusher run
  rcases Nat.lt_or_ge lba setup.maxLba with hlba | hlba
  · rw [write_of_lt env hlba] at herror ⊢
    exact cachedWrite_error_onlyVictimTorn haccounted.keyed herror
  · rw [write_of_le env hlba]
    exact OnlyVictimTorn.refl env _

/-- The second write finds the first one in its way and fails to evict it. -/
theorem torn_victim_still_dirty :
    (((boot (.mini 0) (fun _ => 0) none).runAll
      [.write ⟨1, 1, .stored, .ok, .ok⟩ 0 fun _ => 5]).write
        ⟨2, 2, .stored, .fail ⟨.other, "Input/output error (os error 5)"⟩
          fun _ => 9, .ok⟩ 1 fun _ => 7).2.table =
      ((boot (.mini 0) (fun _ => 0) none).runAll
        [.write ⟨1, 1, .stored, .ok, .ok⟩ 0 fun _ => 5]).table :=
  (runAll_failed_write_atomic (fun _ => 0) none _ _ 1 (fun _ => 7)
    (.io "pwrite" ⟨.other, "Input/output error (os error 5)"⟩) rfl).table

end CacheEngine

end AsmCacheInject.Engine

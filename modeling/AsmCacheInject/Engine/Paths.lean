import AsmCacheInject.Data.Register
import AsmCacheInject.Engine.State

namespace AsmCacheInject.Engine

open AsmCacheInject.Cache
open AsmCacheInject.Data
open AsmCacheInject.Flush

variable {setup : Setup}

/-! The read path, the write path and the flush cycle, each run to completion.
`OpEnv` is what the surroundings decide during one call: the clock readings,
the order the hash map is walked in, and the fate of the two transfers. -/

structure OpEnv (setup : Setup) where
  now : Instant
  later : Instant
  order : HashOrder (CacheEntry (Lba setup))
  evict : IoOutcome setup
  fetch : IoOutcome setup

/-- The result of a read together with the user buffer it filled. -/
structure ReadResult (setup : Setup) where
  cacheHit : Bool
  data : Block setup

structure WriteResult where
  wasUpdate : Bool
  deriving DecidableEq, Repr

namespace CacheEngine

def dropVictim (candidate : EvictionCandidate (Lba setup))
    (engine : CacheEngine setup) : CacheEngine setup :=
  CacheEngine.deallocate candidate.poolIndex
    { engine with table := (engine.table.remove candidate.lba).2 }

def allocateOrEvict (env : OpEnv setup) (engine : CacheEngine setup) :
    Except CacheError Nat × CacheEngine setup :=
  match engine.allocate with
  | (.ok slot, taken) => (.ok slot, taken)
  | (.error _, _) =>
      match selectEvictionCandidate env.order engine.table with
      | none =>
          (.error (.internal
            "pool exhausted but cache table is empty — inconsistent state"),
            engine)
      | some candidate =>
          if candidate.needsFlush then
            match engine.writeBack env.evict candidate.lba
                candidate.poolIndex with
            | (.error error, torn) => (.error error, torn)
            | (.ok (), written) => (written.wake.dropVictim candidate).allocate
          else (engine.dropVictim candidate).allocate

def cachedRead (env : OpEnv setup) (lba : Lba setup)
    (engine : CacheEngine setup) :
    Except CacheError (ReadResult setup) × CacheEngine setup :=
  match engine.table.getAndTouch env.now lba with
  | (some slot, table) =>
      (.ok ⟨true, engine.blocks slot⟩, { engine with table := table })
  | (none, _) =>
      match engine.allocateOrEvict env with
      | (.error error, left) => (.error error, left)
      | (.ok slot, held) =>
          match held.fetch env.fetch lba slot with
          | (.error error, left) => (.error error, left)
          | (.ok (), loaded) =>
              let entry := CacheEntry.new env.now lba slot
              (.ok ⟨false, loaded.blocks slot⟩,
                { loaded with table := (loaded.table.insert lba entry).2 })

def maybeWakeFlusher (engine : CacheEngine setup) : CacheEngine setup :=
  let stats := engine.table.stats
  if setup.schedule.shouldFlushImmediately stats.dirtyEntries
      stats.totalEntries then
    engine.wake
  else engine

def cachedWrite (env : OpEnv setup) (lba : Lba setup) (buf : Block setup)
    (engine : CacheEngine setup) :
    Except CacheError WriteResult × CacheEngine setup :=
  if setup.readOnly then
    (.error (.config "write rejected: engine is in read-only mode"), engine)
  else
    match engine.table.get lba with
    | some entry =>
        let stored := engine.fill entry.poolIndex buf
        let marked :=
          { stored with table := stored.table.markDirty env.now lba }
        (.ok ⟨true⟩, maybeWakeFlusher marked)
    | none =>
        match engine.allocateOrEvict env with
        | (.error error, left) => (.error error, left)
        | (.ok slot, held) =>
            let stored := held.fill slot buf
            let entry :=
              (CacheEntry.new env.now lba slot).markDirty env.later
            let inserted :=
              { stored with table := (stored.table.insert lba entry).2 }
            (.ok ⟨false⟩, maybeWakeFlusher inserted)

def flushLoop (writes : Lba setup → IoOutcome setup) :
    List (Lba setup × Nat) → Nat → CacheEngine setup → Nat × CacheEngine setup
  | [], flushed, engine => (flushed, engine)
  | (lba, slot) :: rest, flushed, engine =>
      match engine.writeBack (writes lba) lba slot with
      | (.ok (), written) =>
          flushLoop writes rest (flushed + 1)
            { written with table := written.table.markClean lba }
      | (.error _, torn) => flushLoop writes rest flushed torn

def flushDirtyBlocks (order : HashOrder (CacheEntry (Lba setup)))
    (writes : Lba setup → IoOutcome setup) (engine : CacheEngine setup) :
    Nat × CacheEngine setup :=
  flushLoop writes (engine.table.dirtyEntries order) 0 engine

def read (env : OpEnv setup) (lba : Nat) (engine : CacheEngine setup) :
    Except CacheError (ReadResult setup) × CacheEngine setup :=
  if hlba : lba < setup.maxLba then engine.cachedRead env ⟨lba, hlba⟩
  else (.error (.lbaOutOfRange lba setup.maxLba), engine)

def write (env : OpEnv setup) (lba : Nat) (buf : Block setup)
    (engine : CacheEngine setup) :
    Except CacheError WriteResult × CacheEngine setup :=
  if hlba : lba < setup.maxLba then engine.cachedWrite env ⟨lba, hlba⟩ buf
  else (.error (.lbaOutOfRange lba setup.maxLba), engine)

end CacheEngine

/-! Sequential runs. -/

inductive Request (setup : Setup)
  | read (env : OpEnv setup) (lba : Nat)
  | write (env : OpEnv setup) (lba : Nat) (buf : Block setup)
  | flush (order : HashOrder (CacheEntry (Lba setup)))
      (writes : Lba setup → IoOutcome setup)

inductive Reply (setup : Setup)
  | read (result : Except CacheError (ReadResult setup))
  | write (result : Except CacheError WriteResult)
  | flushed (count : Nat)

namespace CacheEngine

def perform (engine : CacheEngine setup) :
    Request setup → Reply setup × CacheEngine setup
  | .read env lba =>
      let (result, next) := engine.read env lba
      (.read result, next)
  | .write env lba buf =>
      let (result, next) := engine.write env lba buf
      (.write result, next)
  | .flush order writes =>
      let (count, next) := engine.flushDirtyBlocks order writes
      (.flushed count, next)

def runAll (engine : CacheEngine setup) (run : List (Request setup)) :
    CacheEngine setup :=
  run.foldl (fun state request => (state.perform request).2) engine

end CacheEngine

abbrev BlockEvent (setup : Setup) :=
  Register.Event (Lba setup) (Block setup)

/-- What a client learns from one call: the block an `Ok` read returned, or
that an `Ok` write took effect. -/
def Request.acknowledged : Request setup → Reply setup → List (BlockEvent setup)
  | .read _ lba, .read (.ok result) =>
      if hlba : lba < setup.maxLba then [.read ⟨lba, hlba⟩ result.data] else []
  | .write _ lba buf, .write (.ok _) =>
      if hlba : lba < setup.maxLba then [.write ⟨lba, hlba⟩ buf] else []
  | _, _ => []

def CacheEngine.history (engine : CacheEngine setup) :
    List (Request setup) → List (BlockEvent setup)
  | [] => []
  | request :: rest =>
      request.acknowledged (engine.perform request).1 ++
        history (engine.perform request).2 rest

namespace CacheEngine

theorem runAll_append (engine : CacheEngine setup)
    (first second : List (Request setup)) :
    engine.runAll (first ++ second) = (engine.runAll first).runAll second :=
  List.foldl_append

/-! Everything `allocate_or_evict` can do. -/

theorem allocateOrEvict_cases (env : OpEnv setup) (engine : CacheEngine setup) :
    (∃ slot rest, engine.freeList = slot :: rest ∧
      engine.allocateOrEvict env = (.ok slot, { engine with freeList := rest })) ∨
    (engine.freeList = [] ∧
      selectEvictionCandidate env.order engine.table = none ∧
      engine.allocateOrEvict env = (.error (.internal
        "pool exhausted but cache table is empty — inconsistent state"),
        engine)) ∨
    (∃ candidate error torn, engine.freeList = [] ∧
      selectEvictionCandidate env.order engine.table = some candidate ∧
      candidate.needsFlush = true ∧ env.evict = .fail error torn ∧
      engine.allocateOrEvict env = (.error (.ofIo "pwrite" error),
        { engine with device := writeLba engine.device candidate.lba torn })) ∨
    (∃ candidate, engine.freeList = [] ∧
      selectEvictionCandidate env.order engine.table = some candidate ∧
      candidate.needsFlush = true ∧ env.evict = .ok ∧
      engine.allocateOrEvict env = (.ok candidate.poolIndex,
        { engine with
          table := (engine.table.remove candidate.lba).2
          device := writeLba engine.device candidate.lba
            (engine.blocks candidate.poolIndex)
          flusher := engine.flusher.map FlushChannel.wake })) ∨
    (∃ candidate, engine.freeList = [] ∧
      selectEvictionCandidate env.order engine.table = some candidate ∧
      candidate.needsFlush = false ∧
      engine.allocateOrEvict env = (.ok candidate.poolIndex,
        { engine with table := (engine.table.remove candidate.lba).2 })) := by
  cases hfree : engine.freeList with
  | cons slot rest =>
      left
      exact ⟨slot, rest, rfl, by simp [allocateOrEvict, allocate, hfree]⟩
  | nil =>
      right
      cases hselect : selectEvictionCandidate env.order engine.table with
      | none =>
          left
          exact ⟨rfl, rfl, by
            simp [allocateOrEvict, allocate, hfree, hselect]⟩
      | some candidate =>
          right
          cases hflush : candidate.needsFlush with
          | false =>
              right
              right
              exact ⟨candidate, rfl, rfl, hflush, by
                simp [allocateOrEvict, allocate, hfree, hselect, hflush,
                  dropVictim, deallocate]⟩
          | true =>
              cases hevict : env.evict with
              | fail error torn =>
                  left
                  exact ⟨candidate, error, torn, rfl, rfl, hflush, rfl, by
                    simp [allocateOrEvict, allocate, hfree, hselect, hflush,
                      writeBack, hevict]⟩
              | ok =>
                  right
                  left
                  exact ⟨candidate, rfl, rfl, hflush, rfl, by
                    simp [allocateOrEvict, allocate, hfree, hselect, hflush,
                      writeBack, hevict, wake, dropVictim, deallocate]⟩

theorem allocateOrEvict_ok_cases {env : OpEnv setup}
    {engine next : CacheEngine setup} {slot : Nat}
    (hcall : engine.allocateOrEvict env = (.ok slot, next)) :
    (∃ rest, engine.freeList = slot :: rest ∧
      next = { engine with freeList := rest }) ∨
    (∃ candidate, engine.freeList = [] ∧
      selectEvictionCandidate env.order engine.table = some candidate ∧
      candidate.needsFlush = true ∧ env.evict = .ok ∧
      slot = candidate.poolIndex ∧
      next = { engine with
        table := (engine.table.remove candidate.lba).2
        device := writeLba engine.device candidate.lba
          (engine.blocks candidate.poolIndex)
        flusher := engine.flusher.map FlushChannel.wake }) ∨
    (∃ candidate, engine.freeList = [] ∧
      selectEvictionCandidate env.order engine.table = some candidate ∧
      candidate.needsFlush = false ∧ slot = candidate.poolIndex ∧
      next = { engine with table := (engine.table.remove candidate.lba).2 }) := by
  rcases engine.allocateOrEvict_cases env with
    ⟨head, rest, hfree, heq⟩ | ⟨_, _, heq⟩ | ⟨_, _, _, _, _, _, _, heq⟩ |
    ⟨candidate, hfree, hselect, hflush, hevict, heq⟩ |
    ⟨candidate, hfree, hselect, hflush, heq⟩
  · rw [heq] at hcall
    cases hcall
    exact .inl ⟨rest, hfree, rfl⟩
  · rw [heq] at hcall
    cases hcall
  · rw [heq] at hcall
    cases hcall
  · rw [heq] at hcall
    cases hcall
    exact .inr (.inl ⟨candidate, hfree, hselect, hflush, hevict, rfl, rfl⟩)
  · rw [heq] at hcall
    cases hcall
    exact .inr (.inr ⟨candidate, hfree, hselect, hflush, rfl, rfl⟩)

theorem allocateOrEvict_error_cases {env : OpEnv setup}
    {engine next : CacheEngine setup} {error : CacheError}
    (hcall : engine.allocateOrEvict env = (.error error, next)) :
    engine.freeList = [] ∧
      ((selectEvictionCandidate env.order engine.table = none ∧
        error = .internal
          "pool exhausted but cache table is empty — inconsistent state" ∧
        next = engine) ∨
      ∃ candidate failure torn,
        selectEvictionCandidate env.order engine.table = some candidate ∧
        candidate.needsFlush = true ∧ env.evict = .fail failure torn ∧
        error = .ofIo "pwrite" failure ∧
        next = { engine with
          device := writeLba engine.device candidate.lba torn }) := by
  rcases engine.allocateOrEvict_cases env with
    ⟨_, _, _, heq⟩ | ⟨hfree, hselect, heq⟩ |
    ⟨candidate, failure, torn, hfree, hselect, hflush, hevict, heq⟩ |
    ⟨_, _, _, _, _, heq⟩ | ⟨_, _, _, _, heq⟩
  · rw [heq] at hcall
    cases hcall
  · rw [heq] at hcall
    cases hcall
    exact ⟨hfree, .inl ⟨hselect, rfl, rfl⟩⟩
  · rw [heq] at hcall
    cases hcall
    exact ⟨hfree, .inr ⟨candidate, failure, torn, hselect, hflush, hevict, rfl, rfl⟩⟩
  · rw [heq] at hcall
    cases hcall
  · rw [heq] at hcall
    cases hcall

/-! Everything the two paths can do, in terms of `allocate_or_evict`. -/

theorem cachedRead_cases (env : OpEnv setup) (lba : Lba setup)
    (engine : CacheEngine setup) :
    (∃ slot, engine.table.slotOf lba = some slot ∧
      engine.cachedRead env lba = (.ok ⟨true, engine.blocks slot⟩,
        { engine with table := (engine.table.getAndTouch env.now lba).2 })) ∨
    (engine.table.slotOf lba = none ∧ ∃ error left,
      engine.allocateOrEvict env = (.error error, left) ∧
      engine.cachedRead env lba = (.error error, left)) ∨
    (engine.table.slotOf lba = none ∧ ∃ slot held error torn,
      engine.allocateOrEvict env = (.ok slot, held) ∧
      env.fetch = .fail error torn ∧
      engine.cachedRead env lba =
        (.error (.ofIo "pread" error), held.fill slot torn)) ∨
    (engine.table.slotOf lba = none ∧ ∃ slot held,
      engine.allocateOrEvict env = (.ok slot, held) ∧ env.fetch = .ok ∧
      engine.cachedRead env lba = (.ok ⟨false, readLba held.device lba⟩,
        { held.fill slot (readLba held.device lba) with
          table := (held.table.insert lba (.new env.now lba slot)).2 })) := by
  have hfst := LbaTable.getAndTouch_fst engine.table lba env.now
  cases hslot : engine.table.slotOf lba with
  | some slot =>
      left
      refine ⟨slot, rfl, ?_⟩
      have hpair : engine.table.getAndTouch env.now lba =
          (some slot, (engine.table.getAndTouch env.now lba).2) :=
        Prod.ext (hfst.trans hslot) rfl
      rw [cachedRead, hpair]
  | none =>
      right
      have hpair : engine.table.getAndTouch env.now lba =
          (none, (engine.table.getAndTouch env.now lba).2) :=
        Prod.ext (hfst.trans hslot) rfl
      rw [cachedRead, hpair]
      rcases hcall : engine.allocateOrEvict env with ⟨error | slot, held⟩
      · left
        exact ⟨rfl, error, held, rfl, rfl⟩
      · right
        cases hfetch : env.fetch with
        | fail error torn =>
            left
            exact ⟨rfl, slot, held, error, torn, rfl, rfl, rfl⟩
        | ok =>
            right
            exact ⟨rfl, slot, held, rfl, rfl, by
              simp [fetch, fill]⟩

theorem maybeWakeFlusher_eq (engine : CacheEngine setup) :
    ∃ flusher, engine.maybeWakeFlusher = { engine with flusher := flusher } := by
  simp only [maybeWakeFlusher]
  split
  · exact ⟨_, rfl⟩
  · exact ⟨engine.flusher, rfl⟩

theorem cachedWrite_cases (env : OpEnv setup) (lba : Lba setup)
    (buf : Block setup) (engine : CacheEngine setup) :
    (setup.readOnly = true ∧ engine.cachedWrite env lba buf =
      (.error (.config "write rejected: engine is in read-only mode"),
        engine)) ∨
    (setup.readOnly = false ∧ ∃ slot flusher,
      engine.table.slotOf lba = some slot ∧
      engine.cachedWrite env lba buf = (.ok ⟨true⟩,
        { engine.fill slot buf with
          table := engine.table.markDirty env.now lba
          flusher := flusher })) ∨
    (setup.readOnly = false ∧ engine.table.slotOf lba = none ∧ ∃ error left,
      engine.allocateOrEvict env = (.error error, left) ∧
      engine.cachedWrite env lba buf = (.error error, left)) ∨
    (setup.readOnly = false ∧ engine.table.slotOf lba = none ∧
      ∃ slot held flusher, engine.allocateOrEvict env = (.ok slot, held) ∧
      engine.cachedWrite env lba buf = (.ok ⟨false⟩,
        { held.fill slot buf with
          table := (held.table.insert lba
            ((CacheEntry.new env.now lba slot).markDirty env.later)).2
          flusher := flusher })) := by
  cases hreadOnly : setup.readOnly with
  | true =>
      left
      exact ⟨rfl, by simp [cachedWrite, hreadOnly]⟩
  | false =>
      right
      cases hget : engine.table.get lba with
      | some entry =>
          left
          obtain ⟨flusher, hwake⟩ := maybeWakeFlusher_eq
            { engine.fill entry.poolIndex buf with
              table := engine.table.markDirty env.now lba }
          refine ⟨rfl, entry.poolIndex, flusher,
            LbaTable.slotOf_eq_some_iff.mpr ⟨entry, hget, rfl⟩, ?_⟩
          simp only [cachedWrite, hreadOnly, hget, Bool.false_eq_true, if_false]
          exact congrArg (Prod.mk _) hwake
      | none =>
          right
          have habsent : engine.table.slotOf lba = none :=
            LbaTable.slotOf_eq_none_iff.mpr hget
          rcases hcall : engine.allocateOrEvict env with ⟨error | slot, held⟩
          · left
            refine ⟨rfl, habsent, error, held, rfl, ?_⟩
            simp only [cachedWrite, hreadOnly, hget, hcall,
              Bool.false_eq_true, if_false]
          · right
            obtain ⟨flusher, hwake⟩ := maybeWakeFlusher_eq
              { held.fill slot buf with
                table := (held.table.insert lba
                  ((CacheEntry.new env.now lba slot).markDirty env.later)).2 }
            refine ⟨rfl, habsent, slot, held, flusher, rfl, ?_⟩
            simp only [cachedWrite, hreadOnly, hget, hcall,
              Bool.false_eq_true, if_false]
            exact congrArg (Prod.mk _) hwake

end CacheEngine

end AsmCacheInject.Engine

import AsmCacheInject.Cache.Recency
import AsmCacheInject.Data.Recency
import AsmCacheInject.Engine.Accounting

namespace AsmCacheInject.Engine

open AsmCacheInject.Cache
open AsmCacheInject.Data
open AsmCacheInject.Flush

variable {setup : Setup}

/-! Recency in mixed runs.  The engine keeps no access history; it only stamps
entries with the clock.  Where the clock never repeats a reading, the stamps
order the cached blocks as the acknowledged calls did. -/

def BlockEvent.lba : BlockEvent setup → Lba setup
  | .read lba _ => lba
  | .write lba _ => lba

def Request.readings : Request setup → List Instant
  | .read env _ => [env.now]
  | .write env _ _ => [env.now, env.later]
  | .flush _ _ => []

namespace CacheEngine

def accessed (engine : CacheEngine setup) (request : Request setup) :
    List (Lba setup) :=
  (request.acknowledged (engine.perform request).1).map BlockEvent.lba

/-- The blocks a run accesses successfully, oldest access first. -/
def accesses (engine : CacheEngine setup) (run : List (Request setup)) :
    List (Lba setup) :=
  (engine.history run).map BlockEvent.lba

theorem history_concat (engine : CacheEngine setup) (past : List (Request setup))
    (request : Request setup) :
    engine.history (past ++ [request]) = engine.history past ++
      request.acknowledged ((engine.runAll past).perform request).1 := by
  induction past generalizing engine with
  | nil => simp [history, runAll]
  | cons head rest ih =>
      simp only [List.cons_append, history, ih, List.append_assoc]
      rfl

theorem accesses_concat (engine : CacheEngine setup)
    (past : List (Request setup)) (request : Request setup) :
    engine.accesses (past ++ [request]) =
      engine.accesses past ++ (engine.runAll past).accessed request := by
  simp [accesses, accessed, history_concat]

/-! What one call does to the stamps. -/

def KeepsStamps (engine next : CacheEngine setup) (lba : Lba setup) : Prop :=
  next.table.lastAccessOf lba = engine.table.lastAccessOf lba ∨
    next.table.lastAccessOf lba = none

theorem allocateOrEvict_keepsStamps (engine : CacheEngine setup)
    (env : OpEnv setup) (lba : Lba setup) :
    engine.KeepsStamps (engine.allocateOrEvict env).2 lba := by
  rcases engine.allocateOrEvict_cases env with
    ⟨_, _, _, heq⟩ | ⟨_, _, heq⟩ | ⟨_, _, _, _, _, _, _, heq⟩ |
    ⟨candidate, _, _, _, _, heq⟩ | ⟨candidate, _, _, _, heq⟩
  · rw [heq]
    exact .inl rfl
  · rw [heq]
    exact .inl rfl
  · rw [heq]
    exact .inl rfl
  all_goals
    rw [heq, KeepsStamps, LbaTable.lastAccessOf_remove]
    split
    · exact .inr rfl
    · exact .inl rfl

theorem cachedRead_stamps (engine : CacheEngine setup) (env : OpEnv setup)
    (lba : Lba setup) :
    (∀ other, (∀ result, (engine.cachedRead env lba).1 = .ok result →
        other ≠ lba) → engine.KeepsStamps (engine.cachedRead env lba).2 other) ∧
      ∀ result, (engine.cachedRead env lba).1 = .ok result →
        (engine.cachedRead env lba).2.table.lastAccessOf lba =
          some env.now := by
  have hheld := engine.allocateOrEvict_keepsStamps env
  rcases engine.cachedRead_cases env lba with
    ⟨slot, hslot, heq⟩ | ⟨_, error, left, hcall, heq⟩ |
    ⟨_, slot, held, error, torn, hcall, _, heq⟩ |
    ⟨_, slot, held, hcall, _, heq⟩
  · rw [heq]
    constructor
    · intro other hother
      left
      rw [LbaTable.lastAccessOf_getAndTouch, if_neg (hother _ rfl)]
    · intro result _
      simp [LbaTable.lastAccessOf_getAndTouch, hslot]
  · rw [heq]
    rw [hcall] at hheld
    exact ⟨fun other _ => hheld other, fun result hresult => by cases hresult⟩
  · rw [heq]
    rw [hcall] at hheld
    exact ⟨fun other _ => hheld other, fun result hresult => by cases hresult⟩
  · rw [heq]
    rw [hcall] at hheld
    constructor
    · intro other hother
      rw [KeepsStamps, LbaTable.lastAccessOf_insert, if_neg (hother _ rfl)]
      exact hheld other
    · intro result _
      simp [LbaTable.lastAccessOf_insert, CacheEntry.new]

theorem cachedWrite_stamps (engine : CacheEngine setup) (env : OpEnv setup)
    (lba : Lba setup) (buf : Block setup) :
    (∀ other, (∀ result, (engine.cachedWrite env lba buf).1 = .ok result →
        other ≠ lba) →
      engine.KeepsStamps (engine.cachedWrite env lba buf).2 other) ∧
      ∀ result, (engine.cachedWrite env lba buf).1 = .ok result →
        ∃ reading ∈ [env.now, env.later],
          (engine.cachedWrite env lba buf).2.table.lastAccessOf lba =
            some reading := by
  have hheld := engine.allocateOrEvict_keepsStamps env
  rcases engine.cachedWrite_cases env lba buf with
    ⟨_, heq⟩ | ⟨_, slot, flusher, hslot, heq⟩ |
    ⟨_, _, error, left, hcall, heq⟩ |
    ⟨_, _, slot, held, flusher, hcall, heq⟩
  · rw [heq]
    exact ⟨fun other _ => .inl rfl, fun result hresult => by cases hresult⟩
  · rw [heq]
    constructor
    · intro other hother
      left
      rw [LbaTable.lastAccessOf_markDirty, if_neg (hother _ rfl)]
    · intro result _
      exact ⟨env.now, by simp, by simp [LbaTable.lastAccessOf_markDirty, hslot]⟩
  · rw [heq]
    rw [hcall] at hheld
    exact ⟨fun other _ => hheld other, fun result hresult => by cases hresult⟩
  · rw [heq]
    rw [hcall] at hheld
    constructor
    · intro other hother
      rw [KeepsStamps, LbaTable.lastAccessOf_insert, if_neg (hother _ rfl)]
      exact hheld other
    · intro result _
      exact ⟨env.later, by simp, by
        simp [LbaTable.lastAccessOf_insert, CacheEntry.markDirty,
          CacheEntry.touch]⟩

theorem flushLoop_lastAccessOf (writes : Lba setup → IoOutcome setup)
    (snapshot : List (Lba setup × Nat)) (flushed : Nat)
    (engine : CacheEngine setup) :
    (flushLoop writes snapshot flushed engine).2.table.lastAccessOf =
      engine.table.lastAccessOf := by
  induction snapshot generalizing engine flushed with
  | nil => rfl
  | cons pair rest ih =>
      obtain ⟨lba, slot⟩ := pair
      cases hwrite : writes lba with
      | ok =>
          simp only [flushLoop, writeBack, hwrite, ih,
            LbaTable.lastAccessOf_markClean]
      | fail error torn => simp only [flushLoop, writeBack, hwrite, ih]

theorem mem_accessed_read {engine : CacheEngine setup} {env : OpEnv setup}
    {lba other : Lba setup} :
    other ∈ engine.accessed (.read env lba.val) ↔
      other = lba ∧ ∃ result, (engine.cachedRead env lba).1 = .ok result := by
  cases hresult : (engine.cachedRead env lba).1 <;>
    simp [accessed, perform, CacheEngine.read, Request.acknowledged, hresult,
      BlockEvent.lba]

theorem mem_accessed_write {engine : CacheEngine setup} {env : OpEnv setup}
    {buf : Block setup} {lba other : Lba setup} :
    other ∈ engine.accessed (.write env lba.val buf) ↔
      other = lba ∧
        ∃ result, (engine.cachedWrite env lba buf).1 = .ok result := by
  cases hresult : (engine.cachedWrite env lba buf).1 <;>
    simp [accessed, perform, CacheEngine.write, Request.acknowledged, hresult,
      BlockEvent.lba]

/-- A request stamps exactly the blocks it accesses successfully, with one of
its own readings. -/
theorem perform_stamps (engine : CacheEngine setup) (request : Request setup) :
    (∀ lba, lba ∉ engine.accessed request →
        engine.KeepsStamps (engine.perform request).2 lba) ∧
      ∀ lba ∈ engine.accessed request, ∃ reading ∈ request.readings,
        (engine.perform request).2.table.lastAccessOf lba = some reading := by
  cases request with
  | read env lba =>
      by_cases hlba : lba < setup.maxLba
      · lift lba to Lba setup using hlba
        obtain ⟨hother, hself⟩ := engine.cachedRead_stamps env lba
        have hnext : (engine.perform (.read env lba.val)).2 =
            (engine.cachedRead env lba).2 := by
          simp [perform, CacheEngine.read]
        rw [hnext]
        constructor
        · intro other hmem
          apply hother
          intro result hresult heq
          exact hmem (mem_accessed_read.mpr ⟨heq, result, hresult⟩)
        · intro other hmem
          obtain ⟨heq, result, hresult⟩ := mem_accessed_read.mp hmem
          subst heq
          exact ⟨env.now, by simp [Request.readings], hself result hresult⟩
      · simp [accessed, perform, CacheEngine.read, hlba, Request.acknowledged,
          KeepsStamps]
  | write env lba buf =>
      by_cases hlba : lba < setup.maxLba
      · lift lba to Lba setup using hlba
        obtain ⟨hother, hself⟩ := engine.cachedWrite_stamps env lba buf
        have hnext : (engine.perform (.write env lba.val buf)).2 =
            (engine.cachedWrite env lba buf).2 := by
          simp [perform, CacheEngine.write]
        rw [hnext]
        constructor
        · intro other hmem
          apply hother
          intro result hresult heq
          exact hmem (mem_accessed_write.mpr ⟨heq, result, hresult⟩)
        · intro other hmem
          obtain ⟨heq, result, hresult⟩ := mem_accessed_write.mp hmem
          subst heq
          exact hself result hresult
      · simp [accessed, perform, CacheEngine.write, hlba, Request.acknowledged,
          KeepsStamps]
  | flush order writes =>
      have hkept := flushLoop_lastAccessOf writes
        (engine.table.dirtyEntries order) 0 engine
      constructor
      · intro lba _
        exact .inl (congrFun hkept lba)
      · intro lba hmem
        simp [accessed, Request.acknowledged] at hmem

theorem accessed_cases (engine : CacheEngine setup) (request : Request setup) :
    engine.accessed request = [] ∨ ∃ lba, engine.accessed request = [lba] := by
  unfold accessed Request.acknowledged
  split
  · split <;> simp
  · split <;> simp
  · simp

/-! The stamps carry the order of the access history. -/

structure Recent (engine : CacheEngine setup) (history : List (Lba setup))
    (readings : List Instant) : Prop where
  stamped : ∀ lba reading, engine.table.lastAccessOf lba = some reading →
    reading ∈ readings
  listed : ∀ lba, engine.table.slotOf lba ≠ none → lba ∈ history
  descending : Recency.Descending engine.table.lastAccessOf
    (Recency.stack history)

namespace Recent

variable {engine : CacheEngine setup} {history : List (Lba setup)}
variable {readings : List Instant}

theorem boot (image : Image) (flusher : Option FlushChannel) :
    (CacheEngine.boot setup image flusher).Recent [] [] where
  stamped := by simp [CacheEngine.boot]
  listed := by simp [CacheEngine.boot]
  descending := List.Pairwise.nil

theorem perform (hrecent : engine.Recent history readings)
    {request : Request setup}
    (hclock : ∀ reading ∈ readings, ∀ later ∈ request.readings,
      reading < later) :
    (engine.perform request).2.Recent (history ++ engine.accessed request)
      (readings ++ request.readings) := by
  obtain ⟨hother, hself⟩ := engine.perform_stamps request
  constructor
  · intro lba reading hreading
    rw [List.mem_append]
    by_cases hmem : lba ∈ engine.accessed request
    · obtain ⟨taken, htaken, hstamp⟩ := hself lba hmem
      rw [hstamp] at hreading
      cases hreading
      exact .inr htaken
    · rcases hother lba hmem with hkept | hdropped
      · exact .inl (hrecent.stamped lba reading (hkept ▸ hreading))
      · rw [hdropped] at hreading
        cases hreading
  · intro lba hcached
    rw [List.mem_append]
    by_cases hmem : lba ∈ engine.accessed request
    · exact .inr hmem
    · left
      apply hrecent.listed
      rw [Ne, ← LbaTable.lastAccessOf_eq_none_iff] at hcached ⊢
      rcases hother lba hmem with hkept | hdropped
      · rwa [← hkept]
      · exact absurd hdropped hcached
  · rcases engine.accessed_cases request with hnone | ⟨lba, hone⟩
    · rw [hnone, List.append_nil]
      exact hrecent.descending.forget fun other =>
        hother other (by simp [hnone])
    · obtain ⟨taken, htaken, hstamp⟩ := hself lba (by simp [hone])
      rw [hone]
      apply hrecent.descending.use _ hstamp
      · intro other hne
        exact hother other (by simp [hone, hne])
      · intro other reading hreading
        exact hclock reading (hrecent.stamped other reading hreading) taken htaken

theorem runAll (hrecent : engine.Recent history readings)
    {run : List (Request setup)}
    (hclock : (readings ++ run.flatMap Request.readings).Pairwise (· < ·)) :
    (engine.runAll run).Recent (history ++ engine.accesses run)
      (readings ++ run.flatMap Request.readings) := by
  induction run using List.reverseRecOn with
  | nil => simpa [CacheEngine.runAll, accesses, CacheEngine.history] using hrecent
  | append_singleton past request ih =>
      simp only [List.flatMap_append, List.flatMap_singleton,
        ← List.append_assoc] at hclock ⊢
      obtain ⟨hpast, _, hlater⟩ := List.pairwise_append.mp hclock
      rw [runAll_append, accesses_concat, ← List.append_assoc]
      exact (ih hpast).perform hlater

/-- The victim is the least recently accessed block among those that share its
flag. -/
theorem victim (hrecent : engine.Recent history readings)
    (hkeyed : engine.table.SelfKeyed)
    {order : HashOrder (CacheEntry (Lba setup))}
    {candidate : EvictionCandidate (Lba setup)}
    (hselect : selectEvictionCandidate order engine.table = some candidate) :
    ((Recency.stack history).filter fun lba =>
      engine.table.dirtyOf lba = some candidate.needsFlush).getLast? =
        some candidate.lba := by
  obtain ⟨hslot, hdirty⟩ := selectEvictionCandidate_spec hkeyed hselect
  obtain ⟨reading, hstamp, holdest⟩ :=
    selectEvictionCandidate_oldest hkeyed hselect
  apply hrecent.descending.getLast?_filter _ _ hstamp
  · intro lba _ hflag
    exact holdest lba (by simpa using hflag)
  · exact Recency.mem_stack.mpr (hrecent.listed _ (by simp [hslot]))
  · simpa using hdirty

end Recent

theorem evicted_eq_candidate {engine : CacheEngine setup} {env : OpEnv setup}
    {victim : Lba setup} (hcached : engine.table.slotOf victim ≠ none)
    (hgone : (engine.allocateOrEvict env).2.table.slotOf victim = none) :
    ∃ candidate, selectEvictionCandidate env.order engine.table =
      some candidate ∧ candidate.lba = victim := by
  rcases engine.allocateOrEvict_cases env with
    ⟨_, _, _, heq⟩ | ⟨_, _, heq⟩ | ⟨_, _, _, _, _, _, _, heq⟩ |
    ⟨candidate, _, hselect, _, _, heq⟩ | ⟨candidate, _, hselect, _, heq⟩
  · rw [heq] at hgone
    exact absurd hgone hcached
  · rw [heq] at hgone
    exact absurd hgone hcached
  · rw [heq] at hgone
    exact absurd hgone hcached
  all_goals
    rw [heq, LbaTable.slotOf_remove] at hgone
    split at hgone
    · next hsame => exact ⟨candidate, hselect, hsame.symm⟩
    · exact absurd hgone hcached

/-- In every run on a strictly increasing clock the stamps of the cached blocks
follow the acknowledged accesses, an eviction takes the least recently
accessed clean block, or the least recently accessed one when all are dirty,
and a request leaves the stamps of all blocks it does not access as they
were. -/
theorem eviction_follows_accesses (image : Image)
    (flusher : Option FlushChannel) (run : List (Request setup))
    (hclock : (run.flatMap Request.readings).Pairwise (· < ·)) :
    let engine := (boot setup image flusher).runAll run
    let recency := Recency.stack ((boot setup image flusher).accesses run)
    Recency.Descending engine.table.lastAccessOf recency ∧
    (∀ (env : OpEnv setup) (victim : Lba setup),
      engine.table.slotOf victim ≠ none →
      (engine.allocateOrEvict env).2.table.slotOf victim = none →
      (recency.filter fun lba =>
          engine.table.dirtyOf lba = some false).getLast? = some victim ∨
        ((∀ lba, engine.table.dirtyOf lba ≠ some false) ∧
          (recency.filter fun lba =>
            engine.table.dirtyOf lba = some true).getLast? = some victim)) ∧
    ∀ (request : Request setup) (lba : Lba setup),
      lba ∉ engine.accessed request →
      (engine.perform request).2.table.slotOf lba ≠ none →
      (engine.perform request).2.table.lastAccessOf lba =
        engine.table.lastAccessOf lba := by
  intro engine recency
  obtain ⟨lost, haccounted⟩ := runAll_accounted image flusher run
  have hrecent : engine.Recent ((boot setup image flusher).accesses run)
      (run.flatMap Request.readings) :=
    (Recent.boot image flusher).runAll hclock
  refine ⟨hrecent.descending, ?_, ?_⟩
  · intro env victim hcached hgone
    obtain ⟨candidate, hselect, rfl⟩ := evicted_eq_candidate hcached hgone
    have hvictim := hrecent.victim haccounted.keyed hselect
    cases hflush : candidate.needsFlush with
    | false =>
        rw [hflush] at hvictim
        exact .inl hvictim
    | true =>
        rw [hflush] at hvictim
        exact .inr ⟨selectEvictionCandidate_dirty hselect hflush, hvictim⟩
  · intro request lba hother hcached
    rcases (engine.perform_stamps request).1 lba hother with hkept | hdropped
    · exact hkept
    · exact absurd (LbaTable.lastAccessOf_eq_none_iff.mp hdropped) hcached

def warmUp : List (Request (.mini 1)) :=
  [.write ⟨1, 2, .stored, .ok, .ok⟩ 0 fun _ => 5,
    .read ⟨3, 3, .stored, .ok, .ok⟩ 1,
    .flush .stored fun _ => .ok,
    .read ⟨4, 4, .stored, .ok, .ok⟩ 0]

/-- The cycle did not count as an access: block 1 goes. -/
theorem warmUp_evicts_one :
    let engine := (boot (.mini 1) (fun _ => 0) none).runAll warmUp
    ((Recency.stack ((boot (.mini 1) (fun _ => 0) none).accesses warmUp)).filter
        fun lba => engine.table.dirtyOf lba = some false).getLast? =
          some (1 : Lba (.mini 1)) ∨
      ((∀ lba, engine.table.dirtyOf lba ≠ some false) ∧
        ((Recency.stack
          ((boot (.mini 1) (fun _ => 0) none).accesses warmUp)).filter
          fun lba => engine.table.dirtyOf lba = some true).getLast? = some 1) :=
  (eviction_follows_accesses (fun _ => 0) none warmUp (by decide)).2.1
    ⟨5, 5, .stored, .ok, .ok⟩ 1 (by decide +kernel) (by decide +kernel)

end CacheEngine

end AsmCacheInject.Engine

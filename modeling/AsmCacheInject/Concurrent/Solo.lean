import AsmCacheInject.Concurrent.Steps

namespace AsmCacheInject.Concurrent

open AsmCacheInject.Cache
open AsmCacheInject.Data
open AsmCacheInject.Engine
open AsmCacheInject.Flush
open Relation

variable {setup : Setup} {n : Nat}

/-! Without interleaving the machine computes what the sequential engine
computes: a client that runs alone from its first lookup ends with the result
and the engine of `cached_read` or `cached_write`. -/

def choiceAt (env : OpEnv setup) (pc : Pc setup) : Choice setup where
  now := env.now
  later := env.later
  order := env.order
  io :=
    match pc with
    | .fetch _ _ => env.fetch
    | _ => env.evict

def SoloStep (env : OpEnv setup) (state next : Pc setup × CacheEngine setup) :
    Prop :=
  state.1.step (choiceAt env state.1) state.2 = some next

abbrev Solo (env : OpEnv setup) :
    Pc setup × CacheEngine setup → Pc setup × CacheEngine setup → Prop :=
  ReflTransGen (SoloStep env)

def Miss.resume (miss : Miss setup) :
    Except CacheError Nat × CacheEngine setup → Pc setup × CacheEngine setup
  | (.ok slot, held) => (miss.filling slot, held)
  | (.error error, left) => (.done (.failed error), left)

theorem reallocate_solo (env : OpEnv setup) (miss : Miss setup)
    (engine : CacheEngine setup) :
    Solo env (.reallocate miss, engine) (miss.resume engine.allocate) := by
  apply ReflTransGen.single
  cases hfree : engine.freeList with
  | nil => simp [SoloStep, Pc.step, Miss.resume, CacheEngine.allocate, hfree]
  | cons slot rest =>
      simp [SoloStep, Pc.step, Miss.resume, CacheEngine.allocate, hfree]

theorem removeVictim_solo (env : OpEnv setup) (miss : Miss setup)
    (victim : EvictionCandidate (Lba setup)) (engine : CacheEngine setup) :
    Solo env (.removeVictim miss victim, engine)
      (miss.resume (engine.dropVictim victim).allocate) :=
  .head rfl (.head rfl (reallocate_solo env miss _))

theorem allocateOrEvict_solo (env : OpEnv setup) (miss : Miss setup)
    (engine : CacheEngine setup) :
    Solo env (.allocate miss, engine)
      (miss.resume (engine.allocateOrEvict env)) := by
  cases hfree : engine.freeList with
  | cons slot rest =>
      apply ReflTransGen.single
      simp [SoloStep, Pc.step, Miss.resume, CacheEngine.allocateOrEvict,
        CacheEngine.allocate, hfree]
  | nil =>
      have hempty : SoloStep env (.allocate miss, engine) (.select miss, engine) := by
        simp [SoloStep, Pc.step, CacheEngine.allocate, hfree]
      refine .head hempty ?_
      cases hselect : selectEvictionCandidate env.order engine.table with
      | none =>
          apply ReflTransGen.single
          simp [SoloStep, Pc.step, choiceAt, Miss.resume,
            CacheEngine.allocateOrEvict, CacheEngine.allocate, hfree, hselect]
      | some victim =>
          cases hflush : victim.needsFlush with
          | false =>
              have hclean : SoloStep env (.select miss, engine)
                  (.removeVictim miss victim, engine) := by
                simp [SoloStep, Pc.step, choiceAt, hselect, hflush]
              refine .head hclean ?_
              simpa [CacheEngine.allocateOrEvict, CacheEngine.allocate, hfree,
                hselect, hflush] using removeVictim_solo env miss victim engine
          | true =>
              have hdirty : SoloStep env (.select miss, engine)
                  (.flushVictim miss victim, engine) := by
                simp [SoloStep, Pc.step, choiceAt, hselect, hflush]
              refine .head hdirty ?_
              cases hevict : env.evict with
              | fail error torn =>
                  apply ReflTransGen.single
                  simp [SoloStep, Pc.step, choiceAt, Miss.resume,
                    CacheEngine.allocateOrEvict, CacheEngine.allocate,
                    CacheEngine.writeBack, hfree, hselect, hflush, hevict]
              | ok =>
                  have hwritten : SoloStep env (.flushVictim miss victim, engine)
                      (.wakeForVictim miss victim,
                        { engine with
                          device := writeLba engine.device victim.lba
                            (engine.blocks victim.poolIndex) }) := by
                    simp [SoloStep, Pc.step, choiceAt, CacheEngine.writeBack, hevict]
                  refine .head hwritten (.head rfl ?_)
                  simpa [CacheEngine.allocateOrEvict, CacheEngine.allocate, hfree,
                    hselect, hflush, CacheEngine.writeBack, hevict] using
                    removeVictim_solo env miss victim _

def Outcome.ofRead (lba : Lba setup) :
    Except CacheError (ReadResult setup) → Outcome setup
  | .ok result => .readOk lba result
  | .error error => .failed error

def Outcome.ofWrite (lba : Lba setup) (buf : Block setup) :
    Except CacheError WriteResult → Outcome setup
  | .ok result => .writeOk lba buf result
  | .error error => .failed error

theorem cachedRead_solo (env : OpEnv setup) (lba : Lba setup)
    (engine : CacheEngine setup) :
    Solo env (.readLookup lba, engine)
      (.done (.ofRead lba (engine.cachedRead env lba).1),
        (engine.cachedRead env lba).2) := by
  rcases hpair : engine.table.getAndTouch env.now lba with ⟨found, table⟩
  cases found with
  | some slot =>
      have hhit : SoloStep env (.readLookup lba, engine)
          (.readHit lba slot, { engine with table := table }) := by
        simp [SoloStep, Pc.step, choiceAt, hpair]
      refine .head hhit (.single ?_)
      simp [SoloStep, Pc.step, CacheEngine.cachedRead, hpair, Outcome.ofRead]
  | none =>
      have hmiss : SoloStep env (.readLookup lba, engine)
          (.allocate (.read lba), engine) := by
        simp [SoloStep, Pc.step, choiceAt, hpair]
      refine .head hmiss (.trans (allocateOrEvict_solo env _ engine) ?_)
      rcases hcall : engine.allocateOrEvict env with ⟨error | slot, held⟩
      · simp only [CacheEngine.cachedRead, hpair, hcall]
        exact .refl
      · cases hfetch : env.fetch with
        | fail error torn =>
            apply ReflTransGen.single
            simp [SoloStep, Pc.step, choiceAt, Miss.resume, Miss.filling,
              CacheEngine.cachedRead, CacheEngine.fetch, hpair, hcall, hfetch,
              Outcome.ofRead]
        | ok =>
            have hfetched : SoloStep env (.fetch lba slot, held)
                (.insertRead lba slot,
                  held.fill slot (readLba held.device lba)) := by
              simp [SoloStep, Pc.step, choiceAt, CacheEngine.fetch, hfetch]
            refine .head hfetched (.head rfl (.single ?_))
            simp [SoloStep, Pc.step, choiceAt, CacheEngine.cachedRead,
              CacheEngine.fetch, hpair, hcall, hfetch, Outcome.ofRead]

theorem stats_solo (env : OpEnv setup) (lba : Lba setup) (buf : Block setup)
    (wasUpdate : Bool) (engine : CacheEngine setup) :
    Solo env (.stats lba buf wasUpdate, engine)
      (.done (.writeOk lba buf ⟨wasUpdate⟩), engine.maybeWakeFlusher) := by
  by_cases habove : setup.schedule.shouldFlushImmediately
      engine.table.stats.dirtyEntries engine.table.stats.totalEntries = true
  · have hwake : SoloStep env (.stats lba buf wasUpdate, engine)
        (.wakeForWrite lba buf wasUpdate, engine) := by
      simp [SoloStep, Pc.step, habove]
    refine .head hwake (.single ?_)
    simp [SoloStep, Pc.step, CacheEngine.maybeWakeFlusher, habove]
  · apply ReflTransGen.single
    simp [SoloStep, Pc.step, CacheEngine.maybeWakeFlusher, habove]

theorem cachedWrite_solo (env : OpEnv setup) (lba : Lba setup)
    (buf : Block setup) (engine : CacheEngine setup)
    (hwritable : setup.readOnly = false) :
    Solo env (.writeLookup lba buf, engine)
      (.done (.ofWrite lba buf (engine.cachedWrite env lba buf).1),
        (engine.cachedWrite env lba buf).2) := by
  cases hget : engine.table.get lba with
  | some entry =>
      have hhit : SoloStep env (.writeLookup lba buf, engine)
          (.writeHit lba buf entry.poolIndex, engine) := by
        simp [SoloStep, Pc.step, hget]
      refine .head hhit (.head rfl (.head rfl ?_))
      simpa [CacheEngine.cachedWrite, hwritable, hget, Outcome.ofWrite, choiceAt]
        using stats_solo env lba buf true _
  | none =>
      have hmiss : SoloStep env (.writeLookup lba buf, engine)
          (.allocate (.write lba buf), engine) := by
        simp [SoloStep, Pc.step, hget]
      refine .head hmiss (.trans (allocateOrEvict_solo env _ engine) ?_)
      rcases hcall : engine.allocateOrEvict env with ⟨error | slot, held⟩
      · simp only [CacheEngine.cachedWrite, hwritable, hget, hcall]
        exact .refl
      · change Solo env (.fill lba buf slot, held) _
        refine .head rfl (.head rfl ?_)
        simpa [CacheEngine.cachedWrite, hwritable, hget, hcall, Outcome.ofWrite,
          choiceAt] using stats_solo env lba buf false _

/-! Sequential runs are runs of the machine. -/

def Call.request (env : OpEnv setup) : Call setup → Request setup
  | .read lba => .read env lba
  | .write lba buf => .write env lba buf

theorem Outcome.events_ofRead (env : OpEnv setup) (lba : Lba setup)
    (result : Except CacheError (ReadResult setup)) :
    (Outcome.ofRead lba result).events =
      (Request.read env lba.val).acknowledged (.read result) := by
  cases result with
  | ok data => simp [Outcome.ofRead, Outcome.events, Request.acknowledged]
  | error error => rfl

theorem Outcome.events_ofWrite (env : OpEnv setup) (lba : Lba setup)
    (buf : Block setup) (result : Except CacheError WriteResult) :
    (Outcome.ofWrite lba buf result).events =
      (Request.write env lba.val buf).acknowledged (.write result) := by
  cases result with
  | ok update => simp [Outcome.ofWrite, Outcome.events, Request.acknowledged]
  | error error => rfl

/-- A client alone in the engine ends its call as the sequential engine does,
and is told the same. -/
theorem Call.solo (env : OpEnv setup) (call : Call setup)
    (engine : CacheEngine setup) :
    ∃ outcome, Solo env (call.enter, engine)
        (.done outcome, (engine.perform (call.request env)).2) ∧
      outcome.events =
        (call.request env).acknowledged (engine.perform (call.request env)).1 := by
  cases call with
  | read lba =>
      by_cases hlba : lba < setup.maxLba
      · refine ⟨.ofRead ⟨lba, hlba⟩ (engine.cachedRead env ⟨lba, hlba⟩).1, ?_, ?_⟩
        · simpa [Call.enter, Call.request, CacheEngine.perform, CacheEngine.read,
            hlba] using cachedRead_solo env ⟨lba, hlba⟩ engine
        · simpa [Call.request, CacheEngine.perform, CacheEngine.read, hlba]
            using Outcome.events_ofRead env ⟨lba, hlba⟩ _
      · refine ⟨.failed (.lbaOutOfRange lba setup.maxLba), ?_, ?_⟩
        · simpa [Call.enter, Call.request, CacheEngine.perform, CacheEngine.read,
            hlba] using ReflTransGen.refl
        · simp [Call.request, CacheEngine.perform, CacheEngine.read, hlba,
            Outcome.events, Request.acknowledged]
  | write lba buf =>
      by_cases hlba : lba < setup.maxLba
      · cases hreadOnly : setup.readOnly with
        | true =>
            refine ⟨.failed (.config "write rejected: engine is in read-only mode"),
              ?_, ?_⟩
            · simpa [Call.enter, Call.request, CacheEngine.perform,
                CacheEngine.write, CacheEngine.cachedWrite, hlba, hreadOnly]
                using ReflTransGen.refl
            · simp [Call.request, CacheEngine.perform, CacheEngine.write,
                CacheEngine.cachedWrite, hlba, hreadOnly, Outcome.events,
                Request.acknowledged]
        | false =>
            refine ⟨.ofWrite ⟨lba, hlba⟩ buf
              (engine.cachedWrite env ⟨lba, hlba⟩ buf).1, ?_, ?_⟩
            · simpa [Call.enter, Call.request, CacheEngine.perform,
                CacheEngine.write, hlba, hreadOnly] using
                cachedWrite_solo env ⟨lba, hlba⟩ buf engine hreadOnly
            · simpa [Call.request, CacheEngine.perform, CacheEngine.write, hlba]
                using Outcome.events_ofWrite env ⟨lba, hlba⟩ buf _
      · refine ⟨.failed (.lbaOutOfRange lba setup.maxLba), ?_, ?_⟩
        · simpa [Call.enter, Call.request, CacheEngine.perform, CacheEngine.write,
            hlba] using ReflTransGen.refl
        · simp [Call.request, CacheEngine.perform, CacheEngine.write, hlba,
            Outcome.events, Request.acknowledged]

namespace Machine

theorem exec_solo {env : OpEnv setup} {thread : Fin n}
    {state final : Pc setup × CacheEngine setup} (hsolo : Solo env state final)
    (machine : Machine setup n) (hclient : machine.client thread = state.1)
    (hengine : machine.engine = state.2) :
    ∃ choices : List (Choice setup),
      Run.exec step machine (choices.map (.client thread)) =
        some { machine with
          engine := final.2
          client := Function.update machine.client thread final.1 } ∧
      Run.trace step emitted machine (choices.map (.client thread)) = [] := by
  induction hsolo using ReflTransGen.head_induction_on generalizing machine with
  | refl =>
      refine ⟨[], ?_, rfl⟩
      rw [← hclient, ← hengine, Function.update_eq_self]
      rfl
  | @head state next hstep _ ih =>
      obtain ⟨pc, engine⟩ := state
      obtain ⟨choices, hexec, htrace⟩ := ih
        { machine with
          engine := next.2
          client := Function.update machine.client thread next.1 }
        (Function.update_self ..) rfl
      have haction : machine.step (.client thread (choiceAt env pc)) =
          some { machine with
            engine := next.2
            client := Function.update machine.client thread next.1 } := by
        have hpc : pc.step (choiceAt env pc) engine = some next := hstep
        simp only at hclient hengine
        simp only [step, hclient, hengine, hpc]
      refine ⟨choiceAt env pc :: choices, ?_, ?_⟩
      · rw [List.map_cons, Run.exec_cons, haction, Option.bind_some, hexec,
          Function.update_idem]
      · simp only [List.map_cons, Run.trace, haction, emitted, htrace,
          List.append_nil]

variable (machine : Machine setup n) {thread : Fin n}

theorem exec_call (env : OpEnv setup) (call : Call setup)
    (hrunning : machine.owner = .running)
    (hidle : machine.client thread = .idle) :
    ∃ run, Run.exec step machine run =
        some { machine with
          engine := (machine.engine.perform (call.request env)).2 } ∧
      Run.trace step emitted machine run =
        (call.request env).acknowledged
          (machine.engine.perform (call.request env)).1 := by
  obtain ⟨outcome, hsolo, hevents⟩ := call.solo env machine.engine
  obtain ⟨choices, hexec, htrace⟩ := exec_solo hsolo
    { machine with client := Function.update machine.client thread call.enter }
    (Function.update_self ..) rfl
  have hinvoke : machine.step (.invoke thread call) =
      some { machine with
        client := Function.update machine.client thread call.enter } := by
    simp only [step, hrunning, hidle, Pc.isIdle, and_self, if_true]
  refine ⟨.invoke thread call :: choices.map (.client thread) ++ [.respond thread],
    ?_, ?_⟩
  · rw [List.cons_append, Run.exec_cons, hinvoke, Option.bind_some,
      Run.exec_append, hexec]
    simp [Run.exec, step, ← hidle, Function.update_eq_self]
  · simp only [List.cons_append, Run.trace, hinvoke, emitted, List.nil_append]
    rw [Run.trace_append hexec, htrace, Run.trace_singleton, ← hevents]
    simp [emitted]

/-- Every sequential run of reads and writes is a run of the machine, with the
same engine at its end and the same history. -/
theorem exec_runAll (calls : List (OpEnv setup × Call setup))
    (hrunning : machine.owner = .running)
    (hidle : machine.client thread = .idle) :
    ∃ run, Run.exec step machine run =
        some { machine with
          engine := machine.engine.runAll
            (calls.map fun call => call.2.request call.1) } ∧
      Run.trace step emitted machine run =
        machine.engine.history
          (calls.map fun call => call.2.request call.1) := by
  induction calls generalizing machine with
  | nil => exact ⟨[], rfl, rfl⟩
  | cons call rest ih =>
      obtain ⟨env, call⟩ := call
      obtain ⟨first, hfirst, hfirstTrace⟩ := exec_call machine env call hrunning hidle
      obtain ⟨second, hsecond, hsecondTrace⟩ := ih
        { machine with
          engine := (machine.engine.perform (call.request env)).2 }
        hrunning hidle
      refine ⟨first ++ second, ?_, ?_⟩
      · rw [Run.exec_append, hfirst, Option.bind_some, hsecond]
        rfl
      · rw [Run.trace_append hfirst, hfirstTrace, hsecondTrace]
        rfl

end Machine

end AsmCacheInject.Concurrent

import AsmCacheInject.Concurrent.Machine

namespace AsmCacheInject.Concurrent

open AsmCacheInject.Cache
open AsmCacheInject.Data
open AsmCacheInject.Engine
open AsmCacheInject.Flush

variable {setup : Setup} {n : Nat}

/-! Everything a client step can do, one constructor for each way out of a
control point. -/

inductive ClientStep (choice : Choice setup) (engine : CacheEngine setup) :
    Pc setup → Pc setup → CacheEngine setup → Prop
  | lookupHit {lba slot} (hslot : engine.table.slotOf lba = some slot) :
      ClientStep choice engine (.readLookup lba) (.readHit lba slot)
        { engine with table := (engine.table.getAndTouch choice.now lba).2 }
  | lookupMiss {lba} (habsent : engine.table.slotOf lba = none) :
      ClientStep choice engine (.readLookup lba) (.allocate (.read lba)) engine
  | readHit {lba slot} :
      ClientStep choice engine (.readHit lba slot)
        (.done (.readOk lba ⟨true, engine.blocks slot⟩)) engine
  | takeFree {miss slot rest} (hfree : engine.freeList = slot :: rest) :
      ClientStep choice engine (.allocate miss) (miss.filling slot)
        { engine with freeList := rest }
  | poolEmpty {miss} (hfree : engine.freeList = []) :
      ClientStep choice engine (.allocate miss) (.select miss) engine
  | nothingToEvict {miss}
      (hselect : selectEvictionCandidate choice.order engine.table = none) :
      ClientStep choice engine (.select miss)
        (.done (.failed (.internal
          "pool exhausted but cache table is empty — inconsistent state")))
        engine
  | chooseDirty {miss victim}
      (hselect : selectEvictionCandidate choice.order engine.table = some victim)
      (hflush : victim.needsFlush = true) :
      ClientStep choice engine (.select miss) (.flushVictim miss victim) engine
  | chooseClean {miss victim}
      (hselect : selectEvictionCandidate choice.order engine.table = some victim)
      (hflush : victim.needsFlush = false) :
      ClientStep choice engine (.select miss) (.removeVictim miss victim) engine
  | victimWritten {miss victim} (hio : choice.io = .ok) :
      ClientStep choice engine (.flushVictim miss victim)
        (.wakeForVictim miss victim)
        { engine with
          device := writeLba engine.device victim.lba
            (engine.blocks victim.poolIndex) }
  | victimTorn {miss victim error torn} (hio : choice.io = .fail error torn) :
      ClientStep choice engine (.flushVictim miss victim)
        (.done (.failed (.ofIo "pwrite" error)))
        { engine with device := writeLba engine.device victim.lba torn }
  | wakeForVictim {miss victim} :
      ClientStep choice engine (.wakeForVictim miss victim)
        (.removeVictim miss victim) engine.wake
  | removeVictim {miss victim} :
      ClientStep choice engine (.removeVictim miss victim)
        (.freeVictim miss victim)
        { engine with table := (engine.table.remove victim.lba).2 }
  | freeVictim {miss victim} :
      ClientStep choice engine (.freeVictim miss victim) (.reallocate miss)
        (engine.deallocate victim.poolIndex)
  | retake {miss slot rest} (hfree : engine.freeList = slot :: rest) :
      ClientStep choice engine (.reallocate miss) (miss.filling slot)
        { engine with freeList := rest }
  | exhausted {miss} (hfree : engine.freeList = []) :
      ClientStep choice engine (.reallocate miss)
        (.done (.failed (.poolExhausted setup.capacity setup.capacity))) engine
  | fetched {lba slot} (hio : choice.io = .ok) :
      ClientStep choice engine (.fetch lba slot) (.insertRead lba slot)
        (engine.fill slot (readLba engine.device lba))
  | fetchTorn {lba slot error torn} (hio : choice.io = .fail error torn) :
      ClientStep choice engine (.fetch lba slot)
        (.done (.failed (.ofIo "pread" error))) (engine.fill slot torn)
  | insertRead {lba slot} :
      ClientStep choice engine (.insertRead lba slot) (.copyRead lba slot)
        { engine with
          table := (engine.table.insert lba (.new choice.now lba slot)).2 }
  | copyRead {lba slot} :
      ClientStep choice engine (.copyRead lba slot)
        (.done (.readOk lba ⟨false, engine.blocks slot⟩)) engine
  | writeLookupHit {lba buf slot} (hslot : engine.table.slotOf lba = some slot) :
      ClientStep choice engine (.writeLookup lba buf) (.writeHit lba buf slot)
        engine
  | writeLookupMiss {lba buf} (habsent : engine.table.slotOf lba = none) :
      ClientStep choice engine (.writeLookup lba buf)
        (.allocate (.write lba buf)) engine
  | writeHit {lba buf slot} :
      ClientStep choice engine (.writeHit lba buf slot) (.markDirty lba buf)
        (engine.fill slot buf)
  | markDirty {lba buf} :
      ClientStep choice engine (.markDirty lba buf) (.stats lba buf true)
        { engine with table := engine.table.markDirty choice.now lba }
  | fill {lba buf slot} :
      ClientStep choice engine (.fill lba buf slot) (.insertWrite lba buf slot)
        (engine.fill slot buf)
  | insertWrite {lba buf slot} :
      ClientStep choice engine (.insertWrite lba buf slot) (.stats lba buf false)
        { engine with
          table := (engine.table.insert lba
            ((CacheEntry.new choice.now lba slot).markDirty choice.later)).2 }
  | statsAbove {lba buf wasUpdate} :
      ClientStep choice engine (.stats lba buf wasUpdate)
        (.wakeForWrite lba buf wasUpdate) engine
  | statsBelow {lba buf wasUpdate} :
      ClientStep choice engine (.stats lba buf wasUpdate)
        (.done (.writeOk lba buf ⟨wasUpdate⟩)) engine
  | wakeForWrite {lba buf wasUpdate} :
      ClientStep choice engine (.wakeForWrite lba buf wasUpdate)
        (.done (.writeOk lba buf ⟨wasUpdate⟩)) engine.wake

theorem Pc.step_cases {choice : Choice setup} {engine nextEngine : CacheEngine setup}
    {pc next : Pc setup} (hstep : pc.step choice engine = some (next, nextEngine)) :
    ClientStep choice engine pc next nextEngine := by
  cases pc with
  | idle => cases hstep
  | readLookup lba =>
      have hfst := LbaTable.getAndTouch_fst engine.table lba choice.now
      rcases hpair : engine.table.getAndTouch choice.now lba with ⟨found, table⟩
      rw [hpair] at hfst
      cases found with
      | none =>
          simp only [Pc.step, hpair] at hstep
          cases hstep
          exact .lookupMiss hfst.symm
      | some slot =>
          simp only [Pc.step, hpair] at hstep
          cases hstep
          have htable : table = (engine.table.getAndTouch choice.now lba).2 := by
            rw [hpair]
          rw [htable]
          exact .lookupHit hfst.symm
  | readHit lba slot =>
      cases hstep
      exact .readHit
  | allocate miss =>
      cases hfree : engine.freeList with
      | nil =>
          simp only [Pc.step, CacheEngine.allocate, hfree] at hstep
          cases hstep
          exact .poolEmpty hfree
      | cons slot rest =>
          simp only [Pc.step, CacheEngine.allocate, hfree] at hstep
          cases hstep
          exact .takeFree hfree
  | select miss =>
      cases hselect : selectEvictionCandidate choice.order engine.table with
      | none =>
          simp only [Pc.step, hselect] at hstep
          cases hstep
          exact .nothingToEvict hselect
      | some victim =>
          cases hflush : victim.needsFlush with
          | true =>
              simp only [Pc.step, hselect, hflush, if_true] at hstep
              cases hstep
              exact .chooseDirty hselect hflush
          | false =>
              simp only [Pc.step, hselect, hflush, Bool.false_eq_true,
                if_false] at hstep
              cases hstep
              exact .chooseClean hselect hflush
  | flushVictim miss victim =>
      cases hio : choice.io with
      | ok =>
          simp only [Pc.step, CacheEngine.writeBack, hio] at hstep
          cases hstep
          exact .victimWritten hio
      | fail error torn =>
          simp only [Pc.step, CacheEngine.writeBack, hio] at hstep
          cases hstep
          exact .victimTorn hio
  | wakeForVictim miss victim =>
      cases hstep
      exact .wakeForVictim
  | removeVictim miss victim =>
      cases hstep
      exact .removeVictim
  | freeVictim miss victim =>
      cases hstep
      exact .freeVictim
  | reallocate miss =>
      cases hfree : engine.freeList with
      | nil =>
          simp only [Pc.step, CacheEngine.allocate, hfree] at hstep
          cases hstep
          exact .exhausted hfree
      | cons slot rest =>
          simp only [Pc.step, CacheEngine.allocate, hfree] at hstep
          cases hstep
          exact .retake hfree
  | fetch lba slot =>
      cases hio : choice.io with
      | ok =>
          simp only [Pc.step, CacheEngine.fetch, hio] at hstep
          cases hstep
          exact .fetched hio
      | fail error torn =>
          simp only [Pc.step, CacheEngine.fetch, hio] at hstep
          cases hstep
          exact .fetchTorn hio
  | insertRead lba slot =>
      cases hstep
      exact .insertRead
  | copyRead lba slot =>
      cases hstep
      exact .copyRead
  | writeLookup lba buf =>
      cases hget : engine.table.get lba with
      | none =>
          simp only [Pc.step, hget] at hstep
          cases hstep
          exact .writeLookupMiss (LbaTable.slotOf_eq_none_iff.mpr hget)
      | some entry =>
          simp only [Pc.step, hget] at hstep
          cases hstep
          exact .writeLookupHit
            (LbaTable.slotOf_eq_some_iff.mpr ⟨entry, hget, rfl⟩)
  | writeHit lba buf slot =>
      cases hstep
      exact .writeHit
  | markDirty lba buf =>
      cases hstep
      exact .markDirty
  | fill lba buf slot =>
      cases hstep
      exact .fill
  | insertWrite lba buf slot =>
      cases hstep
      exact .insertWrite
  | stats lba buf wasUpdate =>
      simp only [Pc.step] at hstep
      split at hstep
      · cases hstep
        exact .statsAbove
      · cases hstep
        exact .statsBelow
  | wakeForWrite lba buf wasUpdate =>
      cases hstep
      exact .wakeForWrite
  | done outcome => cases hstep

/-! Everything a step of the flush thread can do. -/

inductive FlusherStep (choice : Choice setup) (engine : CacheEngine setup) :
    FlusherPc setup → FlusherPc setup → CacheEngine setup → Prop
  | disconnected (hchannel : engine.flusher = none) :
      FlusherStep choice engine .waiting (.snapshot (some .shutdown)) engine
  | received {channel} (hchannel : engine.flusher = some channel) :
      FlusherStep choice engine .waiting (.snapshot channel.pending)
        { engine with flusher := some { channel with pending := none } }
  | snapshot {signal} :
      FlusherStep choice engine (.snapshot signal)
        (.resume signal (engine.table.dirtyEntries choice.order) 0) engine
  | written {signal lba slot rest flushed} (hio : choice.io = .ok) :
      FlusherStep choice engine (.writing signal lba slot rest flushed)
        (.cleaning signal lba rest flushed)
        { engine with device := writeLba engine.device lba (engine.blocks slot) }
  | torn {signal lba slot rest flushed error torn}
      (hio : choice.io = .fail error torn) :
      FlusherStep choice engine (.writing signal lba slot rest flushed)
        (.resume signal rest flushed)
        { engine with device := writeLba engine.device lba torn }
  | cleaned {signal lba rest flushed} :
      FlusherStep choice engine (.cleaning signal lba rest flushed)
        (.resume signal rest (flushed + 1))
        { engine with table := engine.table.markClean lba }
  | synced {signal} :
      FlusherStep choice engine (.syncing signal) (.checking signal) engine
  | exit {signal} (hstop : signal = some .shutdown ∨
        engine.flusher.map (·.stop) = some true) :
      FlusherStep choice engine (.checking signal) .exited engine
  | again {signal} (hsignal : signal ≠ some .shutdown)
      (hstop : engine.flusher.map (·.stop) ≠ some true) :
      FlusherStep choice engine (.checking signal) .waiting engine

theorem FlusherPc.step_cases {choice : Choice setup}
    {engine nextEngine : CacheEngine setup} {pc next : FlusherPc setup}
    (hstep : pc.step choice engine = some (next, nextEngine)) :
    FlusherStep choice engine pc next nextEngine := by
  cases pc with
  | off => cases hstep
  | waiting =>
      cases hchannel : engine.flusher with
      | none =>
          simp only [FlusherPc.step, hchannel] at hstep
          cases hstep
          exact .disconnected hchannel
      | some channel =>
          simp only [FlusherPc.step, hchannel] at hstep
          cases hstep
          exact .received hchannel
  | snapshot signal =>
      cases hstep
      exact .snapshot
  | writing signal lba slot rest flushed =>
      cases hio : choice.io with
      | ok =>
          simp only [FlusherPc.step, CacheEngine.writeBack, hio] at hstep
          cases hstep
          exact .written hio
      | fail error torn =>
          simp only [FlusherPc.step, CacheEngine.writeBack, hio] at hstep
          cases hstep
          exact .torn hio
  | cleaning signal lba rest flushed =>
      cases hstep
      exact .cleaned
  | syncing signal =>
      cases hstep
      exact .synced
  | checking signal =>
      simp only [FlusherPc.step] at hstep
      split at hstep
      · next hstop =>
        cases hstep
        exact .exit hstop
      · next hstop =>
        cases hstep
        obtain ⟨hsignal, hflag⟩ := not_or.mp hstop
        exact .again hsignal hflag
  | exited => cases hstep

def FlusherPc.lbas : FlusherPc setup → List (Lba setup)
  | .writing _ lba _ rest _ => lba :: rest.map Prod.fst
  | .cleaning _ lba rest _ => lba :: rest.map Prod.fst
  | _ => []

theorem FlusherPc.lbas_resume (signal : Option FlushSignal)
    (pairs : List (Lba setup × Nat)) (flushed : Nat) :
    (FlusherPc.resume signal pairs flushed).lbas = pairs.map Prod.fst := by
  cases pairs with
  | nil =>
      simp only [FlusherPc.resume]
      split <;> rfl
  | cons pair rest => rfl

theorem FlusherPc.resume_ne_off (signal : Option FlushSignal)
    (pairs : List (Lba setup × Nat)) (flushed : Nat) :
    FlusherPc.resume signal pairs flushed ≠ .off := by
  cases pairs with
  | nil =>
      simp only [FlusherPc.resume]
      split <;> simp
  | cons pair rest => simp [FlusherPc.resume]

theorem FlusherStep.ne_off {choice : Choice setup}
    {engine nextEngine : CacheEngine setup} {pc next : FlusherPc setup}
    (hstep : FlusherStep choice engine pc next nextEngine) : next ≠ .off := by
  cases hstep with
  | snapshot => exact FlusherPc.resume_ne_off _ _ _
  | torn hfail => exact FlusherPc.resume_ne_off _ _ _
  | cleaned => exact FlusherPc.resume_ne_off _ _ _
  | _ => simp

/-! Everything the machine can do.  `start` and `stop` only move the flusher's
channel, its control point and the owner. -/

inductive OwnerStep (machine : Machine setup n) :
    Action setup n → Option FlushChannel → FlusherPc setup → OwnerPc → Prop
  | startSkipped :
      OwnerStep machine .start machine.engine.flusher machine.flusher
        machine.owner
  | started (howner : machine.owner = .running)
      (hchannel : machine.engine.flusher = none) :
      OwnerStep machine .start (some .fresh) .waiting machine.owner
  | stopSkipped (howner : machine.owner = .running) :
      OwnerStep machine .stop machine.engine.flusher machine.flusher
        machine.owner
  | stopCalled (howner : machine.owner = .running) (hquiet : machine.Quiet)
      (hchannel : machine.engine.flusher.isSome = true) :
      OwnerStep machine .stop machine.engine.flusher machine.flusher .storing
  | flagStored (howner : machine.owner = .storing) :
      OwnerStep machine .stop (machine.engine.flusher.map .storeStop)
        machine.flusher .sending
  | signalSent (howner : machine.owner = .sending) :
      OwnerStep machine .stop (machine.engine.flusher.map .sendShutdown)
        machine.flusher .joining
  | joined (howner : machine.owner = .joining)
      (hexited : machine.flusher = .exited) :
      OwnerStep machine .stop none .off .returned
  | stopReturned (howner : machine.owner = .returned) :
      OwnerStep machine .stop machine.engine.flusher machine.flusher .running

inductive MachineStep (machine : Machine setup n) :
    Action setup n → Machine setup n → Prop
  | invoke {thread call} (howner : machine.owner = .running)
      (hidle : machine.client thread = .idle) :
      MachineStep machine (.invoke thread call)
        { machine with
          client := Function.update machine.client thread call.enter }
  | client {thread choice pc engine}
      (hstep : ClientStep choice machine.engine (machine.client thread) pc engine) :
      MachineStep machine (.client thread choice)
        { machine with
          engine := engine
          client := Function.update machine.client thread pc }
  | respond {thread outcome} (hdone : machine.client thread = .done outcome) :
      MachineStep machine (.respond thread)
        { machine with client := Function.update machine.client thread .idle }
  | flush {choice pc engine}
      (hstep : FlusherStep choice machine.engine machine.flusher pc engine) :
      MachineStep machine (.flush choice)
        { machine with
          engine := engine
          flusher := pc }
  | owner {action channel flusher owner}
      (hstep : OwnerStep machine action channel flusher owner) :
      MachineStep machine action
        { machine with
          engine := { machine.engine with flusher := channel }
          flusher := flusher
          owner := owner }

theorem Call.enter_cases (call : Call setup) :
    (∃ error, call.enter = .done (.failed error)) ∨
      (∃ lba, call = .read lba.val ∧ call.enter = .readLookup lba) ∨
      ∃ lba buf, call = .write lba.val buf ∧ call.enter = .writeLookup lba buf := by
  cases call with
  | read lba =>
      simp only [Call.enter]
      split
      · next hlba => exact .inr (.inl ⟨⟨lba, hlba⟩, rfl, rfl⟩)
      · exact .inl ⟨_, rfl⟩
  | write lba buf =>
      simp only [Call.enter]
      split
      · next hlba =>
        split
        · exact .inl ⟨_, rfl⟩
        · exact .inr (.inr ⟨⟨lba, hlba⟩, buf, rfl, rfl⟩)
      · exact .inl ⟨_, rfl⟩

@[elab_as_elim]
theorem Call.enter_induction {P : Pc setup → Prop} (call : Call setup)
    (hfailed : ∀ error, P (.done (.failed error)))
    (hread : ∀ lba, P (.readLookup lba))
    (hwrite : ∀ lba buf, P (.writeLookup lba buf)) : P call.enter := by
  rcases call.enter_cases with ⟨error, henter⟩ | ⟨lba, _, henter⟩ |
    ⟨lba, buf, _, henter⟩
  · exact henter ▸ hfailed error
  · exact henter ▸ hread lba
  · exact henter ▸ hwrite lba buf

theorem Pc.isIdle_iff {pc : Pc setup} : pc.isIdle = true ↔ pc = .idle := by
  cases pc <;> simp [Pc.isIdle]

namespace Machine

variable {machine next : Machine setup n}

private theorem start_cases (howner : machine.owner = .running) :
    MachineStep machine .start machine.start := by
  unfold start
  split
  · exact .owner .startSkipped
  · next hchannel =>
    split
    · exact .owner .startSkipped
    · exact .owner (.started howner (by simpa using hchannel))

private theorem stop_cases (hstop : machine.stop = some next) :
    MachineStep machine .stop next := by
  unfold stop at hstop
  split at hstop
  · next howner =>
    split at hstop
    · next hquiet =>
      split at hstop
      · next hchannel =>
        cases hstop
        exact .owner (.stopCalled howner hquiet hchannel)
      · cases hstop
        exact .owner (.stopSkipped howner)
    · cases hstop
  · next howner =>
    cases hstop
    exact .owner (.flagStored howner)
  · next howner =>
    cases hstop
    exact .owner (.signalSent howner)
  · next howner =>
    split at hstop
    · next hexited =>
      cases hstop
      exact .owner (.joined howner hexited)
    · cases hstop
  · next howner =>
    cases hstop
    exact .owner (.stopReturned howner)

theorem step_cases {action : Action setup n}
    (hstep : machine.step action = some next) :
    MachineStep machine action next := by
  cases action with
  | invoke thread call =>
      simp only [step] at hstep
      split at hstep
      · next henabled =>
        cases hstep
        exact .invoke henabled.1 (Pc.isIdle_iff.mp henabled.2)
      · cases hstep
  | client thread choice =>
      simp only [step] at hstep
      split at hstep
      · cases hstep
      · next pc engine hclient =>
        cases hstep
        exact .client (Pc.step_cases hclient)
  | respond thread =>
      simp only [step] at hstep
      split at hstep
      · next outcome hdone =>
        cases hstep
        exact .respond hdone
      · cases hstep
  | flush choice =>
      simp only [step] at hstep
      split at hstep
      · cases hstep
      · next pc engine hflush =>
        cases hstep
        exact .flush (FlusherPc.step_cases hflush)
  | start =>
      simp only [step] at hstep
      split at hstep
      · next henabled =>
        cases hstep
        exact start_cases henabled.1
      · cases hstep
  | stop => exact stop_cases hstep

theorem client_cases {action : Action setup n}
    (hstep : machine.step action = some next) (thread : Fin n) :
    next.client thread = machine.client thread ∨ next.client thread = .idle ∨
      (∃ call, action = .invoke thread call ∧ next.client thread = call.enter) ∨
      ∃ choice, action = .client thread choice ∧
        ClientStep choice machine.engine (machine.client thread)
          (next.client thread) next.engine := by
  cases step_cases hstep with
  | @invoke active call howner hidle =>
      by_cases heq : thread = active
      · subst heq
        exact .inr (.inr (.inl ⟨call, rfl, Function.update_self ..⟩))
      · exact .inl (Function.update_of_ne heq ..)
  | @client active choice pc engine hclient =>
      by_cases heq : thread = active
      · subst heq
        refine .inr (.inr (.inr ⟨choice, rfl, ?_⟩))
        simpa only [Function.update_self] using hclient
      · exact .inl (Function.update_of_ne heq ..)
  | @respond active outcome hdone =>
      by_cases heq : thread = active
      · subst heq
        exact .inr (.inl (Function.update_self ..))
      · exact .inl (Function.update_of_ne heq ..)
  | flush hflush => exact .inl rfl
  | owner howner => exact .inl rfl

end Machine

end AsmCacheInject.Concurrent

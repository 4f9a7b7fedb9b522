import AsmCacheInject.Concurrent.Content

namespace AsmCacheInject.Concurrent

open AsmCacheInject.Cache
open AsmCacheInject.Data
open AsmCacheInject.Engine
open AsmCacheInject.Flush

variable {setup : Setup}

/-! What a hit returns.  A cached block is the client's own last access to its
LBA, whatever the flush thread does meanwhile and whichever transfers fail:
only a miss depends on the device. -/

/-- Every cached block is what its LBA was last seen with. -/
def Recalls (history : List (BlockEvent setup)) (engine : CacheEngine setup) :
    Prop :=
  ∀ lba slot, engine.table.slotOf lba = some slot →
    Register.lastSeen lba history = some (engine.blocks slot)

namespace Recalls

variable {history : List (BlockEvent setup)} {engine : CacheEngine setup}

theorem same_slots {table : LbaTable (Lba setup)}
    (hrecalls : Recalls history engine)
    (hslots : table.slotOf = engine.table.slotOf) :
    Recalls history { engine with table := table } := by
  intro lba slot hslot
  simp only [hslots] at hslot
  exact hrecalls lba slot hslot

theorem remove (hrecalls : Recalls history engine) (target : Lba setup) :
    Recalls history
      { engine with table := (engine.table.remove target).2 } := by
  intro lba slot hslot
  simp only [LbaTable.slotOf_remove] at hslot
  split at hslot
  · cases hslot
  · exact hrecalls lba slot hslot

theorem fill_unmapped (hrecalls : Recalls history engine) {slot : Nat}
    (hunmapped : ∀ lba, engine.table.slotOf lba ≠ some slot)
    (block : Block setup) : Recalls history (engine.fill slot block) := by
  intro lba mapped hmapped
  have hne : mapped ≠ slot := fun heq => hunmapped lba (heq ▸ hmapped)
  rw [CacheEngine.fill_blocks_of_ne hne]
  exact hrecalls lba mapped hmapped

theorem concat {next : CacheEngine setup} {event : BlockEvent setup}
    (hrecalls : Recalls history engine)
    (hself : ∀ slot, next.table.slotOf event.key = some slot →
      next.blocks slot = event.value)
    (hothers : ∀ lba slot, lba ≠ event.key → next.table.slotOf lba = some slot →
      engine.table.slotOf lba = some slot ∧
        next.blocks slot = engine.blocks slot) :
    Recalls (history ++ [event]) next := by
  intro lba slot hslot
  by_cases heq : lba = event.key
  · subst heq
    rw [Register.lastSeen_concat_self, hself slot hslot]
  · obtain ⟨hmapped, hblock⟩ := hothers lba slot heq hslot
    rw [Register.lastSeen_concat_of_ne heq, hblock]
    exact hrecalls lba slot hmapped

theorem read_again (hrecalls : Recalls history engine) {lba : Lba setup}
    {slot : Nat} (hslot : engine.table.slotOf lba = some slot) :
    Recalls (history ++ [.read lba (engine.blocks slot)]) engine := by
  apply hrecalls.concat
  · intro mapped hmapped
    cases hmapped.symm.trans hslot
    rfl
  · exact fun _ _ _ hmapped => ⟨hmapped, rfl⟩

theorem overwrite (hrecalls : Recalls history engine) {lba : Lba setup}
    {slot : Nat} (hslot : engine.table.slotOf lba = some slot)
    (hunique : ∀ other, engine.table.slotOf other = some slot → other = lba)
    (buf : Block setup) :
    Recalls (history ++ [.write lba buf]) (engine.fill slot buf) := by
  apply hrecalls.concat
  · intro mapped hmapped
    cases hmapped.symm.trans hslot
    exact CacheEngine.fill_blocks_self _ _ _
  · intro other mapped hne hmapped
    refine ⟨hmapped, CacheEngine.fill_blocks_of_ne ?_ _ _⟩
    intro heq
    subst heq
    exact hne (hunique other hmapped)

theorem insert (hrecalls : Recalls history engine)
    (event : BlockEvent setup) {entry : CacheEntry (Lba setup)}
    (hvalue : engine.blocks entry.poolIndex = event.value) :
    Recalls (history ++ [event])
      { engine with table := (engine.table.insert event.key entry).2 } := by
  apply hrecalls.concat
  · intro slot hslot
    simp only [LbaTable.slotOf_insert, if_true] at hslot
    cases hslot
    exact hvalue
  · intro lba slot hne hslot
    simp only [LbaTable.slotOf_insert, if_neg hne] at hslot
    exact ⟨hslot, rfl⟩

end Recalls

def Pc.due (blocks : Nat → Block setup) : Pc setup → List (BlockEvent setup)
  | .copyRead lba slot => [.read lba (blocks slot)]
  | pc => pc.unreported

theorem Miss.due_filling (miss : Miss setup) (slot : Nat)
    (blocks : Nat → Block setup) : (miss.filling slot).due blocks = [] := by
  cases miss <;> rfl

theorem Call.due_enter (call : Call setup) (blocks : Nat → Block setup) :
    call.enter.due blocks = [] :=
  call.enter_induction (fun _ => rfl) (fun _ => rfl) fun _ _ => rfl

theorem ClientStep.recalls {choice : Choice setup} {machine : Machine setup 1}
    {next : Pc setup} {engine : CacheEngine setup}
    {history : List (BlockEvent setup)}
    (hstep : ClientStep choice machine.engine (machine.client 0) next engine)
    (halone : machine.Alone) (hfilled : (machine.client 0).Filled machine.engine.blocks)
    (hrecalls : Recalls
      (history ++ (machine.client 0).due machine.engine.blocks) machine.engine) :
    Recalls (history ++ next.due engine.blocks) engine := by
  have hunmapped := halone.owned.held_unmapped 0
  have hunique := halone.owned.mapped_unique
  have hcurrent := halone.current
  unfold Machine.held at hunmapped
  generalize machine.client 0 = pc at *
  cases hstep with
  | lookupHit hslot => exact hrecalls.same_slots (LbaTable.slotOf_getAndTouch _ _ _)
  | readHit =>
      simp only [Pc.due, Pc.unreported, List.append_nil] at hrecalls
      exact hrecalls.read_again hcurrent
  | takeFree hfree =>
      rw [Miss.due_filling]
      exact hrecalls
  | retake hfree =>
      rw [Miss.due_filling]
      exact hrecalls
  | removeVictim => exact hrecalls.remove _
  | @fetched lba slot hok => exact hrecalls.fill_unmapped (hunmapped slot rfl) _
  | @fetchTorn lba slot error torn hfail =>
      exact hrecalls.fill_unmapped (hunmapped slot rfl) _
  | @insertRead lba slot =>
      simp only [Pc.due, Pc.unreported, List.append_nil] at hrecalls
      exact hrecalls.insert (.read lba (machine.engine.blocks slot)) rfl
  | @writeHit lba buf slot =>
      simp only [Pc.due, Pc.unreported, List.append_nil] at hrecalls
      exact hrecalls.overwrite hcurrent
        (fun other hother => hunique other lba slot hother hcurrent) buf
  | markDirty => exact hrecalls.same_slots (LbaTable.slotOf_markDirty _ _ _)
  | @fill lba buf slot => exact hrecalls.fill_unmapped (hunmapped slot rfl) _
  | @insertWrite lba buf slot =>
      simp only [Pc.due, Pc.unreported, List.append_nil] at hrecalls
      exact hrecalls.insert (.write lba buf) hfilled
  | _ => exact hrecalls

theorem ClientStep.hit {choice : Choice setup} {pc : Pc setup}
    {engine nextEngine : CacheEngine setup} {lba : Lba setup}
    {data : Block setup}
    (hstep : ClientStep choice engine pc (.done (.readOk lba ⟨true, data⟩))
      nextEngine) :
    ∃ slot, pc = .readHit lba slot ∧ data = engine.blocks slot := by
  generalize hnext : Pc.done (.readOk lba ⟨true, data⟩) = next at hstep
  cases hstep with
  | @readHit target slot =>
      cases hnext
      exact ⟨slot, rfl, rfl⟩
  | @takeFree miss slot rest hfree => cases miss <;> cases hnext
  | @retake miss slot rest hfree => cases miss <;> cases hnext
  | _ => cases hnext

namespace Machine

/-- The client beside the flush thread, with what it has been told so far. -/
structure Recalling (history : List (BlockEvent setup))
    (machine : Machine setup 1) : Prop where
  alone : machine.Alone
  filled : (machine.client 0).Filled machine.engine.blocks
  cached : Recalls (history ++ (machine.client 0).due machine.engine.blocks)
    machine.engine
  hit : ∀ lba data, machine.client 0 = .done (.readOk lba ⟨true, data⟩) →
    Register.lastSeen lba history = some data

variable {machine next : Machine setup 1} {action : Action setup 1}
variable {history : List (BlockEvent setup)}

theorem recalling_init (setup : Setup) (image : Image) :
    Recalling [] (init setup 1 image) where
  alone := alone_init setup image
  filled := trivial
  cached := by
    intro lba slot hslot
    simp [init, CacheEngine.boot] at hslot
  hit := by
    intro lba data hdone
    cases hdone

theorem Recalling.invoked (hrecalling : Recalling history machine)
    (hidle : machine.client 0 = .idle) (call : Call setup)
    (halone : Alone
      { machine with client := Function.update machine.client 0 call.enter }) :
    Recalling history
      { machine with client := Function.update machine.client 0 call.enter } where
  alone := halone
  filled := by
    simp only [Function.update_self]
    exact call.filled_enter _
  cached := by
    have hcached := hrecalling.cached
    rw [hidle] at hcached
    simp only [Function.update_self, call.due_enter]
    exact hcached
  hit := by
    intro lba data hdone
    simp only [Function.update_self] at hdone
    rcases call.enter_cases with ⟨_, henter⟩ | ⟨_, _, henter⟩ | ⟨_, _, _, henter⟩ <;>
      cases henter.symm.trans hdone

theorem Recalling.advanced (hrecalling : Recalling history machine)
    {choice : Choice setup} {pc : Pc setup} {engine : CacheEngine setup}
    (hclient : ClientStep choice machine.engine (machine.client 0) pc engine)
    (halone : Alone
      { machine with
        engine := engine
        client := Function.update machine.client 0 pc }) :
    Recalling history
      { machine with
        engine := engine
        client := Function.update machine.client 0 pc } where
  alone := halone
  filled := by
    simp only [Function.update_self]
    exact hclient.filled
  cached := by
    simp only [Function.update_self]
    exact hclient.recalls hrecalling.alone hrecalling.filled
      hrecalling.cached
  hit := by
    intro lba data hdone
    simp only [Function.update_self] at hdone
    subst hdone
    obtain ⟨slot, hpc, rfl⟩ := hclient.hit
    have hcached := hrecalling.cached
    have hcurrent := hrecalling.alone.current
    rw [hpc] at hcached hcurrent
    simp only [Pc.due, Pc.unreported, List.append_nil] at hcached
    exact hcached lba slot hcurrent

theorem Recalling.step (hrecalling : Recalling history machine)
    (hstep : machine.step action = some next) :
    Recalling (history ++ machine.emitted action) next := by
  have halone := hrecalling.alone.step hstep
  cases step_cases hstep with
  | @invoke thread call howner hidle =>
      obtain rfl : thread = 0 := Subsingleton.elim thread 0
      simp only [emitted, List.append_nil]
      exact hrecalling.invoked hidle call halone
  | @client thread choice pc engine hclient =>
      obtain rfl : thread = 0 := Subsingleton.elim thread 0
      simp only [emitted, List.append_nil]
      exact hrecalling.advanced hclient halone
  | @respond thread outcome hdone =>
      obtain rfl : thread = 0 := Subsingleton.elim thread 0
      have hcached := hrecalling.cached
      rw [hdone] at hcached
      refine ⟨halone, ?_, ?_, ?_⟩
      · simp only [Function.update_self]
        trivial
      · simp only [Function.update_self, emitted, hdone, Pc.due, Pc.unreported,
          List.append_nil]
        exact hcached
      · intro lba data hreturned
        simp only [Function.update_self] at hreturned
        cases hreturned
  | @flush choice pc engine hflush =>
      have hcached := hrecalling.cached
      simp only [emitted, List.append_nil]
      refine ⟨halone, ?_, ?_, hrecalling.hit⟩
      · simp only [hflush.blocks_eq]
        exact hrecalling.filled
      · intro lba slot hslot
        simp only [hflush.slotOf] at hslot
        simp only [hflush.blocks_eq]
        exact hcached lba slot hslot
  | owner howner =>
      have hsilent : machine.emitted action = [] := by cases howner <;> rfl
      rw [hsilent, List.append_nil]
      exact ⟨halone, hrecalling.filled, hrecalling.cached, hrecalling.hit⟩

/-- One client beside the flush thread, under any interleaving and any I/O
failures: a read that hits returns what the client's last successful access to
the LBA, be it a read or a write, has shown it. -/
theorem hit_returns_last_access {image : Image} {run : List (Action setup 1)}
    {lba : Lba setup} {data : Block setup}
    (hrun : Run.exec step (init setup 1 image) run = some machine)
    (hhit : machine.client 0 = .done (.readOk lba ⟨true, data⟩)) :
    Register.lastSeen lba (Run.trace step emitted (init setup 1 image) run) =
      some data := by
  have hany : Run.Along step (fun _ _ => True) (init setup 1 image) run :=
    Run.along_of_forall fun _ _ => trivial
  have hrecalling : Recalling
      (Run.trace step emitted (init setup 1 image) run) machine :=
    Run.invariant_trace (recalling_init setup image)
      (fun _ _ _ _ hrecalling _ hstep => hrecalling.step hstep) hany hrun
  exact hrecalling.hit lba data hhit

def tornWriteBack : List (Action (.mini 0) 1) :=
  List.flatten [
    [.start, .invoke lone (.write 0 fun _ => 5)], advance lone 6 1,
    [.respond lone, .flush (.calm 2), .flush (.calm 2),
      .flush { Choice.calm 2 with
        io := .fail ⟨.other, "Input/output error (os error 5)"⟩ fun _ => 9 },
      .invoke lone (.read 0)], advance lone 2 3]

theorem tornWriteBack_hit :
    ∃ machine, Run.exec step (init (.mini 0) 1 stripes) tornWriteBack =
        some machine ∧
      readLba machine.engine.device (0 : Lba (.mini 0)) 0 = 9 ∧
      Register.lastSeen 0 (Run.trace step emitted (init (.mini 0) 1 stripes)
        tornWriteBack) = some fun _ => 5 := by
  have hreturned : (Run.exec step (init (.mini 0) 1 stripes) tornWriteBack).map
      (fun machine => (machine.client 0,
        readLba machine.engine.device (0 : Lba (.mini 0)) 0)) =
      some (.done (.readOk 0 ⟨true, fun _ => 5⟩), 9) := rfl
  obtain ⟨machine, hrun, hfinal⟩ := Option.map_eq_some_iff.mp hreturned
  obtain ⟨hhit, htorn⟩ := Prod.mk.inj hfinal
  exact ⟨machine, hrun, htorn, hit_returns_last_access hrun hhit⟩

end Machine

end AsmCacheInject.Concurrent

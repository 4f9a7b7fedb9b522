import AsmCacheInject.Concurrent.Content
import AsmCacheInject.Concurrent.Exhaustion

namespace AsmCacheInject.Concurrent

open AsmCacheInject.Cache
open AsmCacheInject.Data
open AsmCacheInject.Engine
open AsmCacheInject.Flush

variable {setup : Setup} {n : Nat}

/-! A pool with a block for every LBA of the device, and clients that keep to
LBAs of their own.  Nothing is ever evicted, so no slot changes its LBA and no
device block is read after it was first cached. -/

def Pc.lba : Pc setup → Option (Lba setup)
  | .idle => none
  | .readLookup lba => some lba
  | .readHit lba _ => some lba
  | .allocate miss => some miss.lba
  | .select miss => some miss.lba
  | .flushVictim miss _ => some miss.lba
  | .wakeForVictim miss _ => some miss.lba
  | .removeVictim miss _ => some miss.lba
  | .freeVictim miss _ => some miss.lba
  | .reallocate miss => some miss.lba
  | .fetch lba _ => some lba
  | .insertRead lba _ => some lba
  | .copyRead lba _ => some lba
  | .writeLookup lba _ => some lba
  | .writeHit lba _ _ => some lba
  | .markDirty lba _ => some lba
  | .fill lba _ _ => some lba
  | .insertWrite lba _ _ => some lba
  | .stats lba _ _ => some lba
  | .wakeForWrite lba _ _ => some lba
  | .done (.readOk lba _) => some lba
  | .done (.writeOk lba _ _) => some lba
  | .done (.failed _) => none

/-- The client is in the slow path of `allocate_or_evict`. -/
def Pc.evicts : Pc setup → Bool
  | .select _ => true
  | .flushVictim _ _ => true
  | .wakeForVictim _ _ => true
  | .removeVictim _ _ => true
  | .freeVictim _ _ => true
  | .reallocate _ => true
  | _ => false

/-- The LBA a client has a slot in hand for. -/
def Pc.fills : Pc setup → Option (Lba setup)
  | .fetch lba _ => some lba
  | .insertRead lba _ => some lba
  | .fill lba _ _ => some lba
  | .insertWrite lba _ _ => some lba
  | _ => none

theorem Pc.lba_of_fills {pc : Pc setup} {lba : Lba setup}
    (hfills : pc.fills = some lba) : pc.lba = some lba := by
  cases pc with
  | fetch target slot => exact hfills
  | insertRead target slot => exact hfills
  | fill target buf slot => exact hfills
  | insertWrite target buf slot => exact hfills
  | _ => cases hfills

theorem Pc.lba_of_commits {pc : Pc setup} {lba : Lba setup} {buf : Block setup}
    (hcommits : pc.commits = some (lba, buf)) : pc.lba = some lba := by
  cases pc with
  | writeHit target data slot =>
      cases hcommits
      rfl
  | insertWrite target data slot =>
      cases hcommits
      rfl
  | _ => cases hcommits

@[simp] theorem Miss.fills_filling (miss : Miss setup) (slot : Nat) :
    (miss.filling slot).fills = some miss.lba := by
  cases miss <;> rfl

theorem Miss.lba_filling (miss : Miss setup) (slot : Nat) :
    (miss.filling slot).lba = some miss.lba := by
  cases miss <;> rfl

theorem Miss.evicts_filling (miss : Miss setup) (slot : Nat) :
    (miss.filling slot).evicts = false := by
  cases miss <;> rfl

theorem Pc.Current.congr {mapped other : Lba setup → Option Nat} {pc : Pc setup}
    (hcurrent : pc.Current mapped) (hevicts : pc.evicts = false)
    (hsame : ∀ lba, pc.lba = some lba → other lba = mapped lba) :
    pc.Current other := by
  cases pc with
  | readHit lba slot => exact (hsame lba rfl).trans hcurrent
  | allocate miss => exact (hsame miss.lba rfl).trans hcurrent
  | fetch lba slot => exact (hsame lba rfl).trans hcurrent
  | insertRead lba slot => exact (hsame lba rfl).trans hcurrent
  | copyRead lba slot => exact (hsame lba rfl).trans hcurrent
  | writeHit lba buf slot => exact (hsame lba rfl).trans hcurrent
  | fill lba buf slot => exact (hsame lba rfl).trans hcurrent
  | insertWrite lba buf slot => exact (hsame lba rfl).trans hcurrent
  | select miss => cases hevicts
  | flushVictim miss victim => cases hevicts
  | wakeForVictim miss victim => cases hevicts
  | removeVictim miss victim => cases hevicts
  | freeVictim miss victim => cases hevicts
  | reallocate miss => cases hevicts
  | _ => trivial

section Step

variable {choice : Choice setup} {engine nextEngine : CacheEngine setup}
variable {pc next : Pc setup} {lba : Lba setup}

theorem ClientStep.slotOf_elsewhere
    (hstep : ClientStep choice engine pc next nextEngine)
    (hevicts : pc.evicts = false) (hne : pc.lba ≠ some lba) :
    nextEngine.table.slotOf lba = engine.table.slotOf lba := by
  cases hstep with
  | lookupHit hslot => rw [LbaTable.slotOf_getAndTouch]
  | removeVictim => cases hevicts
  | insertRead =>
      rw [LbaTable.slotOf_insert, if_neg]
      exact fun heq => hne (congrArg some heq.symm)
  | markDirty => rw [LbaTable.slotOf_markDirty]
  | insertWrite =>
      rw [LbaTable.slotOf_insert, if_neg]
      exact fun heq => hne (congrArg some heq.symm)
  | _ => rfl

theorem ClientStep.slotOf_kept
    (hstep : ClientStep choice engine pc next nextEngine)
    (hevicts : pc.evicts = false) (hcurrent : pc.Current engine.table.slotOf)
    {slot : Nat} (hslot : engine.table.slotOf lba = some slot) :
    nextEngine.table.slotOf lba = some slot := by
  by_cases hlba : pc.lba = some lba
  · cases hstep with
    | lookupHit hhit => rw [LbaTable.slotOf_getAndTouch, hslot]
    | removeVictim => cases hevicts
    | insertRead =>
        cases hlba
        cases hslot.symm.trans hcurrent
    | markDirty => rw [LbaTable.slotOf_markDirty, hslot]
    | insertWrite =>
        cases hlba
        cases hslot.symm.trans hcurrent
    | _ => exact hslot
  · rw [hstep.slotOf_elsewhere hevicts hlba, hslot]

theorem ClientStep.same_lba (hstep : ClientStep choice engine pc next nextEngine)
    (hlba : next.lba = some lba) : pc.lba = some lba := by
  cases hstep with
  | takeFree hfree =>
      rw [Miss.lba_filling] at hlba
      exact hlba
  | retake hfree =>
      rw [Miss.lba_filling] at hlba
      exact hlba
  | _ => first | exact hlba | cases hlba

theorem ClientStep.evicts (hstep : ClientStep choice engine pc next nextEngine)
    (hevicts : pc.evicts = false) :
    next.evicts = false ∨
      (∃ miss, pc = .allocate miss) ∧ engine.freeList = [] := by
  cases hstep with
  | takeFree hfree => exact .inl (Miss.evicts_filling _ _)
  | poolEmpty hfree => exact .inr ⟨⟨_, rfl⟩, hfree⟩
  | retake hfree => exact .inl (Miss.evicts_filling _ _)
  | _ => first | exact .inl rfl | cases hevicts

/-- A miss trades a free slot for the LBA it fills; nothing else uncovers an
LBA. -/
theorem ClientStep.room (hstep : ClientStep choice engine pc next nextEngine)
    (hevicts : pc.evicts = false) (hio : choice.io.succeeds = true) :
    (nextEngine.freeList = engine.freeList ∧
        ∀ lba, nextEngine.table.slotOf lba = none → next.fills ≠ some lba →
          engine.table.slotOf lba = none ∧ pc.fills ≠ some lba) ∨
      ∃ miss slot, pc = .allocate miss ∧ next.fills = some miss.lba ∧
        engine.freeList = slot :: nextEngine.freeList ∧
        nextEngine.table = engine.table := by
  have hinserted : ∀ (target : Lba setup) (entry : CacheEntry (Lba setup)) lba,
      (engine.table.insert target entry).2.slotOf lba = none →
      engine.table.slotOf lba = none ∧ some target ≠ some lba := by
    intro target entry lba hslot
    rw [LbaTable.slotOf_insert] at hslot
    split at hslot
    · cases hslot
    · next hne => exact ⟨hslot, fun heq => hne (Option.some.inj heq).symm⟩
  cases hstep with
  | lookupHit hslot =>
      refine .inl ⟨rfl, fun lba hnone _ => ⟨?_, by simp [Pc.fills]⟩⟩
      rwa [LbaTable.slotOf_getAndTouch] at hnone
  | takeFree hfree => exact .inr ⟨_, _, rfl, Miss.fills_filling _ _, hfree, rfl⟩
  | removeVictim => cases hevicts
  | freeVictim => cases hevicts
  | retake hfree => cases hevicts
  | fetchTorn hfail => exact absurd hfail (IoOutcome.ne_fail hio _ _)
  | insertRead => exact .inl ⟨rfl, fun lba hnone _ => hinserted _ _ lba hnone⟩
  | markDirty =>
      refine .inl ⟨rfl, fun lba hnone _ => ⟨?_, by simp [Pc.fills]⟩⟩
      rwa [LbaTable.slotOf_markDirty] at hnone
  | insertWrite => exact .inl ⟨rfl, fun lba hnone _ => hinserted _ _ lba hnone⟩
  | _ => exact .inl ⟨rfl, fun lba hnone hfills => ⟨hnone, hfills⟩⟩

theorem ClientStep.content_confined {held : Fin n → Option Nat} {thread : Fin n}
    (hstep : ClientStep choice engine pc next nextEngine)
    (howned : Exclusive engine.freeList engine.table.slotOf held)
    (hheld : held thread = pc.held) (hevicts : pc.evicts = false)
    (hio : choice.io.succeeds = true) (hcurrent : pc.Current engine.table.slotOf)
    (hfilled : pc.Filled engine.blocks) (hloaded : pc.Loaded engine) :
    nextEngine.content = applyWrite engine.content pc.commits := by
  have hunmapped : ∀ slot, pc.held = some slot →
      ∀ lba, engine.table.slotOf lba ≠ some slot :=
    fun slot hslot => howned.held_unmapped thread slot (hheld.trans hslot)
  cases hstep with
  | lookupHit hslot => exact content_same_slots (LbaTable.slotOf_getAndTouch _ _ _)
  | victimWritten hok => cases hevicts
  | victimTorn hfail => cases hevicts
  | removeVictim => cases hevicts
  | @fetched lba slot hok => exact content_fill_unmapped (hunmapped slot rfl) _
  | fetchTorn hfail => exact absurd hfail (IoOutcome.ne_fail hio _ _)
  | @insertRead lba slot =>
      rw [content_insert]
      have hsame : engine.blocks slot = engine.content lba :=
        hloaded.trans (CacheEngine.content_of_absent hcurrent).symm
      simp only [CacheEntry.new, hsame, Function.update_eq_self]
      rfl
  | @writeHit lba buf slot =>
      exact content_fill_mapped hcurrent
        (fun other hother => howned.mapped_unique other lba slot hother hcurrent) _
  | markDirty => exact content_same_slots (LbaTable.slotOf_markDirty _ _ _)
  | @fill lba buf slot => exact content_fill_unmapped (hunmapped slot rfl) _
  | @insertWrite lba buf slot =>
      have hbuf : engine.blocks slot = buf := hfilled
      rw [content_insert, ← hbuf]
      rfl
  | _ => rfl

theorem ClientStep.applyWrite_committed
    (hstep : ClientStep choice engine pc next nextEngine)
    (told : Lba setup → Block setup) :
    applyWrite told next.committed =
      applyWrite (applyWrite told pc.committed) pc.commits := by
  cases hstep with
  | takeFree hfree => rw [Miss.committed_filling]; rfl
  | retake hfree => rw [Miss.committed_filling]; rfl
  | _ => rfl

theorem ClientStep.readReturned (hstep : ClientStep choice engine pc next nextEngine)
    (hcurrent : pc.Current engine.table.slotOf) {result : ReadResult setup}
    (hread : next = .done (.readOk lba result)) :
    result.data = nextEngine.content lba := by
  cases hstep with
  | readHit =>
      cases hread
      exact (CacheEngine.content_of_cached hcurrent).symm
  | copyRead =>
      cases hread
      exact (CacheEngine.content_of_cached hcurrent).symm
  | @takeFree miss slot rest hfree => cases miss <;> cases hread
  | @retake miss slot rest hfree => cases miss <;> cases hread
  | _ => cases hread

theorem ClientStep.not_failed (hstep : ClientStep choice engine pc next nextEngine)
    (hevicts : pc.evicts = false) (hio : choice.io.succeeds = true)
    (error : CacheError) : next ≠ .done (.failed error) := by
  intro hfailed
  cases hstep with
  | @takeFree miss slot rest hfree => cases miss <;> cases hfailed
  | @retake miss slot rest hfree => cases hevicts
  | nothingToEvict hselect => cases hevicts
  | victimTorn hfail => cases hevicts
  | exhausted hfree => cases hevicts
  | fetchTorn hfail => exact absurd hfail (IoOutcome.ne_fail hio _ _)
  | _ => cases hfailed

end Step

/-! The pairs of the flush thread. -/

/-- The pairs of the snapshot that the flush thread still has to write. -/
def FlusherPc.pairs : FlusherPc setup → List (Lba setup × Nat)
  | .writing _ lba slot rest _ => (lba, slot) :: rest
  | .cleaning _ _ rest _ => rest
  | _ => []

theorem FlusherPc.pairs_resume (signal : Option FlushSignal)
    (pairs : List (Lba setup × Nat)) (flushed : Nat) :
    (FlusherPc.resume signal pairs flushed).pairs = pairs := by
  cases pairs with
  | nil =>
      simp only [FlusherPc.resume]
      split <;> rfl
  | cons pair rest => rfl

section Flush

variable {choice : Choice setup} {engine nextEngine : CacheEngine setup}
variable {pc next : FlusherPc setup}

theorem FlusherStep.pairs (hstep : FlusherStep choice engine pc next nextEngine)
    (hkeyed : engine.table.SelfKeyed)
    (hpairs : ∀ pair ∈ pc.pairs, PairCurrent engine pair) :
    ∀ pair ∈ next.pairs, PairCurrent engine pair := by
  cases hstep with
  | snapshot =>
      rw [FlusherPc.pairs_resume]
      intro pair hmem
      exact ((LbaTable.mem_dirtyEntries_iff hkeyed choice.order).mp hmem).1
  | written hok => exact fun pair hmem => hpairs pair (List.mem_cons_of_mem _ hmem)
  | torn hfail =>
      rw [FlusherPc.pairs_resume]
      exact fun pair hmem => hpairs pair (List.mem_cons_of_mem _ hmem)
  | cleaned =>
      rw [FlusherPc.pairs_resume]
      exact hpairs
  | _ => exact hpairs

/-- A write-back below a cached block, whole or torn, is invisible. -/
theorem FlusherStep.content_cached
    (hstep : FlusherStep choice engine pc next nextEngine)
    (hpairs : ∀ pair ∈ pc.pairs, PairCurrent engine pair) :
    nextEngine.content = engine.content := by
  have hcached : ∀ lba slot, (lba, slot) ∈ pc.pairs →
      engine.table.slotOf lba ≠ none := by
    intro lba slot hmem hnone
    cases hnone.symm.trans (hpairs (lba, slot) hmem)
  cases hstep with
  | written hok => exact content_write_cached (hcached _ _ List.mem_cons_self) _
  | torn hfail => exact content_write_cached (hcached _ _ List.mem_cons_self) _
  | cleaned => exact content_same_slots (LbaTable.slotOf_markClean _ _)
  | _ => rfl

theorem FlusherStep.readLba_absent
    (hstep : FlusherStep choice engine pc next nextEngine)
    (hpairs : ∀ pair ∈ pc.pairs, PairCurrent engine pair) {lba : Lba setup}
    (habsent : engine.table.slotOf lba = none) :
    readLba nextEngine.device lba = readLba engine.device lba := by
  have hother : ∀ target slot, (target, slot) ∈ pc.pairs → lba ≠ target := by
    intro target slot hmem heq
    cases (heq ▸ habsent).symm.trans (hpairs (target, slot) hmem)
  cases hstep with
  | written hok => rw [readLba_writeLba, if_neg (hother _ _ List.mem_cons_self)]
  | torn hfail => rw [readLba_writeLba, if_neg (hother _ _ List.mem_cons_self)]
  | _ => rfl

end Flush

/-! Calls. -/

def Refusal (setup : Setup) (error : CacheError) : Prop :=
  (∃ lba, error = .lbaOutOfRange lba setup.maxLba) ∨
    error = .config "write rejected: engine is in read-only mode"

theorem Call.refusal_of_enter {call : Call setup} {error : CacheError}
    (henter : call.enter = .done (.failed error)) : Refusal setup error := by
  cases call with
  | read lba =>
      simp only [Call.enter] at henter
      split at henter
      · cases henter
      · cases henter
        exact .inl ⟨lba, rfl⟩
  | write lba buf =>
      simp only [Call.enter] at henter
      split at henter
      · split at henter
        · cases henter
          exact .inr rfl
        · cases henter
      · cases henter
        exact .inl ⟨lba, rfl⟩

theorem Call.evicts_enter (call : Call setup) : call.enter.evicts = false :=
  call.enter_induction (fun _ => rfl) (fun _ => rfl) fun _ _ => rfl

/-- A client calls the engine for LBAs of its own only. -/
def Action.KeepsTo (owner : Lba setup → Fin n) : Action setup n → Prop
  | .invoke thread call =>
      ∀ lba, call.enter.lba = some lba → owner lba = thread
  | _ => True

instance (owner : Lba setup → Fin n) : (action : Action setup n) →
    Decidable (action.KeepsTo owner)
  | .invoke _ _ => inferInstanceAs (Decidable (∀ _, _))
  | .client _ _ | .respond _ | .flush _ | .start | .stop => isTrue trivial

/-- The clients' transfers succeed; those of the flush thread may fail. -/
def Action.clientFaultless : Action setup n → Bool
  | .client _ choice => choice.io.succeeds
  | _ => true

namespace Machine

/-- The LBAs that are neither cached nor about to be. -/
def unseen (machine : Machine setup n) : Finset (Lba setup) :=
  Finset.univ.filter fun lba =>
    machine.engine.table.slotOf lba = none ∧
      ∀ thread, (machine.client thread).fills ≠ some lba

theorem mem_unseen {machine : Machine setup n} {lba : Lba setup} :
    lba ∈ machine.unseen ↔ machine.engine.table.slotOf lba = none ∧
      ∀ thread, (machine.client thread).fills ≠ some lba := by
  simp [unseen]

structure Resident (owner : Lba setup → Fin n) (machine : Machine setup n) :
    Prop where
  keyed : machine.engine.table.SelfKeyed
  owned : machine.Owned
  current : ∀ thread, (machine.client thread).Current machine.engine.table.slotOf
  confined : ∀ thread lba, (machine.client thread).lba = some lba →
    owner lba = thread
  settled : ∀ thread, (machine.client thread).evicts = false
  room : machine.unseen.card ≤ machine.engine.freeList.length
  pairs : ∀ pair ∈ machine.flusher.pairs, PairCurrent machine.engine pair
  loaded : ∀ thread, (machine.client thread).Loaded machine.engine
  filled : ∀ thread, (machine.client thread).Filled machine.engine.blocks
  refused : ∀ thread error, machine.client thread = .done (.failed error) →
    Refusal setup error

variable {owner : Lba setup → Fin n} {machine next : Machine setup n}
variable {action : Action setup n}

theorem resident_init (hfits : setup.maxLba ≤ setup.capacity)
    (owner : Lba setup → Fin n) (image : Image) :
    (init setup n image).Resident owner where
  keyed := LbaTable.selfKeyed_new
  owned := owned_init setup n image
  current := fun _ => trivial
  confined := fun _ _ hlba => by cases hlba
  settled := fun _ => rfl
  room := by
    calc
      (init setup n image).unseen.card ≤ setup.maxLba := by
        simpa using Finset.card_le_univ (init setup n image).unseen
      _ ≤ setup.capacity := hfits
      _ = (init setup n image).engine.freeList.length := by
        simp [init, CacheEngine.boot]
  pairs := fun _ hmem => by cases hmem
  loaded := fun _ => trivial
  filled := fun _ => trivial
  refused := fun _ _ hdone => by cases hdone

theorem Resident.evictsOwnSlot (hresident : machine.Resident owner)
    (action : Action setup n) : machine.EvictsOwnSlot action := by
  cases action with
  | client thread choice =>
      intro pair hremoves
      have hsettled := hresident.settled thread
      cases hpc : machine.client thread with
      | removeVictim miss victim =>
          rw [hpc] at hsettled
          cases hsettled
      | _ =>
          rw [hpc] at hremoves
          cases hremoves
  | _ => trivial

/-- A miss finds a free slot: its own LBA is unseen. -/
theorem Resident.free_of_miss (hresident : machine.Resident owner)
    {thread : Fin n} {miss : Miss setup}
    (hmiss : machine.client thread = .allocate miss) :
    miss.lba ∈ machine.unseen := by
  have hcurrent := hresident.current thread
  rw [hmiss] at hcurrent
  refine mem_unseen.mpr ⟨hcurrent, ?_⟩
  intro other hfills
  have hother := hresident.confined other miss.lba (Pc.lba_of_fills hfills)
  have hself := hresident.confined thread miss.lba (by rw [hmiss]; rfl)
  rw [← hother, hself, hmiss] at hfills
  cases hfills

section Client

variable {thread : Fin n} {choice : Choice setup} {pc : Pc setup}
variable {engine : CacheEngine setup}

theorem Resident.elsewhere (hresident : machine.Resident owner) {other : Fin n}
    (hother : other ≠ thread) {lba : Lba setup}
    (hlba : (machine.client other).lba = some lba) :
    (machine.client thread).lba ≠ some lba := by
  intro hsame
  apply hother
  rw [← hresident.confined other lba hlba]
  exact hresident.confined thread lba hsame

theorem Resident.room_step (hresident : machine.Resident owner)
    (hclient : ClientStep choice machine.engine (machine.client thread) pc engine)
    (hio : choice.io.succeeds = true) :
    (unseen { machine with
      engine := engine
      client := Function.update machine.client thread pc }).card ≤
      engine.freeList.length := by
  have hroom := hresident.room
  rcases hclient.room (hresident.settled thread) hio with
    ⟨hfree, hcovers⟩ | ⟨miss, slot, hmiss, hfills, hfree, htable⟩
  · rw [hfree]
    refine le_trans (Finset.card_le_card ?_) hroom
    intro lba hmem
    obtain ⟨hnone, hunfilled⟩ := mem_unseen.mp hmem
    obtain ⟨hself, hothers⟩ := (Function.forall_update_iff _
      fun _ (pc : Pc setup) => pc.fills ≠ some lba).mp hunfilled
    obtain ⟨hbefore, hthread⟩ := hcovers lba hnone hself
    refine mem_unseen.mpr ⟨hbefore, fun other => ?_⟩
    by_cases heq : other = thread
    · rw [heq]
      exact hthread
    · exact hothers other heq
  · have hmem := hresident.free_of_miss hmiss
    have hcard := Finset.card_erase_of_mem hmem
    have hsubset : unseen { machine with
        engine := engine
        client := Function.update machine.client thread pc } ⊆
        machine.unseen.erase miss.lba := by
      intro lba hunseen
      obtain ⟨hnone, hunfilled⟩ := mem_unseen.mp hunseen
      obtain ⟨hself, hothers⟩ := (Function.forall_update_iff _
        fun _ (pc : Pc setup) => pc.fills ≠ some lba).mp hunfilled
      simp only [htable] at hnone
      refine Finset.mem_erase.mpr ⟨?_, mem_unseen.mpr ⟨hnone, fun other => ?_⟩⟩
      · intro heq
        exact hself (hfills.trans (congrArg some heq.symm))
      · by_cases heq : other = thread
        · rw [heq, hmiss]
          simp [Pc.fills]
        · exact hothers other heq
    have hle := Finset.card_le_card hsubset
    rw [hfree, List.length_cons] at hroom
    omega

theorem Resident.client_step (hresident : machine.Resident owner)
    (hclient : ClientStep choice machine.engine (machine.client thread) pc engine)
    (hio : choice.io.succeeds = true)
    (howned : Owned { machine with
      engine := engine
      client := Function.update machine.client thread pc }) :
    Resident owner { machine with
      engine := engine
      client := Function.update machine.client thread pc } := by
  have hevicts := hresident.settled thread
  have hcurrent := hresident.current thread
  have hblocks : ∀ other, other ≠ thread → ∀ slot,
      (machine.client other).held = some slot →
      engine.blocks slot = machine.engine.blocks slot := by
    intro other hother slot hheld
    apply hresident.owned.blocks_held_elsewhere hclient ?_ hother hheld
    intro lba buf hit hwrite
    rw [hwrite] at hcurrent
    exact hcurrent
  exact {
    keyed := hclient.selfKeyed hresident.keyed
    owned := howned
    current := by
      refine (Function.forall_update_iff _
        fun _ (pc : Pc setup) => pc.Current engine.table.slotOf).mpr
        ⟨hclient.current hresident.keyed hcurrent, fun other hother => ?_⟩
      apply (hresident.current other).congr (hresident.settled other)
      intro lba hlba
      exact hclient.slotOf_elsewhere hevicts (hresident.elsewhere hother hlba)
    confined := by
      refine (Function.forall_update_iff _
        fun thread (pc : Pc setup) => ∀ lba, pc.lba = some lba →
          owner lba = thread).mpr ⟨?_, fun other _ => hresident.confined other⟩
      exact fun lba hlba => hresident.confined thread lba (hclient.same_lba hlba)
    settled := by
      refine (Function.forall_update_iff _
        fun _ (pc : Pc setup) => pc.evicts = false).mpr
        ⟨?_, fun other _ => hresident.settled other⟩
      rcases hclient.evicts hevicts with hsettled | ⟨⟨miss, hmiss⟩, hempty⟩
      · exact hsettled
      · have hpos := Finset.card_pos.mpr ⟨_, hresident.free_of_miss hmiss⟩
        have hroom := hresident.room
        rw [hempty, List.length_nil] at hroom
        omega
    room := hresident.room_step hclient hio
    pairs := fun pair hmem =>
      hclient.slotOf_kept hevicts hcurrent (hresident.pairs pair hmem)
    loaded := by
      refine (Function.forall_update_iff _
        fun _ (pc : Pc setup) => pc.Loaded engine).mpr
        ⟨hclient.loaded, fun other hother => ?_⟩
      apply (hresident.loaded other).congr (hblocks other hother)
      intro lba _
      apply hclient.readLba_eq
      intro miss victim hflush
      rw [hflush] at hevicts
      cases hevicts
    filled := by
      refine (Function.forall_update_iff _
        fun _ (pc : Pc setup) => pc.Filled engine.blocks).mpr
        ⟨hclient.filled, fun other hother => ?_⟩
      exact (hresident.filled other).congr (hblocks other hother)
    refused := by
      refine (Function.forall_update_iff _
        fun _ (pc : Pc setup) => ∀ error, pc = .done (.failed error) →
          Refusal setup error).mpr ⟨?_, fun other _ => hresident.refused other⟩
      exact fun error hfailed =>
        absurd hfailed (hclient.not_failed hevicts hio error) }

theorem Resident.set_client (hresident : machine.Resident owner)
    (hfills : (machine.client thread).fills = none)
    (hcurrent : pc.Current machine.engine.table.slotOf)
    (hconfined : ∀ lba, pc.lba = some lba → owner lba = thread)
    (hsettled : pc.evicts = false) (hloaded : pc.Loaded machine.engine)
    (hfilled : pc.Filled machine.engine.blocks)
    (hrefused : ∀ error, pc = .done (.failed error) → Refusal setup error)
    (howned : Owned
      { machine with client := Function.update machine.client thread pc }) :
    Resident owner
      { machine with client := Function.update machine.client thread pc } where
  keyed := hresident.keyed
  owned := howned
  current := (Function.forall_update_iff _ fun _ (pc : Pc setup) =>
    pc.Current machine.engine.table.slotOf).mpr
    ⟨hcurrent, fun other _ => hresident.current other⟩
  confined := (Function.forall_update_iff _ fun thread (pc : Pc setup) =>
    ∀ lba, pc.lba = some lba → owner lba = thread).mpr
    ⟨hconfined, fun other _ => hresident.confined other⟩
  settled := (Function.forall_update_iff _ fun _ (pc : Pc setup) =>
    pc.evicts = false).mpr ⟨hsettled, fun other _ => hresident.settled other⟩
  room := by
    refine le_trans (Finset.card_le_card ?_) hresident.room
    intro lba hmem
    obtain ⟨hnone, hunfilled⟩ := mem_unseen.mp hmem
    refine mem_unseen.mpr ⟨hnone, fun other => ?_⟩
    by_cases heq : other = thread
    · rw [heq, hfills]
      simp
    · have hother := hunfilled other
      simp only [Function.update_of_ne heq] at hother
      exact hother
  pairs := hresident.pairs
  loaded := (Function.forall_update_iff _ fun _ (pc : Pc setup) =>
    pc.Loaded machine.engine).mpr ⟨hloaded, fun other _ => hresident.loaded other⟩
  filled := (Function.forall_update_iff _ fun _ (pc : Pc setup) =>
    pc.Filled machine.engine.blocks).mpr
    ⟨hfilled, fun other _ => hresident.filled other⟩
  refused := (Function.forall_update_iff _ fun _ (pc : Pc setup) =>
    ∀ error, pc = .done (.failed error) → Refusal setup error).mpr
    ⟨hrefused, fun other _ => hresident.refused other⟩

end Client

theorem Resident.flush_step (hresident : machine.Resident owner)
    {choice : Choice setup} {pc : FlusherPc setup} {engine : CacheEngine setup}
    (hflush : FlusherStep choice machine.engine machine.flusher pc engine)
    (howned : Owned
      { machine with
        engine := engine
        flusher := pc }) :
    Resident owner
      { machine with
        engine := engine
        flusher := pc } where
  keyed := hflush.selfKeyed hresident.keyed
  owned := howned
  current := by
    simp only [hflush.slotOf]
    exact hresident.current
  confined := hresident.confined
  settled := hresident.settled
  room := by
    simp only [unseen, hflush.slotOf, hflush.freeList_eq]
    exact hresident.room
  pairs := by
    intro pair hmem
    have hcurrent := hflush.pairs hresident.keyed hresident.pairs pair hmem
    unfold PairCurrent at hcurrent ⊢
    simp only [hflush.slotOf]
    exact hcurrent
  loaded := by
    intro thread
    apply (hresident.loaded thread).congr
    · intro slot _
      rw [hflush.blocks_eq]
    · intro lba hinserting
      apply hflush.readLba_absent hresident.pairs
      have hcurrent := hresident.current thread
      cases hpc : machine.client thread with
      | insertRead target slot =>
          rw [hpc] at hinserting hcurrent
          cases hinserting
          exact hcurrent
      | _ =>
          rw [hpc] at hinserting
          cases hinserting
  filled := by
    simp only [hflush.blocks_eq]
    exact hresident.filled
  refused := hresident.refused

theorem Resident.step (hresident : machine.Resident owner)
    (hkeeps : action.KeepsTo owner) (hio : action.clientFaultless = true)
    (hstep : machine.step action = some next) : next.Resident owner := by
  have howned := hresident.owned.step (hresident.evictsOwnSlot action) hstep
  cases step_cases hstep with
  | @invoke thread call hrunning hidle =>
      refine hresident.set_client ?_ (call.current_enter _) hkeeps
        call.evicts_enter (call.loaded_enter _) (call.filled_enter _) ?_ howned
      · rw [hidle]
        rfl
      · exact fun error henter => Call.refusal_of_enter henter
  | client hclient => exact hresident.client_step hclient hio howned
  | @respond thread outcome hdone =>
      refine hresident.set_client ?_ trivial ?_ rfl trivial trivial ?_ howned
      · rw [hdone]
        rfl
      · exact fun lba hlba => by cases hlba
      · exact fun error hfailed => by cases hfailed
  | flush hflush => exact hresident.flush_step hflush howned
  | owner howner =>
      refine ⟨hresident.keyed, howned, hresident.current, hresident.confined,
        hresident.settled, hresident.room, ?_, hresident.loaded, hresident.filled,
        hresident.refused⟩
      cases howner with
      | started hrunning hchannel => exact fun pair hmem => by cases hmem
      | joined hjoining hexited => exact fun pair hmem => by cases hmem
      | _ => exact hresident.pairs

/-! The clients' view. -/

structure Told (owner : Lba setup → Fin n) (initial : Lba setup → Block setup)
    (history : List (BlockEvent setup)) (machine : Machine setup n) : Prop where
  resident : machine.Resident owner
  content : ∀ lba, machine.engine.content lba =
    applyWrite (Register.replay initial history)
      (machine.client (owner lba)).committed lba
  returned : ∀ thread lba result,
    machine.client thread = .done (.readOk lba result) →
    result.data = machine.engine.content lba
  consistent : Register.Consistent initial history

end Machine

theorem applyWrite_congr {first second : Lba setup → Block setup}
    {lba : Lba setup} (heq : first lba = second lba)
    (write : Option (Lba setup × Block setup)) :
    applyWrite first write lba = applyWrite second write lba := by
  cases write with
  | none => exact heq
  | some pair =>
      simp only [applyWrite, Function.update_apply, heq]

namespace Machine

variable {owner : Lba setup → Fin n} {machine next : Machine setup n}
variable {action : Action setup n} {initial : Lba setup → Block setup}
variable {history : List (BlockEvent setup)}

theorem told_init (hfits : setup.maxLba ≤ setup.capacity)
    (owner : Lba setup → Fin n) (image : Image) :
    Told owner (readLba image) [] (init setup n image) where
  resident := resident_init hfits owner image
  content := fun lba => CacheEngine.content_of_absent (LbaTable.slotOf_new lba)
  returned := fun _ _ _ hdone => by cases hdone
  consistent := trivial

section Client

variable {thread : Fin n} {choice : Choice setup} {pc : Pc setup}
variable {engine : CacheEngine setup}

theorem Told.client_step (htold : Told owner initial history machine)
    (hclient : ClientStep choice machine.engine (machine.client thread) pc engine)
    (hio : choice.io.succeeds = true)
    (hresident : Resident owner { machine with
      engine := engine
      client := Function.update machine.client thread pc }) :
    Told owner initial history { machine with
      engine := engine
      client := Function.update machine.client thread pc } := by
  have hbefore := htold.resident
  have hcontent : engine.content =
      applyWrite machine.engine.content (machine.client thread).commits :=
    hclient.content_confined hbefore.owned rfl (hbefore.settled thread) hio
      (hbefore.current thread) (hbefore.filled thread) (hbefore.loaded thread)
  have hother : ∀ lba, owner lba ≠ thread →
      engine.content lba = machine.engine.content lba := by
    intro lba hne
    rw [hcontent]
    cases hcommits : (machine.client thread).commits with
    | none => rfl
    | some write =>
        obtain ⟨target, buf⟩ := write
        have howner := hbefore.confined thread target (Pc.lba_of_commits hcommits)
        refine Function.update_of_ne ?_ _ _
        intro heq
        exact hne (heq ▸ howner)
  refine ⟨hresident, ?_, ?_, htold.consistent⟩
  · intro lba
    by_cases heq : owner lba = thread
    · simp only [heq, Function.update_self, hclient.applyWrite_committed, hcontent]
      apply applyWrite_congr
      rw [htold.content lba, heq]
    · simp only [Function.update_of_ne heq]
      rw [hother lba heq]
      exact htold.content lba
  · refine (Function.forall_update_iff _ fun _ (pc : Pc setup) =>
      ∀ lba result, pc = .done (.readOk lba result) →
        result.data = engine.content lba).mpr ⟨?_, ?_⟩
    · exact fun lba result hread =>
        hclient.readReturned (hbefore.current thread) hread
    · intro other hne lba result hread
      have howner : owner lba = other :=
        hbefore.confined other lba (by rw [hread]; rfl)
      rw [hother lba (howner ▸ hne)]
      exact htold.returned other lba result hread

theorem Told.respond (htold : Told owner initial history machine)
    {outcome : Outcome setup} (hdone : machine.client thread = .done outcome)
    (hresident : Resident owner
      { machine with client := Function.update machine.client thread .idle }) :
    Told owner initial (history ++ outcome.events)
      { machine with client := Function.update machine.client thread .idle } := by
  have hcommitted : ∀ lba, owner lba = thread → machine.engine.content lba =
      applyWrite (Register.replay initial history) (Pc.done outcome).committed
        lba := by
    intro lba howner
    rw [htold.content lba, howner, hdone]
  have hreplay : ∀ lba, Register.replay initial (history ++ outcome.events) lba =
      applyWrite (Register.replay initial history) (Pc.done outcome).committed
        lba := by
    intro lba
    rw [Register.replay_append]
    cases outcome <;> rfl
  have hothers : ∀ lba, owner lba ≠ thread →
      Register.replay initial (history ++ outcome.events) lba =
        Register.replay initial history lba := by
    intro lba hne
    rw [hreplay]
    cases outcome with
    | writeOk target buf result =>
        have howner := htold.resident.confined thread target (by rw [hdone]; rfl)
        refine Function.update_of_ne ?_ _ _
        intro heq
        exact hne (heq ▸ howner)
    | _ => rfl
  refine ⟨hresident, ?_, ?_, ?_⟩
  · intro lba
    by_cases heq : owner lba = thread
    · simp only [heq, Function.update_self]
      rw [hcommitted lba heq, ← hreplay lba]
      rfl
    · simp only [Function.update_of_ne heq]
      rw [htold.content lba]
      exact (applyWrite_congr (hothers lba heq) _).symm
  · refine (Function.forall_update_iff _ fun _ (pc : Pc setup) =>
      ∀ lba result, pc = .done (.readOk lba result) →
        result.data = machine.engine.content lba).mpr
      ⟨?_, fun other _ => htold.returned other⟩
    exact fun lba result hread => by cases hread
  · rw [Register.consistent_append]
    refine ⟨htold.consistent, ?_⟩
    cases outcome with
    | readOk lba result =>
        have howner := htold.resident.confined thread lba (by rw [hdone]; rfl)
        refine ⟨?_, trivial⟩
        rw [htold.returned thread lba result hdone, hcommitted lba howner]
        rfl
    | writeOk lba buf result => trivial
    | failed error => trivial

end Client

theorem Told.step (htold : Told owner initial history machine)
    (hkeeps : action.KeepsTo owner) (hio : action.clientFaultless = true)
    (hstep : machine.step action = some next) :
    Told owner initial (history ++ machine.emitted action) next := by
  have hresident := htold.resident.step hkeeps hio hstep
  cases step_cases hstep with
  | @invoke thread call hrunning hidle =>
      simp only [emitted, List.append_nil]
      refine ⟨hresident, ?_, ?_, htold.consistent⟩
      · intro lba
        rw [htold.content lba]
        by_cases heq : owner lba = thread
        · simp only [heq, Function.update_self, hidle, call.committed_enter]
          rfl
        · simp only [Function.update_of_ne heq]
      · refine (Function.forall_update_iff _ fun _ (pc : Pc setup) =>
          ∀ lba result, pc = .done (.readOk lba result) →
            result.data = machine.engine.content lba).mpr
          ⟨?_, fun other _ => htold.returned other⟩
        intro lba result
        refine call.enter_induction ?_ ?_ ?_
        · exact fun error hread => by cases hread
        · exact fun target hread => by cases hread
        · exact fun target buf hread => by cases hread
  | client hclient =>
      simp only [emitted, List.append_nil]
      exact htold.client_step hclient hio hresident
  | respond hdone =>
      simp only [emitted, hdone]
      exact htold.respond hdone hresident
  | flush hflush =>
      have hcontent := hflush.content_cached htold.resident.pairs
      simp only [emitted, List.append_nil]
      refine ⟨hresident, ?_, ?_, htold.consistent⟩
      · simp only [hcontent]
        exact htold.content
      · simp only [hcontent]
        exact htold.returned
  | owner howner =>
      have hsilent : machine.emitted action = [] := by cases howner <;> rfl
      rw [hsilent, List.append_nil]
      exact ⟨hresident, htold.content, htold.returned, htold.consistent⟩

/-- Any number of clients, each on LBAs of its own, beside the flush thread,
under any interleaving and any failures of the flush thread's write-backs: when
the pool has a block for every LBA, the clients see a plain map, no call fails
that its own checks let pass, and a write-back never carries another LBA's
data. -/
theorem resident_transparent {image : Image} {run : List (Action setup n)}
    (hfits : setup.maxLba ≤ setup.capacity)
    (hkeeps : ∀ action ∈ run, action.KeepsTo owner)
    (hio : ∀ action ∈ run, action.clientFaultless = true)
    (hrun : Run.exec step (init setup n image) run = some machine) :
    Register.Consistent (readLba image)
        (Run.trace step emitted (init setup n image) run) ∧
      (machine.Quiet → ∀ lba, machine.engine.content lba =
        (Register.lastWrite lba
          (Run.trace step emitted (init setup n image) run)).getD
          (readLba image lba)) ∧
      (∀ thread error, machine.client thread = .done (.failed error) →
        Refusal setup error) ∧
      ∀ pair ∈ machine.flusher.accesses, PairCurrent machine.engine pair := by
  have hguard : Run.Along step (fun _ action =>
      action.KeepsTo owner ∧ action.clientFaultless = true)
      (init setup n image) run :=
    Run.along_of_forall fun action hmem => ⟨hkeeps action hmem, hio action hmem⟩
  have htold : Told owner (readLba image)
      (Run.trace step emitted (init setup n image) run) machine :=
    Run.invariant_trace (told_init hfits owner image)
      (fun _ _ _ _ htold hallowed hstep =>
        htold.step hallowed.1 hallowed.2 hstep) hguard hrun
  refine ⟨htold.consistent, ?_, htold.resident.refused, ?_⟩
  · intro hquiet lba
    rw [htold.content lba, Pc.isIdle_iff.mp (hquiet (owner lba)),
      ← Register.replay_eq_lastWrite]
    rfl
  · intro pair haccess
    apply htold.resident.pairs
    cases hflusher : machine.flusher with
    | writing signal lba slot rest flushed =>
        rw [hflusher] at haccess
        cases haccess
        exact List.mem_cons_self
    | _ =>
        rw [hflusher] at haccess
        cases haccess

def firstBlockApart (lba : Lba (.mini 3)) : Fin 2 :=
  if lba.val = 0 then clientA else clientB

/-- A write and a read overlap, and the write-back of the written block leaves
the device torn before the block is read again. -/
def tornBesideRead : List (Action (.mini 3) 2) :=
  List.flatten [
    [.start, .invoke clientA (.write 0 fun _ => 5), .invoke clientB (.read 1)],
    advance clientA 3 1, advance clientB 4 2, advance clientA 2 3,
    [.flush (.calm 4), .flush (.calm 4),
      .flush { Choice.calm 4 with
        io := .fail ⟨.other, "Input/output error (os error 5)"⟩ fun _ => 9 },
      .respond clientA], advance clientB 1 5,
    [.respond clientB, .invoke clientA (.read 0)], advance clientA 2 6,
    [.respond clientA]]

theorem tornBesideRead_transparent :
    ∃ machine, Run.exec step (init (.mini 3) 2 stripes) tornBesideRead =
        some machine ∧
      readLba machine.engine.device (0 : Lba (.mini 3)) 0 = 9 ∧
      machine.engine.content (0 : Lba (.mini 3)) = fun _ => 5 := by
  have hfinal : (Run.exec step (init (.mini 3) 2 stripes) tornBesideRead).map
      (fun machine => (decide machine.Quiet,
        readLba machine.engine.device (0 : Lba (.mini 3)) 0)) =
      some (true, 9) := by
    decide +kernel
  obtain ⟨machine, hrun, hpair⟩ := Option.map_eq_some_iff.mp hfinal
  obtain ⟨hquiet, htorn⟩ := Prod.mk.inj hpair
  have hkeeps : ∀ action ∈ tornBesideRead, action.KeepsTo firstBlockApart := by
    decide +kernel
  have hio : ∀ action ∈ tornBesideRead, action.clientFaultless = true := by
    decide +kernel
  exact ⟨machine, hrun, htorn, (resident_transparent le_rfl hkeeps hio hrun).2.1
    (of_decide_eq_true hquiet) 0⟩

end Machine

end AsmCacheInject.Concurrent

import AsmCacheInject.Concurrent.Alone

namespace AsmCacheInject.Concurrent

open AsmCacheInject.Cache
open AsmCacheInject.Data
open AsmCacheInject.Engine
open AsmCacheInject.Flush

variable {setup : Setup} {n : Nat}

/-! Pool and device.  A clear dirty flag promises that the pool block is on the
device.  Clients and the flush thread set, clear and rely on the flag in
separate steps, so the promise holds as long as they keep out of each other's
way. -/

/-- Whatever is cached for `lba` is on the device. -/
def BlockSaved (engine : CacheEngine setup) (lba : Lba setup) : Prop :=
  ∀ slot, engine.table.slotOf lba = some slot →
    engine.blocks slot = readLba engine.device lba

namespace BlockSaved

variable {engine : CacheEngine setup} {lba : Lba setup}

theorem same_slots {table : LbaTable (Lba setup)} (hsaved : BlockSaved engine lba)
    (hslots : table.slotOf = engine.table.slotOf) :
    BlockSaved { engine with table := table } lba := by
  intro slot hslot
  simp only [hslots] at hslot
  exact hsaved slot hslot

theorem fill_elsewhere (hsaved : BlockSaved engine lba) {slot : Nat}
    (helsewhere : engine.table.slotOf lba ≠ some slot) (block : Block setup) :
    BlockSaved (engine.fill slot block) lba := by
  intro mapped hmapped
  have hne : mapped ≠ slot := fun heq => helsewhere (heq ▸ hmapped)
  rw [CacheEngine.fill_blocks_of_ne hne]
  exact hsaved mapped hmapped

theorem write_device (hsaved : BlockSaved engine lba) {target : Lba setup}
    {slot : Nat}
    (hcurrent : ∀ mapped, engine.table.slotOf target = some mapped → mapped = slot) :
    BlockSaved
      { engine with
        device := writeLba engine.device target (engine.blocks slot) } lba := by
  intro mapped hmapped
  simp only [readLba_writeLba]
  split
  · next heq =>
    subst heq
    rw [hcurrent mapped hmapped]
  · exact hsaved mapped hmapped

theorem remove (hsaved : BlockSaved engine lba) (target : Lba setup) :
    BlockSaved { engine with table := (engine.table.remove target).2 } lba := by
  intro slot hslot
  simp only [LbaTable.slotOf_remove] at hslot
  split at hslot
  · cases hslot
  · exact hsaved slot hslot

theorem insert {target : Lba setup} {entry : CacheEntry (Lba setup)}
    (hentry : lba = target →
      engine.blocks entry.poolIndex = readLba engine.device lba)
    (hsaved : lba ≠ target → BlockSaved engine lba) :
    BlockSaved { engine with table := (engine.table.insert target entry).2 } lba := by
  intro slot hslot
  simp only [LbaTable.slotOf_insert] at hslot
  split at hslot
  · next heq =>
    cases hslot
    exact hentry heq
  · next hne => exact hsaved hne slot hslot

end BlockSaved

/-! Where a thread stands with respect to an LBA. -/

/-- The write that the next step makes visible. -/
def Pc.commits : Pc setup → Option (Lba setup × Block setup)
  | .writeHit lba buf _ => some (lba, buf)
  | .insertWrite lba buf _ => some (lba, buf)
  | _ => none

/-- Written in place, with the dirty flag still to be set. -/
def Pc.marking : Pc setup → Option (Lba setup)
  | .markDirty lba _ => some lba
  | _ => none

/-- Fetched, and still to be inserted. -/
def Pc.inserting : Pc setup → Option (Lba setup)
  | .insertRead lba _ => some lba
  | _ => none

/-- Clean when it was selected or written back since, and still to be removed. -/
def Pc.discarding : Pc setup → Option (Lba setup)
  | .wakeForVictim _ victim => some victim.lba
  | .removeVictim _ victim => some victim.lba
  | _ => none

/-- Written back, with the dirty flag still to be cleared. -/
def FlusherPc.clearing : FlusherPc setup → Option (Lba setup)
  | .cleaning _ lba _ _ => some lba
  | _ => none

def Pc.Loaded (engine : CacheEngine setup) : Pc setup → Prop
  | .insertRead lba slot => engine.blocks slot = readLba engine.device lba
  | _ => True

theorem Miss.loaded_filling (miss : Miss setup) (slot : Nat)
    (engine : CacheEngine setup) : (miss.filling slot).Loaded engine := by
  cases miss <;> trivial

theorem Miss.discarding_filling (miss : Miss setup) (slot : Nat) :
    (miss.filling slot).discarding = none := by
  cases miss <;> rfl

theorem Call.loaded_enter (call : Call setup) (engine : CacheEngine setup) :
    call.enter.Loaded engine :=
  call.enter_induction (fun _ => trivial) (fun _ => trivial) fun _ _ => trivial

theorem Call.discarding_enter (call : Call setup) : call.enter.discarding = none :=
  call.enter_induction (fun _ => rfl) (fun _ => rfl) fun _ _ => rfl

theorem Pc.Loaded.congr {engine other : CacheEngine setup} {pc : Pc setup}
    (hloaded : pc.Loaded engine)
    (hheld : ∀ slot, pc.held = some slot → other.blocks slot = engine.blocks slot)
    (hdevice : ∀ lba, pc.inserting = some lba →
      readLba other.device lba = readLba engine.device lba) : pc.Loaded other := by
  cases pc with
  | insertRead lba slot =>
      simp only [Pc.Loaded, hheld slot rfl, hdevice lba rfl]
      exact hloaded
  | _ => trivial

/-! Keeping out of each other's way. -/

/-- Remembered pairs are current where the step relies on them.  A clean victim
is not being written, a victim's write-back does not overtake a fetch of the
same block, a fetched block is not inserted over an entry, a block is not
written while a client discards it, and a flag is not set while the flush
thread is about to clear it. -/
def Pc.Orderly (choice : Choice setup) (machine : Machine setup n) :
    Pc setup → Prop
  | .select _ =>
      ∀ victim ∈ selectEvictionCandidate choice.order machine.engine.table,
        victim.needsFlush = false →
        ∀ other, (machine.client other).marking ≠ some victim.lba
  | .flushVictim _ victim =>
      PairCurrent machine.engine (victim.lba, victim.poolIndex) ∧
        ∀ other, (machine.client other).inserting ≠ some victim.lba
  | .removeVictim _ victim =>
      PairCurrent machine.engine (victim.lba, victim.poolIndex)
  | .insertRead lba _ => machine.engine.table.slotOf lba = none
  | .writeHit lba _ slot =>
      PairCurrent machine.engine (lba, slot) ∧
        ∀ other, (machine.client other).discarding ≠ some lba
  | .markDirty lba _ => machine.flusher.clearing ≠ some lba
  | .insertWrite lba _ _ =>
      (∀ other, (machine.client other).discarding ≠ some lba) ∧
        machine.flusher.clearing ≠ some lba
  | _ => True

/-- A write-back uses the slot of the entry, if there is one, and does not
overtake a fetch of the same block. -/
def FlusherPc.Orderly (machine : Machine setup n) : FlusherPc setup → Prop
  | .writing _ lba slot _ _ =>
      (∀ mapped ∈ machine.engine.table.slotOf lba, mapped = slot) ∧
        ∀ thread, (machine.client thread).inserting ≠ some lba
  | _ => True

instance (choice : Choice setup) (machine : Machine setup n) :
    (pc : Pc setup) → Decidable (pc.Orderly choice machine)
  | .select _ =>
      inferInstanceAs (Decidable (∀ victim ∈ selectEvictionCandidate _ _, _))
  | .flushVictim _ _ => inferInstanceAs (Decidable (_ ∧ ∀ _, _))
  | .removeVictim _ _ => inferInstanceAs (Decidable (PairCurrent _ _))
  | .insertRead _ _ => inferInstanceAs (Decidable (_ = none))
  | .writeHit _ _ _ => inferInstanceAs (Decidable (_ ∧ ∀ _, _))
  | .markDirty _ _ => inferInstanceAs (Decidable (_ ≠ _))
  | .insertWrite _ _ _ => inferInstanceAs (Decidable ((∀ _, _) ∧ _))
  | .idle | .readLookup _ | .readHit _ _ | .allocate _ | .wakeForVictim _ _
  | .freeVictim _ _ | .reallocate _ | .fetch _ _ | .copyRead _ _
  | .writeLookup _ _ | .fill _ _ _ | .stats _ _ _ | .wakeForWrite _ _ _
  | .done _ => isTrue trivial

instance (machine : Machine setup n) : (pc : FlusherPc setup) →
    Decidable (pc.Orderly machine)
  | .writing _ _ _ _ _ => inferInstanceAs (Decidable ((∀ _ ∈ _, _) ∧ ∀ _, _))
  | .off | .waiting | .snapshot _ | .cleaning _ _ _ _ | .syncing _ | .checking _
  | .exited => isTrue trivial

section Step

variable {choice : Choice setup} {machine : Machine setup n}
variable {pc next : Pc setup} {nextEngine : CacheEngine setup} {lba : Lba setup}

theorem ClientStep.blockSaved {thread : Fin n}
    (hstep : ClientStep choice machine.engine pc next nextEngine)
    (howned : machine.Owned) (hheld : machine.held thread = pc.held)
    (horderly : pc.Orderly choice machine) (hio : choice.io.succeeds = true)
    (hloaded : pc.Loaded machine.engine)
    (hcommits : ∀ buf, pc.commits ≠ some (lba, buf))
    (hsaved : BlockSaved machine.engine lba) : BlockSaved nextEngine lba := by
  have hunmapped : ∀ slot, pc.held = some slot →
      machine.engine.table.slotOf lba ≠ some slot :=
    fun slot hslot => howned.held_unmapped thread slot (hheld.trans hslot) lba
  cases hstep with
  | lookupHit hslot => exact hsaved.same_slots (LbaTable.slotOf_getAndTouch _ _ _)
  | @victimWritten miss victim hok =>
      have hcurrent : machine.engine.table.slotOf victim.lba =
        some victim.poolIndex := horderly.1
      apply hsaved.write_device
      intro mapped hmapped
      exact Option.some.inj (hmapped.symm.trans hcurrent)
  | victimTorn hfail => exact absurd hfail (IoOutcome.ne_fail hio _ _)
  | removeVictim => exact hsaved.remove _
  | @fetched target slot hok => exact hsaved.fill_elsewhere (hunmapped slot rfl) _
  | fetchTorn hfail => exact absurd hfail (IoOutcome.ne_fail hio _ _)
  | @insertRead target slot =>
      refine BlockSaved.insert ?_ fun _ => hsaved
      intro heq
      subst heq
      exact hloaded
  | @writeHit target buf slot =>
      apply hsaved.fill_elsewhere
      intro hslot
      have heq := howned.mapped_unique lba target slot hslot horderly.1
      exact hcommits buf (heq ▸ rfl)
  | markDirty => exact hsaved.same_slots (LbaTable.slotOf_markDirty _ _ _)
  | @fill target buf slot => exact hsaved.fill_elsewhere (hunmapped slot rfl) _
  | @insertWrite target buf slot =>
      refine BlockSaved.insert ?_ fun _ => hsaved
      intro heq
      subst heq
      exact absurd rfl (hcommits buf)
  | _ => exact hsaved

theorem ClientStep.loaded
    (hstep : ClientStep choice machine.engine pc next nextEngine) :
    next.Loaded nextEngine := by
  cases hstep with
  | takeFree hfree => exact Miss.loaded_filling _ _ _
  | retake hfree => exact Miss.loaded_filling _ _ _
  | fetched hok => exact CacheEngine.fill_blocks_self _ _ _
  | _ => trivial

theorem ClientStep.readLba_eq
    (hstep : ClientStep choice machine.engine pc next nextEngine)
    (hvictim : ∀ miss victim, pc = .flushVictim miss victim → victim.lba ≠ lba) :
    readLba nextEngine.device lba = readLba machine.engine.device lba := by
  cases hstep with
  | victimWritten hok =>
      rw [readLba_writeLba, if_neg (hvictim _ _ rfl).symm]
  | victimTorn hfail =>
      rw [readLba_writeLba, if_neg (hvictim _ _ rfl).symm]
  | _ => rfl

theorem ClientStep.clean_cases
    (hstep : ClientStep choice machine.engine pc next nextEngine)
    (hclean : nextEngine.table.dirtyOf lba = some false) :
    (∃ slot, pc = .insertRead lba slot) ∨
      (machine.engine.table.dirtyOf lba = some false ∧
        pc.marking ≠ some lba ∧
        ∀ buf, pc.commits = some (lba, buf) → next.marking = some lba) := by
  cases hstep with
  | lookupHit hslot =>
      simp only [LbaTable.dirtyOf_getAndTouch] at hclean
      exact .inr ⟨hclean, by simp [Pc.marking], by simp [Pc.commits]⟩
  | removeVictim =>
      simp only [LbaTable.dirtyOf_remove] at hclean
      split at hclean
      · cases hclean
      · exact .inr ⟨hclean, by simp [Pc.marking], by simp [Pc.commits]⟩
  | @insertRead target slot =>
      simp only [LbaTable.dirtyOf_insert] at hclean
      split at hclean
      · next heq => exact .inl ⟨slot, heq ▸ rfl⟩
      · exact .inr ⟨hclean, by simp [Pc.marking], by simp [Pc.commits]⟩
  | writeHit =>
      refine .inr ⟨hclean, by simp [Pc.marking], ?_⟩
      intro buf hcommits
      cases hcommits
      rfl
  | @markDirty target buf =>
      simp only [LbaTable.dirtyOf_markDirty] at hclean
      split at hclean
      · obtain ⟨_, _, htrue⟩ := Option.map_eq_some_iff.mp hclean
        cases htrue
      · next hne =>
        refine .inr ⟨hclean, ?_, by simp [Pc.commits]⟩
        intro hmarking
        exact hne (Option.some.inj hmarking).symm
  | @insertWrite target buf slot =>
      simp only [LbaTable.dirtyOf_insert] at hclean
      split at hclean
      · cases hclean
      · next hne =>
        refine .inr ⟨hclean, by simp [Pc.marking], ?_⟩
        intro other hcommits
        cases hcommits
        exact absurd rfl hne
  | _ => exact .inr ⟨hclean, by simp [Pc.marking], by simp [Pc.commits]⟩

theorem ClientStep.discarding
    (hstep : ClientStep choice machine.engine pc next nextEngine)
    (hkeyed : machine.engine.table.SelfKeyed)
    (horderly : pc.Orderly choice machine)
    (hclean : ∀ lba, machine.engine.table.dirtyOf lba = some false →
      BlockSaved machine.engine lba ∨
        ∃ other, (machine.client other).marking = some lba)
    (hvictim : ∀ lba, pc.discarding = some lba → BlockSaved machine.engine lba)
    (hdiscards : next.discarding = some lba) : BlockSaved nextEngine lba := by
  cases hstep with
  | takeFree hfree =>
      rw [Miss.discarding_filling] at hdiscards
      cases hdiscards
  | retake hfree =>
      rw [Miss.discarding_filling] at hdiscards
      cases hdiscards
  | @chooseClean miss victim hselect hflush =>
      cases hdiscards
      have hflag := (selectEvictionCandidate_spec hkeyed hselect).2
      rw [hflush] at hflag
      rcases hclean victim.lba hflag with hsaved | ⟨other, hmarking⟩
      · exact hsaved
      · exact absurd hmarking (horderly victim hselect hflush other)
  | @victimWritten miss victim hok =>
      cases hdiscards
      intro slot hslot
      have hcurrent : machine.engine.table.slotOf victim.lba =
        some victim.poolIndex := horderly.1
      cases hslot.symm.trans hcurrent
      simp only [readLba_writeLba, if_true]
  | wakeForVictim => exact hvictim lba hdiscards
  | _ => cases hdiscards

/-! What an orderly client stays away from. -/

theorem Pc.Orderly.commits_ne (horderly : pc.Orderly choice machine)
    {other : Fin n} (hdiscards : (machine.client other).discarding = some lba)
    (buf : Block setup) : pc.commits ≠ some (lba, buf) := by
  intro hcommits
  cases pc with
  | writeHit target data slot =>
      cases hcommits
      exact horderly.2 other hdiscards
  | insertWrite target data slot =>
      cases hcommits
      exact horderly.1 other hdiscards
  | _ => cases hcommits

theorem Pc.Orderly.marking_ne (horderly : pc.Orderly choice machine)
    (hclears : machine.flusher.clearing = some lba) : pc.marking ≠ some lba := by
  intro hmarking
  cases pc with
  | markDirty target buf =>
      cases hmarking
      exact horderly hclears
  | _ => cases hmarking

theorem ClientStep.marking_of_commits
    (hstep : ClientStep choice machine.engine pc next nextEngine)
    (horderly : pc.Orderly choice machine)
    (hclears : machine.flusher.clearing = some lba) {buf : Block setup}
    (hcommits : pc.commits = some (lba, buf)) : next.marking = some lba := by
  cases hstep with
  | writeHit =>
      cases hcommits
      rfl
  | insertWrite =>
      cases hcommits
      exact absurd hclears horderly.2
  | _ => cases hcommits

end Step

section Flush

variable {choice : Choice setup} {machine : Machine setup n}
variable {pc next : FlusherPc setup} {nextEngine : CacheEngine setup}
variable {lba : Lba setup}

theorem FlusherStep.blockSaved
    (hstep : FlusherStep choice machine.engine pc next nextEngine)
    (horderly : pc.Orderly machine) (hio : choice.io.succeeds = true)
    (hsaved : BlockSaved machine.engine lba) : BlockSaved nextEngine lba := by
  cases hstep with
  | written hok => exact hsaved.write_device horderly.1
  | torn hfail => exact absurd hfail (IoOutcome.ne_fail hio _ _)
  | cleaned => exact hsaved.same_slots (LbaTable.slotOf_markClean _ _)
  | _ => exact hsaved

theorem FlusherStep.clean_cases
    (hstep : FlusherStep choice machine.engine pc next nextEngine)
    (hclean : nextEngine.table.dirtyOf lba = some false) :
    pc.clearing = some lba ∨ machine.engine.table.dirtyOf lba = some false := by
  cases hstep with
  | cleaned =>
      simp only [LbaTable.dirtyOf_markClean] at hclean
      split at hclean
      · next heq => exact .inl (heq ▸ rfl)
      · exact .inr hclean
  | _ => exact .inr hclean

theorem FlusherPc.clearing_resume (signal : Option FlushSignal)
    (rest : List (Lba setup × Nat)) (flushed : Nat) :
    (FlusherPc.resume signal rest flushed).clearing = none := by
  cases rest with
  | nil =>
      simp only [FlusherPc.resume]
      split <;> rfl
  | cons pair rest => rfl

theorem FlusherStep.clearing
    (hstep : FlusherStep choice machine.engine pc next nextEngine)
    (horderly : pc.Orderly machine) (hclears : next.clearing = some lba) :
    BlockSaved nextEngine lba := by
  cases hstep with
  | @written signal target slot rest flushed hok =>
      cases hclears
      intro mapped hmapped
      have hslot : mapped = slot := horderly.1 mapped hmapped
      simp only [readLba_writeLba, if_true, hslot]
  | snapshot =>
      rw [FlusherPc.clearing_resume] at hclears
      cases hclears
  | torn hfail =>
      rw [FlusherPc.clearing_resume] at hclears
      cases hclears
  | cleaned =>
      rw [FlusherPc.clearing_resume] at hclears
      cases hclears
  | _ => cases hclears

theorem FlusherStep.readLba_eq {thread : Fin n}
    (hstep : FlusherStep choice machine.engine pc next nextEngine)
    (horderly : pc.Orderly machine)
    (hinserting : (machine.client thread).inserting = some lba) :
    readLba nextEngine.device lba = readLba machine.engine.device lba := by
  have hother : ∀ signal target slot rest flushed,
      pc = .writing signal target slot rest flushed → lba ≠ target := by
    rintro signal target slot rest flushed rfl rfl
    exact horderly.2 thread hinserting
  cases hstep with
  | written hok => rw [readLba_writeLba, if_neg (hother _ _ _ _ _ rfl)]
  | torn hfail => rw [readLba_writeLba, if_neg (hother _ _ _ _ _ rfl)]
  | _ => rfl

end Flush

namespace Machine

def Orderly (machine : Machine setup n) : Action setup n → Prop
  | .client thread choice => (machine.client thread).Orderly choice machine
  | .flush _ => machine.flusher.Orderly machine
  | _ => True

instance (machine : Machine setup n) : (action : Action setup n) →
    Decidable (machine.Orderly action)
  | .client _ _ => inferInstanceAs (Decidable (Pc.Orderly _ _ _))
  | .flush _ => inferInstanceAs (Decidable (FlusherPc.Orderly _ _))
  | .invoke _ _ | .respond _ | .start | .stop => isTrue trivial

/-- Some client has written `lba` in place and not set its flag yet. -/
def Marked (machine : Machine setup n) (lba : Lba setup) : Prop :=
  ∃ thread, (machine.client thread).marking = some lba

structure Coherent (machine : Machine setup n) : Prop where
  keyed : machine.engine.table.SelfKeyed
  owned : machine.Owned
  clean : ∀ lba, machine.engine.table.dirtyOf lba = some false →
    BlockSaved machine.engine lba ∨ machine.Marked lba
  loaded : ∀ thread, (machine.client thread).Loaded machine.engine
  discarding : ∀ thread lba, (machine.client thread).discarding = some lba →
    BlockSaved machine.engine lba
  clearing : ∀ lba, machine.flusher.clearing = some lba →
    BlockSaved machine.engine lba ∨ machine.Marked lba

variable {machine next : Machine setup n} {action : Action setup n}

theorem coherent_init (setup : Setup) (n : Nat) (image : Image) :
    (init setup n image).Coherent where
  keyed := LbaTable.selfKeyed_new
  owned := owned_init setup n image
  clean := fun lba hclean => by simp [init, CacheEngine.boot] at hclean
  loaded := fun _ => trivial
  discarding := fun thread lba hdiscards => by cases hdiscards
  clearing := fun lba hclears => by cases hclears

theorem Orderly.evictsOwnSlot (horderly : machine.Orderly action) :
    machine.EvictsOwnSlot action := by
  cases action with
  | client thread choice =>
      intro pair hremoves
      cases hpc : machine.client thread with
      | removeVictim miss victim =>
          simp only [Orderly, hpc] at horderly
          rw [hpc] at hremoves
          cases hremoves
          exact horderly
      | _ =>
          rw [hpc] at hremoves
          cases hremoves
  | _ => trivial

section Client

variable {thread : Fin n} {choice : Choice setup} {pc : Pc setup}
variable {engine : CacheEngine setup} {lba : Lba setup}

/-- A block stays on the device until a client writes it in place, and then
that client has its flag to set. -/
theorem Coherent.saved_or_marked (hcoherent : machine.Coherent)
    (horderly : (machine.client thread).Orderly choice machine)
    (hio : choice.io.succeeds = true)
    (hclient : ClientStep choice machine.engine (machine.client thread) pc engine)
    (hcommits : ∀ buf, (machine.client thread).commits = some (lba, buf) →
      pc.marking = some lba)
    (hmarking : (machine.client thread).marking ≠ some lba)
    (hbefore : BlockSaved machine.engine lba ∨ machine.Marked lba) :
    BlockSaved engine lba ∨
      ∃ other, (Function.update machine.client thread pc other).marking =
        some lba := by
  rcases hbefore with hsaved | ⟨other, hother⟩
  · by_cases hmarks : pc.marking = some lba
    · right
      refine ⟨thread, ?_⟩
      rw [Function.update_self]
      exact hmarks
    · left
      apply hclient.blockSaved hcoherent.owned rfl horderly hio
        (hcoherent.loaded thread) ?_ hsaved
      exact fun buf hbuf => hmarks (hcommits buf hbuf)
  · right
    have hne : other ≠ thread := fun heq => hmarking (heq ▸ hother)
    refine ⟨other, ?_⟩
    rw [Function.update_of_ne hne]
    exact hother

theorem Coherent.client_step (hcoherent : machine.Coherent)
    (horderly : (machine.client thread).Orderly choice machine)
    (hio : choice.io.succeeds = true)
    (hclient : ClientStep choice machine.engine (machine.client thread) pc engine)
    (howned : Owned
      { machine with
        engine := engine
        client := Function.update machine.client thread pc }) :
    Coherent
      { machine with
        engine := engine
        client := Function.update machine.client thread pc } where
  keyed := hclient.selfKeyed hcoherent.keyed
  owned := howned
  clean := by
    intro lba hclean
    rcases hclient.clean_cases hclean with ⟨slot, hpc⟩ | ⟨hbefore, hmarking, hcommits⟩
    · left
      have habsent := horderly
      rw [hpc] at habsent
      apply hclient.blockSaved hcoherent.owned rfl horderly hio
        (hcoherent.loaded thread)
      · intro buf hcommits
        rw [hpc] at hcommits
        cases hcommits
      · intro mapped hmapped
        cases hmapped.symm.trans habsent
    · exact hcoherent.saved_or_marked horderly hio hclient hcommits hmarking
        (hcoherent.clean lba hbefore)
  loaded := by
    refine (Function.forall_update_iff _
      fun _ (pc : Pc setup) => pc.Loaded engine).mpr ⟨hclient.loaded, ?_⟩
    intro other hother
    apply (hcoherent.loaded other).congr
    · intro slot hheld
      apply hcoherent.owned.blocks_held_elsewhere hclient ?_ hother hheld
      intro lba buf hit hwrite
      rw [hwrite] at horderly
      exact horderly.1
    · intro lba hinserting
      apply hclient.readLba_eq
      rintro miss victim hflush rfl
      rw [hflush] at horderly
      exact horderly.2 other hinserting
  discarding := by
    refine (Function.forall_update_iff _ fun _ (pc : Pc setup) =>
      ∀ lba, pc.discarding = some lba → BlockSaved engine lba).mpr ⟨?_, ?_⟩
    · intro lba hdiscards
      exact hclient.discarding hcoherent.keyed horderly hcoherent.clean
        (hcoherent.discarding thread) hdiscards
    · intro other _ lba hdiscards
      exact hclient.blockSaved hcoherent.owned rfl horderly hio
        (hcoherent.loaded thread) (horderly.commits_ne hdiscards)
        (hcoherent.discarding other lba hdiscards)
  clearing := by
    intro lba hclears
    exact hcoherent.saved_or_marked horderly hio hclient
      (fun _ hcommits => hclient.marking_of_commits horderly hclears hcommits)
      (horderly.marking_ne hclears) (hcoherent.clearing lba hclears)

theorem Coherent.set_client (hcoherent : machine.Coherent)
    (hmarking : (machine.client thread).marking = none)
    (hloaded : pc.Loaded machine.engine) (hdiscards : pc.discarding = none)
    (howned : Owned
      { machine with client := Function.update machine.client thread pc }) :
    Coherent
      { machine with client := Function.update machine.client thread pc } := by
  have hmarked : ∀ lba, machine.Marked lba →
      ∃ other, (Function.update machine.client thread pc other).marking =
        some lba := by
    rintro lba ⟨other, hother⟩
    have hne : other ≠ thread := by
      intro heq
      subst heq
      cases hmarking.symm.trans hother
    refine ⟨other, ?_⟩
    rw [Function.update_of_ne hne]
    exact hother
  exact {
    keyed := hcoherent.keyed
    owned := howned
    clean := fun lba hclean => (hcoherent.clean lba hclean).imp_right (hmarked lba)
    loaded := (Function.forall_update_iff _ fun _ (pc : Pc setup) =>
      pc.Loaded machine.engine).mpr ⟨hloaded, fun other _ => hcoherent.loaded other⟩
    discarding := by
      refine (Function.forall_update_iff _ fun _ (pc : Pc setup) =>
        ∀ lba, pc.discarding = some lba → BlockSaved machine.engine lba).mpr
        ⟨?_, fun other _ => hcoherent.discarding other⟩
      intro lba hdiscarding
      cases hdiscards.symm.trans hdiscarding
    clearing := fun lba hclears =>
      (hcoherent.clearing lba hclears).imp_right (hmarked lba) }

end Client

theorem Coherent.flush_step (hcoherent : machine.Coherent) {choice : Choice setup}
    {pc : FlusherPc setup} {engine : CacheEngine setup}
    (horderly : machine.flusher.Orderly machine)
    (hio : choice.io.succeeds = true)
    (hflush : FlusherStep choice machine.engine machine.flusher pc engine)
    (howned : Owned
      { machine with
        engine := engine
        flusher := pc }) :
    Coherent
      { machine with
        engine := engine
        flusher := pc } where
  keyed := hflush.selfKeyed hcoherent.keyed
  owned := howned
  clean := by
    intro lba hclean
    have hbefore : BlockSaved machine.engine lba ∨ machine.Marked lba := by
      rcases hflush.clean_cases hclean with hclears | hbefore
      · exact hcoherent.clearing lba hclears
      · exact hcoherent.clean lba hbefore
    exact hbefore.imp_left (hflush.blockSaved horderly hio)
  loaded := by
    intro thread
    apply (hcoherent.loaded thread).congr
    · intro slot _
      rw [hflush.blocks_eq]
    · intro lba hinserting
      exact hflush.readLba_eq horderly hinserting
  discarding := fun thread lba hdiscards =>
    hflush.blockSaved horderly hio (hcoherent.discarding thread lba hdiscards)
  clearing := fun _ hclears => .inl (hflush.clearing horderly hclears)

theorem Coherent.step (hcoherent : machine.Coherent)
    (horderly : machine.Orderly action) (hio : action.faultless = true)
    (hstep : machine.step action = some next) : next.Coherent := by
  have howned := hcoherent.owned.step horderly.evictsOwnSlot hstep
  cases step_cases hstep with
  | @invoke thread call hrunning hidle =>
      apply hcoherent.set_client ?_ (call.loaded_enter _) call.discarding_enter howned
      rw [hidle]
      rfl
  | client hclient => exact hcoherent.client_step horderly hio hclient howned
  | respond hdone =>
      refine hcoherent.set_client ?_ ?_ rfl howned
      · rw [hdone]
        rfl
      · trivial
  | flush hflush => exact hcoherent.flush_step horderly hio hflush howned
  | owner howner =>
      refine ⟨hcoherent.keyed, howned, hcoherent.clean, hcoherent.loaded,
        hcoherent.discarding, ?_⟩
      intro lba hclears
      cases howner with
      | started hrunning hchannel => cases hclears
      | joined hjoining hexited => cases hclears
      | _ => exact hcoherent.clearing lba hclears

end Machine

end AsmCacheInject.Concurrent

import AsmCacheInject.Concurrent.Coherence
import AsmCacheInject.Concurrent.Provenance

namespace AsmCacheInject.Concurrent

open AsmCacheInject.Cache
open AsmCacheInject.Data
open AsmCacheInject.Engine
open AsmCacheInject.Flush

variable {setup : Setup} {n : Nat}

/-! The logical content of an LBA changes at one step of a write: the copy of
a write hit, the `insert` of a write miss. -/

def applyWrite (content : Lba setup → Block setup) :
    Option (Lba setup × Block setup) → Lba setup → Block setup
  | none => content
  | some (lba, buf) => Function.update content lba buf

/-- The block about to be inserted is the client's buffer. -/
def Pc.Filled (blocks : Nat → Block setup) : Pc setup → Prop
  | .insertWrite _ buf slot => blocks slot = buf
  | _ => True

theorem Miss.filled_filling (miss : Miss setup) (slot : Nat)
    (blocks : Nat → Block setup) : (miss.filling slot).Filled blocks := by
  cases miss <;> trivial

theorem Call.filled_enter (call : Call setup) (blocks : Nat → Block setup) :
    call.enter.Filled blocks :=
  call.enter_induction (fun _ => trivial) (fun _ => trivial) fun _ _ => trivial

theorem Pc.Filled.congr {blocks other : Nat → Block setup} {pc : Pc setup}
    (hfilled : pc.Filled blocks)
    (hheld : ∀ slot, pc.held = some slot → other slot = blocks slot) :
    pc.Filled other := by
  cases pc with
  | insertWrite lba buf slot => exact (hheld slot rfl).trans hfilled
  | _ => trivial

/-- The events of a call that the client has not been told of yet. -/
def Pc.unreported : Pc setup → List (BlockEvent setup)
  | .markDirty lba buf => [.write lba buf]
  | .stats lba buf _ => [.write lba buf]
  | .wakeForWrite lba buf _ => [.write lba buf]
  | .done outcome => outcome.events
  | _ => []

theorem Miss.unreported_filling (miss : Miss setup) (slot : Nat) :
    (miss.filling slot).unreported = [] := by
  cases miss <;> rfl

theorem Call.unreported_enter (call : Call setup) : call.enter.unreported = [] :=
  call.enter_induction (fun _ => rfl) (fun _ => rfl) fun _ _ => rfl

section Step

variable {choice : Choice setup} {engine nextEngine : CacheEngine setup}
variable {machine : Machine setup n} {pc next : Pc setup}

theorem content_same_slots {table : LbaTable (Lba setup)}
    (hslots : table.slotOf = engine.table.slotOf) :
    CacheEngine.content { engine with table := table } = engine.content := by
  funext lba
  simp only [CacheEngine.content, hslots]

theorem content_fill_unmapped {slot : Nat}
    (hunmapped : ∀ lba, engine.table.slotOf lba ≠ some slot) (block : Block setup) :
    (engine.fill slot block).content = engine.content := by
  funext lba
  cases hslot : engine.table.slotOf lba with
  | none => simp only [CacheEngine.content, CacheEngine.fill, hslot]
  | some mapped =>
      have hne : mapped ≠ slot := fun heq => hunmapped lba (heq ▸ hslot)
      simp only [CacheEngine.content, CacheEngine.fill_table, hslot]
      exact CacheEngine.fill_blocks_of_ne hne block engine

theorem content_fill_mapped {lba : Lba setup} {slot : Nat}
    (hslot : engine.table.slotOf lba = some slot)
    (hunique : ∀ other, engine.table.slotOf other = some slot → other = lba)
    (block : Block setup) :
    (engine.fill slot block).content =
      Function.update engine.content lba block := by
  funext other
  by_cases heq : other = lba
  · subst heq
    simp only [CacheEngine.content, CacheEngine.fill_table, hslot,
      CacheEngine.fill_blocks_self, Function.update_self]
  · rw [Function.update_of_ne heq]
    cases hother : engine.table.slotOf other with
    | none => simp only [CacheEngine.content, CacheEngine.fill, hother]
    | some mapped =>
        have hne : mapped ≠ slot := fun hmapped =>
          heq (hunique other (hmapped ▸ hother))
        simp only [CacheEngine.content, CacheEngine.fill_table, hother]
        exact CacheEngine.fill_blocks_of_ne hne block engine

theorem content_write_cached {lba : Lba setup}
    (hcached : engine.table.slotOf lba ≠ none) (block : Block setup) :
    CacheEngine.content
        { engine with device := writeLba engine.device lba block } =
      engine.content := by
  funext other
  simp only [CacheEngine.content]
  cases hother : engine.table.slotOf other with
  | some slot => rfl
  | none =>
      have hne : other ≠ lba := fun heq => hcached (heq ▸ hother)
      simp only [readLba_writeLba, if_neg hne]

theorem content_insert {lba : Lba setup} {entry : CacheEntry (Lba setup)} :
    CacheEngine.content
        { engine with table := (engine.table.insert lba entry).2 } =
      Function.update engine.content lba (engine.blocks entry.poolIndex) := by
  funext other
  by_cases heq : other = lba
  · subst heq
    simp [CacheEngine.content, LbaTable.slotOf_insert]
  · simp [CacheEngine.content, LbaTable.slotOf_insert, heq]

theorem content_remove {lba : Lba setup} (hsaved : BlockSaved engine lba) :
    CacheEngine.content { engine with table := (engine.table.remove lba).2 } =
      engine.content := by
  funext other
  simp only [CacheEngine.content, LbaTable.slotOf_remove]
  by_cases heq : other = lba
  · subst heq
    rw [if_pos rfl]
    cases hslot : engine.table.slotOf other with
    | none => rfl
    | some slot => exact (hsaved slot hslot).symm
  · rw [if_neg heq]

theorem ClientStep.content {thread : Fin n}
    (hstep : ClientStep choice machine.engine pc next nextEngine)
    (howned : machine.Owned) (hheld : machine.held thread = pc.held)
    (horderly : pc.Orderly choice machine) (hio : choice.io.succeeds = true)
    (hfilled : pc.Filled machine.engine.blocks)
    (hloaded : pc.Loaded machine.engine)
    (hdiscards : ∀ lba, pc.discarding = some lba → BlockSaved machine.engine lba) :
    nextEngine.content = applyWrite machine.engine.content pc.commits := by
  have hunmapped : ∀ slot, pc.held = some slot →
      ∀ lba, machine.engine.table.slotOf lba ≠ some slot :=
    fun slot hslot => howned.held_unmapped thread slot (hheld.trans hslot)
  cases hstep with
  | lookupHit hslot => exact content_same_slots (LbaTable.slotOf_getAndTouch _ _ _)
  | @victimWritten miss victim hok =>
      apply content_write_cached
      have hcurrent : machine.engine.table.slotOf victim.lba =
        some victim.poolIndex := horderly.1
      rw [hcurrent]
      exact Option.some_ne_none _
  | victimTorn hfail => exact absurd hfail (IoOutcome.ne_fail hio _ _)
  | removeVictim => exact content_remove (hdiscards _ rfl)
  | @fetched lba slot hok => exact content_fill_unmapped (hunmapped slot rfl) _
  | fetchTorn hfail => exact absurd hfail (IoOutcome.ne_fail hio _ _)
  | @insertRead lba slot =>
      rw [content_insert]
      have hsame : machine.engine.blocks slot = machine.engine.content lba :=
        hloaded.trans (CacheEngine.content_of_absent horderly).symm
      simp only [CacheEntry.new, hsame, Function.update_eq_self]
      rfl
  | @writeHit lba buf slot =>
      apply content_fill_mapped horderly.1
      intro other hother
      exact howned.mapped_unique other lba slot hother horderly.1
  | markDirty => exact content_same_slots (LbaTable.slotOf_markDirty _ _ _)
  | @fill lba buf slot => exact content_fill_unmapped (hunmapped slot rfl) _
  | @insertWrite lba buf slot =>
      have hbuf : machine.engine.blocks slot = buf := hfilled
      rw [content_insert, ← hbuf]
      rfl
  | _ => rfl

theorem ClientStep.filled (hstep : ClientStep choice engine pc next nextEngine) :
    next.Filled nextEngine.blocks := by
  cases hstep with
  | takeFree hfree => exact Miss.filled_filling _ _ _
  | retake hfree => exact Miss.filled_filling _ _ _
  | fill => exact CacheEngine.fill_blocks_self _ _ _
  | _ => trivial

theorem FlusherStep.content {flusherPc nextPc : FlusherPc setup}
    (hstep : FlusherStep choice engine flusherPc nextPc nextEngine)
    (hio : choice.io.succeeds = true)
    (hpairs : ∀ pair ∈ flusherPc.accesses, PairCurrent engine pair) :
    nextEngine.content = engine.content := by
  cases hstep with
  | @written signal lba slot rest flushed hok =>
      apply content_write_cached
      have hcurrent : engine.table.slotOf lba = some slot := hpairs _ rfl
      rw [hcurrent]
      exact Option.some_ne_none _
  | torn hfail => exact absurd hfail (IoOutcome.ne_fail hio _ _)
  | cleaned => exact content_same_slots (LbaTable.slotOf_markClean _ _)
  | _ => rfl

end Step

/-! The write call a client is in, before and after its visible step. -/

def Miss.pending : Miss setup → Option (Lba setup × Block setup)
  | .read _ => none
  | .write lba buf => some (lba, buf)

def Pc.pending : Pc setup → Option (Lba setup × Block setup)
  | .allocate miss => miss.pending
  | .select miss => miss.pending
  | .flushVictim miss _ => miss.pending
  | .wakeForVictim miss _ => miss.pending
  | .removeVictim miss _ => miss.pending
  | .freeVictim miss _ => miss.pending
  | .reallocate miss => miss.pending
  | .writeLookup lba buf => some (lba, buf)
  | .writeHit lba buf _ => some (lba, buf)
  | .fill lba buf _ => some (lba, buf)
  | .insertWrite lba buf _ => some (lba, buf)
  | _ => none

def Pc.committed : Pc setup → Option (Lba setup × Block setup)
  | .markDirty lba buf => some (lba, buf)
  | .stats lba buf _ => some (lba, buf)
  | .wakeForWrite lba buf _ => some (lba, buf)
  | .done (.writeOk lba buf _) => some (lba, buf)
  | _ => none

theorem Miss.pending_filling (miss : Miss setup) (slot : Nat) :
    (miss.filling slot).pending = miss.pending := by
  cases miss <;> rfl

theorem Miss.committed_filling (miss : Miss setup) (slot : Nat) :
    (miss.filling slot).committed = none := by
  cases miss <;> rfl

theorem Call.pending_enter (call : Call setup) {lba : Lba setup}
    {block : Block setup} (hpending : call.enter.pending = some (lba, block)) :
    call = .write lba.val block := by
  rcases call.enter_cases with
    ⟨_, henter⟩ | ⟨_, _, henter⟩ | ⟨target, data, hwrite, henter⟩
  · rw [henter] at hpending
    cases hpending
  · rw [henter] at hpending
    cases hpending
  · rw [henter] at hpending
    cases hpending
    exact hwrite

theorem Call.committed_enter (call : Call setup) : call.enter.committed = none :=
  call.enter_induction (fun _ => rfl) (fun _ => rfl) fun _ _ => rfl

theorem Pc.pending_of_commits {pc : Pc setup} {write : Lba setup × Block setup}
    (hcommits : pc.commits = some write) : pc.pending = some write := by
  cases pc with
  | writeHit lba buf slot => exact hcommits
  | insertWrite lba buf slot => exact hcommits
  | _ => cases hcommits

section Calls

variable {choice : Choice setup} {engine nextEngine : CacheEngine setup}
variable {pc next : Pc setup} {write : Lba setup × Block setup}

theorem ClientStep.pending (hstep : ClientStep choice engine pc next nextEngine)
    (hpending : next.pending = some write) : pc.pending = some write := by
  cases hstep with
  | takeFree hfree =>
      rw [Miss.pending_filling] at hpending
      exact hpending
  | retake hfree =>
      rw [Miss.pending_filling] at hpending
      exact hpending
  | lookupMiss habsent => cases hpending
  | _ => first | exact hpending | cases hpending

theorem ClientStep.committed (hstep : ClientStep choice engine pc next nextEngine)
    (hcommitted : next.committed = some write) :
    pc.committed = some write ∨ pc.commits = some write := by
  cases hstep with
  | takeFree hfree =>
      rw [Miss.committed_filling] at hcommitted
      cases hcommitted
  | retake hfree =>
      rw [Miss.committed_filling] at hcommitted
      cases hcommitted
  | writeHit => exact .inr hcommitted
  | insertWrite => exact .inr hcommitted
  | markDirty => exact .inl hcommitted
  | statsAbove => exact .inl hcommitted
  | statsBelow => exact .inl hcommitted
  | wakeForWrite => exact .inl hcommitted
  | _ => cases hcommitted

end Calls

namespace Machine

/-- Orderly steps, and write-backs of the flush thread below cached blocks
only. -/
def KeepsContent (machine : Machine setup n) (action : Action setup n) : Prop :=
  machine.Orderly action ∧ machine.FlushesCurrentPair action

instance (machine : Machine setup n) (action : Action setup n) :
    Decidable (machine.KeepsContent action) :=
  inferInstanceAs (Decidable (_ ∧ _))

def commits (machine : Machine setup n) :
    Action setup n → Option (Lba setup × Block setup)
  | .client thread _ => (machine.client thread).commits
  | _ => none

structure Staged (machine : Machine setup n) : Prop where
  coherent : machine.Coherent
  filled : ∀ thread, (machine.client thread).Filled machine.engine.blocks

variable {machine next : Machine setup n} {action : Action setup n}

theorem staged_init (setup : Setup) (n : Nat) (image : Image) :
    (init setup n image).Staged where
  coherent := coherent_init setup n image
  filled := fun _ => trivial

theorem Staged.step (hstaged : machine.Staged) (horderly : machine.Orderly action)
    (hio : action.faultless = true) (hstep : machine.step action = some next) :
    next.Staged := by
  have hcoherent := hstaged.coherent.step horderly hio hstep
  cases step_cases hstep with
  | invoke hrunning hidle =>
      refine ⟨hcoherent, (Function.forall_update_iff _
        fun _ (pc : Pc setup) => pc.Filled _).mpr ?_⟩
      exact ⟨Call.filled_enter _ _, fun other _ => hstaged.filled other⟩
  | @client thread choice pc engine hclient =>
      refine ⟨hcoherent, (Function.forall_update_iff _
        fun _ (pc : Pc setup) => pc.Filled _).mpr ?_⟩
      refine ⟨hclient.filled, fun other hother => ?_⟩
      apply (hstaged.filled other).congr
      intro slot hheld
      apply hstaged.coherent.owned.blocks_held_elsewhere hclient ?_ hother hheld
      intro lba buf hit hwrite
      simp only [Orderly, hwrite] at horderly
      exact horderly.1
  | respond hdone =>
      refine ⟨hcoherent, (Function.forall_update_iff _
        fun _ (pc : Pc setup) => pc.Filled _).mpr ?_⟩
      exact ⟨trivial, fun other _ => hstaged.filled other⟩
  | flush hflush =>
      refine ⟨hcoherent, ?_⟩
      simp only [hflush.blocks_eq]
      exact hstaged.filled
  | owner howner => exact ⟨hcoherent, hstaged.filled⟩

theorem Staged.content_step (hstaged : machine.Staged)
    (hkeeps : machine.KeepsContent action) (hio : action.faultless = true)
    (hstep : machine.step action = some next) :
    next.engine.content =
      applyWrite machine.engine.content (machine.commits action) := by
  obtain ⟨horderly, hpairs⟩ := hkeeps
  cases step_cases hstep with
  | invoke hrunning hidle => rfl
  | @client thread choice pc engine hclient =>
      exact hclient.content hstaged.coherent.owned rfl horderly hio
        (hstaged.filled thread) (hstaged.coherent.loaded thread)
        (hstaged.coherent.discarding thread)
  | respond hdone => rfl
  | flush hflush => exact hflush.content hio hpairs
  | owner howner => cases howner <;> rfl

/-! A write to `lba` that nothing overlaps. -/

section Survival

variable {lba : Lba setup} {buf : Block setup}

/-- Every write to `lba` still on its way carries `buf`. -/
def OnlyPending (lba : Lba setup) (buf : Block setup)
    (machine : Machine setup n) : Prop :=
  ∀ thread block, (machine.client thread).pending = some (lba, block) → block = buf

/-- Once a write to `lba` is visible, `lba` holds `buf`. -/
def CommittedHolds (lba : Lba setup) (buf : Block setup)
    (machine : Machine setup n) : Prop :=
  ∀ thread block, (machine.client thread).committed = some (lba, block) →
    machine.engine.content lba = buf

theorem OnlyPending.step (honly : machine.OnlyPending lba buf)
    (hcall : ∀ thread block, action ≠ .invoke thread (.write lba.val block))
    (hstep : machine.step action = some next) : next.OnlyPending lba buf := by
  intro thread block hpending
  rcases client_cases hstep thread with
    hsame | hidle | ⟨call, haction, henter⟩ | ⟨choice, _, hclient⟩
  · rw [hsame] at hpending
    exact honly thread block hpending
  · rw [hidle] at hpending
    cases hpending
  · rw [henter] at hpending
    rw [call.pending_enter hpending] at haction
    exact absurd haction (hcall thread block)
  · exact honly thread block (hclient.pending hpending)

/-- Either the step makes a write to `lba` visible, and then `lba` holds `buf`,
or the content of `lba` stays. -/
theorem OnlyPending.content_step (honly : machine.OnlyPending lba buf)
    (hstaged : machine.Staged) (hkeeps : machine.KeepsContent action)
    (hio : action.faultless = true) (hstep : machine.step action = some next) :
    next.engine.content lba = buf ∨
      (next.engine.content lba = machine.engine.content lba ∧
        ∀ block, machine.commits action ≠ some (lba, block)) := by
  rw [hstaged.content_step hkeeps hio hstep]
  cases hcommits : machine.commits action with
  | none => exact .inr ⟨rfl, fun block hsome => by cases hsome⟩
  | some write =>
      obtain ⟨target, block⟩ := write
      by_cases heq : target = lba
      · subst heq
        left
        have hpending : ∃ thread,
            (machine.client thread).pending = some (target, block) := by
          cases action with
          | client thread choice => exact ⟨thread, Pc.pending_of_commits hcommits⟩
          | _ => cases hcommits
        obtain ⟨thread, hpending⟩ := hpending
        simp only [applyWrite, Function.update_self]
        exact honly thread block hpending
      · right
        refine ⟨Function.update_of_ne (Ne.symm heq) _ _, ?_⟩
        intro other hsome
        cases hsome
        exact heq rfl

theorem CommittedHolds.step (hholds : machine.CommittedHolds lba buf)
    (honly : machine.OnlyPending lba buf) (hstaged : machine.Staged)
    (hkeeps : machine.KeepsContent action) (hio : action.faultless = true)
    (hstep : machine.step action = some next) : next.CommittedHolds lba buf := by
  rcases honly.content_step hstaged hkeeps hio hstep with hbuf | ⟨hsame, hcommits⟩
  · exact fun _ _ _ => hbuf
  intro thread block hcommitted
  rw [hsame]
  rcases client_cases hstep thread with
    hpc | hidle | ⟨call, _, henter⟩ | ⟨choice, haction, hclient⟩
  · rw [hpc] at hcommitted
    exact hholds thread block hcommitted
  · rw [hidle] at hcommitted
    cases hcommitted
  · rw [henter, Call.committed_enter] at hcommitted
    cases hcommitted
  · rcases hclient.committed hcommitted with hbefore | hnow
    · exact hholds thread block hbefore
    · subst haction
      exact absurd hnow (hcommits block)

/-- A step that starts no further write to `lba`. -/
def Undisturbed (lba : Lba setup) (machine : Machine setup n)
    (action : Action setup n) : Prop :=
  (action.faultless = true ∧
    ∀ thread block, action ≠ .invoke thread (.write lba.val block)) ∧
  machine.KeepsContent action

theorem CommittedHolds.run {start : Machine setup n} {run : List (Action setup n)}
    (hholds : start.CommittedHolds lba buf)
    (honly : start.OnlyPending lba buf) (hstaged : start.Staged)
    (hguard : Run.Along Machine.step (Undisturbed lba) start run)
    (hrun : Run.exec Machine.step start run = some machine) :
    machine.Staged ∧ machine.OnlyPending lba buf ∧
      machine.CommittedHolds lba buf := by
  apply Run.invariant_state ⟨hstaged, honly, hholds⟩ ?_ hguard hrun
  intro state action next hinv hallowed hstep
  obtain ⟨hstaged, honly, hholds⟩ := hinv
  obtain ⟨⟨hio, hother⟩, hkeeps⟩ := hallowed
  exact ⟨hstaged.step hkeeps.1 hio hstep, honly.step hother hstep,
    hholds.step honly hstaged hkeeps hio hstep⟩

theorem OnlyPending.content_run {start : Machine setup n}
    {run : List (Action setup n)} (honly : start.OnlyPending lba buf)
    (hstaged : start.Staged)
    (hcontent : start.engine.content lba = buf)
    (hguard : Run.Along Machine.step (Undisturbed lba) start run)
    (hrun : Run.exec Machine.step start run = some machine) :
    machine.engine.content lba = buf := by
  have hinv : machine.Staged ∧ machine.OnlyPending lba buf ∧
      machine.engine.content lba = buf := by
    apply Run.invariant_state ⟨hstaged, honly, hcontent⟩ ?_ hguard hrun
    intro state action next hinv hallowed hstep
    obtain ⟨hstaged, honly, hcontent⟩ := hinv
    obtain ⟨⟨hio, hother⟩, hkeeps⟩ := hallowed
    refine ⟨hstaged.step hkeeps.1 hio hstep, honly.step hother hstep, ?_⟩
    rcases honly.content_step hstaged hkeeps hio hstep with hbuf | ⟨hsame, _⟩
    · exact hbuf
    · exact hsame.trans hcontent
  exact hinv.2.2

end Survival

end Machine

structure WriteRun (setup : Setup) (n : Nat) where
  before : List (Action setup n)
  thread : Fin n
  lba : Lba setup
  buf : Block setup
  during : List (Action setup n)
  after : List (Action setup n)

def Pc.WritesTo (lba : Lba setup) (pc : Pc setup) : Prop :=
  pc.pending.map Prod.fst = some lba ∨ pc.committed.map Prod.fst = some lba

instance (lba : Lba setup) (pc : Pc setup) : Decidable (pc.WritesTo lba) :=
  inferInstanceAs (Decidable (_ ∨ _))

namespace WriteRun

open Machine

variable (run : WriteRun setup n)

def call : Action setup n := .invoke run.thread (.write run.lba.val run.buf)

def actions : List (Action setup n) :=
  run.before ++ run.call :: run.during ++ .respond run.thread :: run.after

/-- The call returns Ok, and no other write to its LBA overlaps it or starts
after it. -/
structure Acknowledged (image : Image) : Prop where
  alone : ∀ first, Run.exec step (init setup n image) run.before = some first →
    ∀ other, ¬(first.client other).WritesTo run.lba
  returned : ∀ middle, Run.exec step (init setup n image)
    (run.before ++ run.call :: run.during) = some middle →
    ∃ result, middle.client run.thread = .done (.writeOk run.lba run.buf result)
  last : ∀ other block,
    .invoke other (.write run.lba.val block) ∉ run.during ++ run.after

variable {run} {image : Image} {first machine : Machine setup n}

theorem Acknowledged.entered (hack : run.Acknowledged image)
    (hfirst : Run.exec step (init setup n image) run.before = some first)
    (hcall : first.step run.call = some machine) :
    machine.OnlyPending run.lba run.buf ∧
      machine.CommittedHolds run.lba run.buf := by
  have halone := hack.alone first hfirst
  constructor
  · intro thread block hpending
    rcases client_cases hcall thread with
      hsame | hidle | ⟨call, haction, henter⟩ | ⟨choice, haction, _⟩
    · rw [hsame] at hpending
      exact absurd (.inl (by rw [hpending]; rfl)) (halone thread)
    · rw [hidle] at hpending
      cases hpending
    · cases haction
      rw [henter] at hpending
      have hwrite := Call.pending_enter _ hpending
      cases hwrite
      rfl
    · cases haction
  · intro thread block hcommitted
    rcases client_cases hcall thread with
      hsame | hidle | ⟨call, _, henter⟩ | ⟨choice, haction, _⟩
    · rw [hsame] at hcommitted
      exact absurd (.inr (by rw [hcommitted]; rfl)) (halone thread)
    · rw [hidle] at hcommitted
      cases hcommitted
    · rw [henter, Call.committed_enter] at hcommitted
      cases hcommitted
    · cases haction

theorem Acknowledged.undisturbed (hack : run.Acknowledged image)
    {actions : List (Action setup n)} {start : Machine setup n}
    (hpart : ∀ action ∈ actions,
      action ∈ run.during ++ .respond run.thread :: run.after)
    (hfaultless : ∀ action ∈ run.actions, action.faultless = true)
    (hguard : Run.Along step KeepsContent start actions) :
    Run.Along step (Undisturbed run.lba) start actions := by
  refine Run.along_and (Run.along_of_forall ?_) hguard
  intro action hmem
  have hrest := hpart action hmem
  constructor
  · apply hfaultless
    simp only [WriteRun.actions, List.append_assoc, List.cons_append]
    exact List.mem_append_right _ (List.mem_cons_of_mem _ hrest)
  · intro thread block haction
    rw [haction] at hrest
    apply hack.last thread block
    simpa using hrest

theorem content_survives (hack : run.Acknowledged image)
    (hfaultless : ∀ action ∈ run.actions, action.faultless = true)
    (hguard : Run.Along step KeepsContent (init setup n image) run.actions)
    (hrun : Run.exec step (init setup n image) run.actions = some machine) :
    machine.engine.content run.lba = run.buf := by
  obtain ⟨middle, hmiddle, hafter⟩ :=
    Option.bind_eq_some_iff.mp (Run.exec_append _ _ _ ▸ hrun)
  obtain ⟨first, hfirst, hduring⟩ :=
    Option.bind_eq_some_iff.mp (Run.exec_append _ _ _ ▸ hmiddle)
  obtain ⟨entered, hcall, hduring⟩ := Option.bind_eq_some_iff.mp hduring
  obtain ⟨hguardMiddle, hguardAfter⟩ := (Run.along_append hmiddle).mp hguard
  obtain ⟨hguardFirst, hguardCall, hguardDuring⟩ :=
    (Run.along_append hfirst).mp hguardMiddle
  rw [hcall] at hguardDuring
  have hfaultlessFirst : ∀ action ∈ run.before, action.faultless = true := by
    intro action hmem
    apply hfaultless
    simp [actions, hmem]
  have hstagedFirst : first.Staged :=
    Run.invariant_state (staged_init setup n image)
      (fun _ _ _ hstaged hallowed hstep =>
        hstaged.step hallowed.2.1 hallowed.1 hstep)
      (Run.along_and (Run.along_of_forall hfaultlessFirst) hguardFirst) hfirst
  obtain ⟨honly, hholds⟩ := hack.entered hfirst hcall
  obtain ⟨hstaged, honly, hholds⟩ :=
    hholds.run honly (hstagedFirst.step hguardCall.1 rfl hcall)
      (hack.undisturbed (fun _ => List.mem_append_left _) hfaultless hguardDuring)
      hduring
  obtain ⟨result, hdone⟩ := hack.returned middle hmiddle
  have hcontent : middle.engine.content run.lba = run.buf := by
    apply hholds run.thread run.buf
    rw [hdone]
    rfl
  exact honly.content_run hstaged hcontent
    (hack.undisturbed (fun _ => List.mem_append_right _) hfaultless hguardAfter)
    hafter

def loneWrite : WriteRun (.mini 0) 2 where
  before := []
  thread := clientA
  lba := 0
  buf := fun _ => 5
  during := advance clientA 6 1
  after := List.flatten [
    [.invoke clientB (.read 1)], advance clientB 11 2, [.respond clientB]]

theorem loneWrite_survives :
    ∃ machine, Run.exec step (init (.mini 0) 2 stripes) loneWrite.actions =
      some machine ∧ machine.Quiet ∧ machine.engine.content 0 = fun _ => 5 := by
  have hack : loneWrite.Acknowledged stripes := by
    refine ⟨?_, ?_, by simp [loneWrite, advance]⟩
    · exact show ∀ first ∈ Run.exec step (init (.mini 0) 2 stripes)
        loneWrite.before, ∀ other, ¬(first.client other).WritesTo 0 by
        decide +kernel
    · intro middle hmiddle
      have hclient : (Run.exec step (init (.mini 0) 2 stripes)
          (loneWrite.before ++ loneWrite.call :: loneWrite.during)).map
          (fun machine => machine.client 0) =
          some (.done (.writeOk 0 (fun _ => 5) ⟨false⟩)) := rfl
      rw [hmiddle] at hclient
      exact ⟨⟨false⟩, Option.some.inj hclient⟩
  have hquiet : (Run.exec step (init (.mini 0) 2 stripes) loneWrite.actions).map
      (fun machine => decide machine.Quiet) = some true := by
    decide +kernel
  obtain ⟨machine, hrun, hquiet⟩ := Option.map_eq_some_iff.mp hquiet
  exact ⟨machine, hrun, of_decide_eq_true hquiet,
    content_survives hack (by decide +kernel) (by decide +kernel) hrun⟩

/-- A read miss has fetched block 0 when the other client writes it; then the
miss inserts what it fetched, as a clean entry. -/
def staleInsert : WriteRun (.mini 1) 2 where
  before := .invoke clientB (.read 0) :: advance clientB 3 1
  thread := clientA
  lba := 0
  buf := fun _ => 5
  during := advance clientA 6 2
  after := advance clientB 2 3 ++ [.respond clientB]

theorem staleInsert_loses_write :
    ¬∀ (setup : Setup) (image : Image) (run : WriteRun setup 2)
      (machine : Machine setup 2), run.Acknowledged image →
      (∀ action ∈ run.actions, action.faultless = true) → .start ∉ run.actions →
      Run.exec step (init setup 2 image) run.actions = some machine →
      machine.Quiet → machine.engine.content run.lba = run.buf := by
  intro hsurvives
  have hack : staleInsert.Acknowledged stripes := by
    refine ⟨?_, ?_, by simp [staleInsert, advance]⟩
    · exact show ∀ first ∈ Run.exec step (init (.mini 1) 2 stripes)
        staleInsert.before, ∀ other, ¬(first.client other).WritesTo 0 by
        decide +kernel
    · intro middle hmiddle
      have hclient : (Run.exec step (init (.mini 1) 2 stripes)
          (staleInsert.before ++ staleInsert.call :: staleInsert.during)).map
          (fun machine => machine.client 0) =
          some (.done (.writeOk 0 (fun _ => 5) ⟨false⟩)) := rfl
      rw [hmiddle] at hclient
      exact ⟨⟨false⟩, Option.some.inj hclient⟩
  have hlost : (Run.exec step (init (.mini 1) 2 stripes) staleInsert.actions).map
      (fun machine => (decide machine.Quiet, machine.engine.content 0 0)) =
      some (true, 0) := by
    decide +kernel
  obtain ⟨machine, hrun, hfinal⟩ := Option.map_eq_some_iff.mp hlost
  obtain ⟨hquiet, hbyte⟩ := Prod.mk.inj hfinal
  have hcontent := hsurvives (.mini 1) stripes staleInsert machine hack
    (by decide +kernel) (by simp [actions, call, staleInsert, advance]) hrun
    (of_decide_eq_true hquiet)
  have hwritten : machine.engine.content 0 0 = 5 := congrFun hcontent 0
  rw [hbyte] at hwritten
  exact absurd hwritten (by decide)

end WriteRun

end AsmCacheInject.Concurrent

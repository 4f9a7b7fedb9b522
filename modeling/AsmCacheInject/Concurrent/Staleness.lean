import AsmCacheInject.Concurrent.Lifecycle
import AsmCacheInject.Concurrent.Termination

namespace AsmCacheInject.Concurrent

open AsmCacheInject.Cache
open AsmCacheInject.Data
open AsmCacheInject.Engine
open AsmCacheInject.Flush

variable {setup : Setup} {n : Nat}

/-! How far the device lags behind the writes.  A block whose flag is clear is
on the device, up to the writes whose flag is still to be set; the others are
reached by the next cycle. -/

namespace Machine

/-- The flag of `lba` is clear, or the flush thread is about to clear it. -/
def Cleared (machine : Machine setup n) (lba : Lba setup) : Prop :=
  machine.engine.table.dirtyOf lba ≠ some true ∨
    machine.flusher.clearing = some lba

def made (machine : Machine setup n) (action : Action setup n) :
    List (BlockEvent setup) :=
  (machine.commits action).toList.map fun write => .write write.1 write.2

theorem replay_made (machine : Machine setup n) (action : Action setup n)
    (initial : Lba setup → Block setup) :
    Register.replay initial (machine.made action) =
      applyWrite initial (machine.commits action) := by
  unfold made
  cases machine.commits action <;> rfl

theorem mem_made {machine : Machine setup n} {action : Action setup n}
    {lba : Lba setup} {buf : Block setup}
    (hmem : .write lba buf ∈ machine.made action) :
    machine.commits action = some (lba, buf) := by
  unfold made at hmem
  cases hcommits : machine.commits action with
  | none =>
      rw [hcommits] at hmem
      cases hmem
  | some write =>
      rw [hcommits] at hmem
      simp only [Option.toList_some, List.map_cons, List.map_nil,
        List.mem_singleton] at hmem
      cases hmem
      rfl

end Machine

theorem readLba_writeBack {engine : CacheEngine setup} {lba : Lba setup}
    {slot : Nat} (hcurrent : PairCurrent engine (lba, slot)) :
    readLba (writeLba engine.device lba (engine.blocks slot)) lba =
      CacheEngine.content
        { engine with
          device := writeLba engine.device lba (engine.blocks slot) } lba := by
  rw [readLba_writeLba, if_pos rfl]
  symm
  exact CacheEngine.content_of_cached hcurrent

section Client

variable {choice : Choice setup} {machine : Machine setup n}
variable {pc next : Pc setup} {nextEngine : CacheEngine setup}

theorem ClientStep.device_content
    (hstep : ClientStep choice machine.engine pc next nextEngine)
    (horderly : pc.Orderly choice machine) (hio : choice.io.succeeds = true)
    (lba : Lba setup) :
    readLba nextEngine.device lba = readLba machine.engine.device lba ∨
      readLba nextEngine.device lba = nextEngine.content lba := by
  cases hstep with
  | @victimWritten miss victim hok =>
      by_cases heq : lba = victim.lba
      · subst heq
        exact .inr (readLba_writeBack horderly.1)
      · left
        rw [readLba_writeLba, if_neg heq]
  | victimTorn hfail => exact absurd hfail (IoOutcome.ne_fail hio _ _)
  | _ => exact .inl rfl

theorem ClientStep.cleared_before
    (hstep : ClientStep choice machine.engine pc next nextEngine)
    (horderly : pc.Orderly choice machine) {lba : Lba setup}
    (hcleared : nextEngine.table.dirtyOf lba ≠ some true ∨
      machine.flusher.clearing = some lba) :
    machine.Cleared lba ∨ nextEngine.table.slotOf lba = none := by
  rcases hcleared with hflag | hclearing
  · cases hstep with
    | lookupHit hslot =>
        rw [LbaTable.dirtyOf_getAndTouch] at hflag
        exact .inl (.inl hflag)
    | @removeVictim miss victim =>
        rw [LbaTable.dirtyOf_remove] at hflag
        rw [LbaTable.slotOf_remove]
        split at hflag
        · next heq => exact .inr (if_pos heq)
        · exact .inl (.inl hflag)
    | @insertRead target slot =>
        left
        left
        rw [LbaTable.dirtyOf_insert] at hflag
        split at hflag
        · next heq =>
          have habsent : machine.engine.table.slotOf lba = none := heq ▸ horderly
          rw [LbaTable.dirtyOf_eq_none_iff.mpr habsent]
          exact (Option.some_ne_none _).symm
        · exact hflag
    | @markDirty target buf =>
        rw [LbaTable.dirtyOf_markDirty] at hflag
        rw [LbaTable.slotOf_markDirty]
        split at hflag
        · next heq =>
          subst heq
          right
          cases hslot : machine.engine.table.slotOf lba with
          | none => rfl
          | some slot =>
              rw [hslot] at hflag
              exact absurd rfl hflag
        · exact .inl (.inl hflag)
    | @insertWrite target buf slot =>
        rw [LbaTable.dirtyOf_insert] at hflag
        split at hflag
        · exact absurd rfl hflag
        · exact .inl (.inl hflag)
    | _ => exact .inl (.inl hflag)
  · exact .inl (.inr hclearing)

theorem ClientStep.flagged
    (hstep : ClientStep choice machine.engine pc next nextEngine)
    (horderly : pc.Orderly choice machine) {lba : Lba setup}
    (hmarking : pc.marking = some lba)
    (hcleared : nextEngine.table.dirtyOf lba ≠ some true ∨
      machine.flusher.clearing = some lba) :
    readLba nextEngine.device lba = nextEngine.content lba := by
  cases hstep with
  | @markDirty target buf =>
      cases hmarking
      have hflag := hcleared.resolve_right horderly
      rw [LbaTable.dirtyOf_markDirty, if_pos rfl] at hflag
      symm
      apply CacheEngine.content_of_absent
      rw [LbaTable.slotOf_markDirty]
      cases hslot : machine.engine.table.slotOf lba with
      | none => rfl
      | some slot =>
          rw [hslot] at hflag
          exact absurd rfl hflag
  | _ => cases hmarking

theorem ClientStep.opens
    (hstep : ClientStep choice machine.engine pc next nextEngine)
    (horderly : pc.Orderly choice machine) {lba : Lba setup} {buf : Block setup}
    (hcommits : pc.commits = some (lba, buf))
    (hcleared : nextEngine.table.dirtyOf lba ≠ some true ∨
      machine.flusher.clearing = some lba) :
    next = .markDirty lba buf := by
  cases hstep with
  | writeHit =>
      cases hcommits
      rfl
  | insertWrite =>
      cases hcommits
      rcases hcleared with hflag | hclearing
      · rw [LbaTable.dirtyOf_insert, if_pos rfl] at hflag
        exact absurd rfl hflag
      · exact absurd hclearing horderly.2
  | _ => cases hcommits

end Client

section Flush

variable {choice : Choice setup} {machine : Machine setup n}
variable {pc next : FlusherPc setup} {nextEngine : CacheEngine setup}

theorem FlusherStep.device_content
    (hstep : FlusherStep choice machine.engine pc next nextEngine)
    (hpairs : ∀ pair ∈ pc.accesses, PairCurrent machine.engine pair)
    (hio : choice.io.succeeds = true) (lba : Lba setup) :
    readLba nextEngine.device lba = readLba machine.engine.device lba ∨
      readLba nextEngine.device lba = nextEngine.content lba := by
  cases hstep with
  | @written signal target slot rest flushed hok =>
      by_cases heq : lba = target
      · subst heq
        exact .inr (readLba_writeBack (hpairs _ rfl))
      · left
        rw [readLba_writeLba, if_neg heq]
  | torn hfail => exact absurd hfail (IoOutcome.ne_fail hio _ _)
  | _ => exact .inl rfl

theorem FlusherStep.pairs_cases
    (hstep : FlusherStep choice machine.engine pc next nextEngine)
    (hpairs : ∀ pair ∈ pc.accesses, PairCurrent machine.engine pair)
    (hio : choice.io.succeeds = true) {lba : Lba setup}
    (hmem : lba ∈ pc.pairs.map Prod.fst) :
    lba ∈ next.pairs.map Prod.fst ∨
      readLba nextEngine.device lba = nextEngine.content lba := by
  cases hstep with
  | @written signal target slot rest flushed hok =>
      rcases List.mem_cons.mp hmem with heq | hrest
      · right
        have heq : lba = target := heq
        subst heq
        exact readLba_writeBack (hpairs _ rfl)
      · exact .inl hrest
  | torn hfail => exact absurd hfail (IoOutcome.ne_fail hio _ _)
  | cleaned =>
      left
      rw [FlusherPc.pairs_resume]
      exact hmem
  | _ => cases hmem

theorem FlusherStep.cleared_before
    (hstep : FlusherStep choice machine.engine machine.flusher next nextEngine)
    (hpairs : ∀ pair ∈ machine.flusher.accesses, PairCurrent machine.engine pair)
    (hio : choice.io.succeeds = true) {lba : Lba setup}
    (hcleared : nextEngine.table.dirtyOf lba ≠ some true ∨
      next.clearing = some lba) :
    machine.Cleared lba ∨
      readLba nextEngine.device lba = nextEngine.content lba := by
  unfold Machine.Cleared
  generalize machine.flusher = pc at hstep hpairs
  cases hstep with
  | @written signal target slot rest flushed hok =>
      rcases hcleared with hflag | hclearing
      · exact .inl (.inl hflag)
      · right
        have heq : target = lba := Option.some.inj hclearing
        subst heq
        exact readLba_writeBack (hpairs _ rfl)
  | torn hfail => exact absurd hfail (IoOutcome.ne_fail hio _ _)
  | @cleaned signal target rest flushed =>
      left
      rw [FlusherPc.clearing_resume] at hcleared
      have hflag := hcleared.resolve_right (Option.some_ne_none _).symm
      by_cases heq : lba = target
      · exact .inr (congrArg some heq.symm)
      · left
        rwa [LbaTable.dirtyOf_markClean, if_neg heq] at hflag
  | snapshot =>
      rw [FlusherPc.clearing_resume] at hcleared
      exact .inl (.inl (hcleared.resolve_right (Option.some_ne_none _).symm))
  | _ => exact .inl (.inl (hcleared.resolve_right (Option.some_ne_none _).symm))

end Flush

/-! The moves of the flush thread. -/

/-- Moves until the next snapshot is taken. -/
def FlusherPc.toSnapshot : FlusherPc setup → Nat
  | .off => 2
  | .waiting => 2
  | .snapshot _ => 1
  | .writing _ _ _ rest _ => 2 * rest.length + 6
  | .cleaning _ _ rest _ => 2 * rest.length + 5
  | .syncing _ => 4
  | .checking _ => 3
  | .exited => 2

def FlusherPc.loopLeft : FlusherPc setup → Nat
  | .writing _ _ _ rest _ => 2 * rest.length + 2
  | .cleaning _ _ rest _ => 2 * rest.length + 1
  | _ => 0

theorem FlusherPc.toSnapshot_resume_le (signal : Option FlushSignal)
    (pairs : List (Lba setup × Nat)) (flushed : Nat) :
    (FlusherPc.resume signal pairs flushed).toSnapshot ≤ 2 * pairs.length + 4 := by
  cases pairs with
  | nil =>
      simp only [FlusherPc.resume]
      split <;> simp [FlusherPc.toSnapshot]
  | cons pair rest =>
      simp only [FlusherPc.resume, FlusherPc.toSnapshot, List.length_cons]
      omega

theorem FlusherPc.toSnapshot_le {pc : FlusherPc setup}
    (hshort : pc.pairs.length ≤ setup.maxLba) :
    pc.toSnapshot ≤ 2 * setup.maxLba + 5 := by
  cases pc with
  | writing signal lba slot rest flushed =>
      simp only [FlusherPc.pairs, List.length_cons] at hshort
      simp only [FlusherPc.toSnapshot]
      omega
  | cleaning signal lba rest flushed =>
      simp only [FlusherPc.pairs] at hshort
      simp only [FlusherPc.toSnapshot]
      omega
  | _ =>
      simp only [FlusherPc.toSnapshot]
      omega

theorem FlusherPc.loopLeft_resume (signal : Option FlushSignal)
    (pairs : List (Lba setup × Nat)) (flushed : Nat) :
    (FlusherPc.resume signal pairs flushed).loopLeft = 2 * pairs.length := by
  cases pairs with
  | nil =>
      simp only [FlusherPc.resume]
      split <;> rfl
  | cons pair rest => rfl

theorem FlusherPc.pairs_of_loopLeft {pc : FlusherPc setup}
    (hdone : pc.loopLeft = 0) : pc.pairs = [] := by
  cases pc with
  | writing signal lba slot rest flushed => cases hdone
  | cleaning signal lba rest flushed => cases hdone
  | _ => rfl

theorem FlusherPc.toSnapshot_pos (pc : FlusherPc setup) : 0 < pc.toSnapshot := by
  cases pc <;> simp [FlusherPc.toSnapshot]

section Moves

variable {choice : Choice setup} {engine nextEngine : CacheEngine setup}
variable {pc next : FlusherPc setup}

theorem FlusherStep.toSnapshot
    (hstep : FlusherStep choice engine pc next nextEngine)
    (hio : choice.io.succeeds = true) :
    (∃ signal, pc = .snapshot signal ∧ nextEngine = engine ∧
      next = .resume signal (engine.table.dirtyEntries choice.order) 0) ∨
      next.toSnapshot < pc.toSnapshot := by
  cases hstep with
  | @snapshot signal => exact .inl ⟨signal, rfl, rfl, rfl⟩
  | torn hfail => exact absurd hfail (IoOutcome.ne_fail hio _ _)
  | @cleaned signal lba rest flushed =>
      right
      have hle := FlusherPc.toSnapshot_resume_le signal rest (flushed + 1)
      simp only [FlusherPc.toSnapshot] at hle ⊢
      omega
  | _ => exact .inr (by simp [FlusherPc.toSnapshot])

theorem FlusherStep.loopLeft
    (hstep : FlusherStep choice engine pc next nextEngine)
    (hio : choice.io.succeeds = true) (hloop : 0 < pc.loopLeft) :
    next.loopLeft < pc.loopLeft := by
  cases hstep with
  | written hok => simp [FlusherPc.loopLeft]
  | torn hfail => exact absurd hfail (IoOutcome.ne_fail hio _ _)
  | cleaned =>
      rw [FlusherPc.loopLeft_resume]
      simp [FlusherPc.loopLeft]
  | _ => cases hloop

end Moves

def Action.isFlush : Action setup n → Bool
  | .flush _ => true
  | _ => false

namespace Machine

variable {machine next : Machine setup n} {action : Action setup n}
variable {lba : Lba setup}

/-- The step leaves the device block of `lba` alone, and the writes to `lba`
that lack their flag keep lacking it. -/
structure Idles (lba : Lba setup) (machine : Machine setup n)
    (action : Action setup n) (next : Machine setup n) : Prop where
  cleared : machine.Cleared lba
  device : readLba next.engine.device lba = readLba machine.engine.device lba
  opens : ∀ buf, machine.commits action = some (lba, buf) →
    ∃ thread, next.client thread = .markDirty lba buf
  still : ∀ thread buf, machine.client thread = .markDirty lba buf →
    next.client thread = .markDirty lba buf

theorem still_update {thread : Fin n} {pc : Pc setup}
    (hmarking : (machine.client thread).marking ≠ some lba) (other : Fin n)
    (buf : Block setup) (hother : machine.client other = .markDirty lba buf) :
    Function.update machine.client thread pc other = .markDirty lba buf := by
  have hne : other ≠ thread := by
    rintro rfl
    rw [hother] at hmarking
    exact hmarking rfl
  rw [Function.update_of_ne hne]
  exact hother

theorem device_or_content (hkeeps : machine.KeepsContent action)
    (hio : action.faultless = true) (hstep : machine.step action = some next)
    (lba : Lba setup) :
    readLba next.engine.device lba = readLba machine.engine.device lba ∨
      readLba next.engine.device lba = next.engine.content lba := by
  obtain ⟨horderly, hpairs⟩ := hkeeps
  cases step_cases hstep with
  | invoke howner hidle => exact .inl rfl
  | client hclient => exact hclient.device_content horderly hio lba
  | respond hdone => exact .inl rfl
  | flush hflush => exact hflush.device_content hpairs hio lba
  | owner howner => exact .inl rfl

/-- A block that is clear after a step is on the device, or the step has left
it as it was. -/
theorem cleared_step (hkeeps : machine.KeepsContent action)
    (hio : action.faultless = true) (hstep : machine.step action = some next)
    (hcleared : next.Cleared lba) :
    readLba next.engine.device lba = next.engine.content lba ∨
      Idles lba machine action next := by
  rcases device_or_content hkeeps hio hstep lba with hdevice | hcontent
  · obtain ⟨horderly, hpairs⟩ := hkeeps
    cases step_cases hstep with
    | @invoke thread call howner hidle =>
        refine .inr ⟨hcleared, hdevice, ?_, still_update ?_⟩
        · intro buf hcommits
          cases hcommits
        · rw [hidle]
          exact (Option.some_ne_none _).symm
    | @client thread choice pc engine hclient =>
        rcases hclient.cleared_before horderly hcleared with hbefore | habsent
        · by_cases hmarks : (machine.client thread).marking = some lba
          · left
            exact hclient.flagged horderly hmarks hcleared
          · refine .inr ⟨hbefore, hdevice, ?_, still_update hmarks⟩
            intro buf hcommits
            have hpc := hclient.opens horderly hcommits hcleared
            exact ⟨thread, (Function.update_self ..).trans hpc⟩
        · exact .inl (CacheEngine.content_of_absent habsent).symm
    | @respond thread outcome hdone =>
        refine .inr ⟨hcleared, hdevice, ?_, still_update ?_⟩
        · intro buf hcommits
          cases hcommits
        · rw [hdone]
          exact (Option.some_ne_none _).symm
    | flush hflush =>
        rcases hflush.cleared_before hpairs hio hcleared with hbefore | hcontent
        · refine .inr ⟨hbefore, hdevice, ?_, fun other buf hother => hother⟩
          intro buf hcommits
          cases hcommits
        · exact .inl hcontent
    | owner howner =>
        have hsilent : machine.commits action = none := by cases howner <;> rfl
        refine .inr ⟨?_, hdevice, ?_, fun other buf hother => hother⟩
        · cases howner with
          | started hrunning hchannel =>
              exact .inl (hcleared.resolve_right (Option.some_ne_none _).symm)
          | joined hjoining hexited =>
              exact .inl (hcleared.resolve_right (Option.some_ne_none _).symm)
          | _ => exact hcleared
        · intro buf hcommits
          rw [hsilent] at hcommits
          cases hcommits
  · exact .inl hcontent

/-! Up to a moment: what the device holds for a clear block goes back no further
than the writes to it that lack their flag. -/

section Pace

variable {initial : Lba setup → Block setup}
variable {history : List (BlockEvent setup)}

structure Paced (initial : Lba setup → Block setup)
    (history : List (BlockEvent setup)) (machine : Machine setup n) : Prop where
  staged : machine.Staged
  closable : machine.Closable
  unmanned : machine.engine.flusher = none → machine.flusher = .off
  content : machine.engine.content = Register.replay initial history
  abreast : ∀ lba, machine.Cleared lba → ∃ kept pending,
    history = kept ++ pending ∧
      readLba machine.engine.device lba = Register.replay initial kept lba ∧
      ∀ buf, .write lba buf ∈ pending →
        ∃ thread, machine.client thread = .markDirty lba buf

theorem paced_init (setup : Setup) (n : Nat) (image : Image) :
    (init setup n image).Paced (readLba image) [] where
  staged := staged_init setup n image
  closable := closable_init setup n image
  unmanned := fun _ => rfl
  content := by
    funext lba
    exact CacheEngine.content_of_absent (LbaTable.slotOf_new lba)
  abreast := fun lba _ => ⟨[], [], rfl, rfl, fun buf hmem => by cases hmem⟩

theorem unmanned_step
    (hunmanned : machine.engine.flusher = none → machine.flusher = .off)
    (hstep : machine.step action = some next) :
    next.engine.flusher = none → next.flusher = .off := by
  cases step_cases hstep with
  | invoke howner hidle => exact hunmanned
  | client hclient => exact fun hnone => hunmanned (hclient.channel_none_iff.mp hnone)
  | respond hdone => exact hunmanned
  | flush hflush =>
      obtain ⟨hbefore, _, hchannel⟩ := hflush.channel
      exact fun hnone => absurd (hunmanned (hchannel.mp hnone)) hbefore
  | owner howner =>
      cases howner with
      | started hrunning hchannel =>
          intro hnone
          cases hnone
      | flagStored hstoring =>
          exact fun hnone => hunmanned (Option.map_eq_none_iff.mp hnone)
      | signalSent hsending =>
          exact fun hnone => hunmanned (Option.map_eq_none_iff.mp hnone)
      | joined hjoining hexited => exact fun _ => rfl
      | _ => exact hunmanned

theorem Paced.step (hpaced : machine.Paced initial history)
    (hkeeps : machine.KeepsContent action) (hio : action.faultless = true)
    (hstep : machine.step action = some next) :
    next.Paced initial (history ++ machine.made action) := by
  have hcontent : next.engine.content =
      Register.replay initial (history ++ machine.made action) := by
    rw [hpaced.staged.content_step hkeeps hio hstep, hpaced.content,
      Register.replay_append, replay_made]
  refine ⟨hpaced.staged.step hkeeps.1 hio hstep, hpaced.closable.step hstep,
    unmanned_step hpaced.unmanned hstep, hcontent, ?_⟩
  intro lba hcleared
  rcases cleared_step hkeeps hio hstep hcleared with hdevice | hidles
  · refine ⟨history ++ machine.made action, [], (List.append_nil _).symm, ?_, ?_⟩
    · rw [hdevice, hcontent]
    · intro buf hmem
      cases hmem
  · obtain ⟨kept, pending, hsplit, hkept, hpending⟩ := hpaced.abreast lba hidles.cleared
    refine ⟨kept, pending ++ machine.made action, ?_, ?_, ?_⟩
    · rw [hsplit, List.append_assoc]
    · rw [hidles.device, hkept]
    · intro buf hmem
      rcases List.mem_append.mp hmem with hold | hnew
      · obtain ⟨thread, hthread⟩ := hpending buf hold
        exact ⟨thread, hidles.still thread buf hthread⟩
      · exact hidles.opens buf (mem_made hnew)

end Pace

/-! From a moment on: `past` is the history up to it, and `middle` the machine
there. -/

section Lag

variable {initial : Lba setup → Block setup}
variable {past history : List (BlockEvent setup)} {middle : Machine setup n}

/-- `block` is what `lba` held at some point since the moment, or just before
the writes to it that lacked their flag then. -/
def Fresh (initial : Lba setup → Block setup) (past : List (BlockEvent setup))
    (middle : Machine setup n) (history : List (BlockEvent setup))
    (lba : Lba setup) (block : Block setup) : Prop :=
  ∃ kept pending seen, past = kept ++ pending ∧ kept <+: seen ∧
    seen <+: history ∧ block = Register.replay initial seen lba ∧
    ∀ buf, .write lba buf ∈ pending →
      ∃ thread, middle.client thread = .markDirty lba buf

theorem Paced.fresh (hpaced : middle.Paced initial past)
    (hcleared : middle.Cleared lba) :
    Fresh initial past middle past lba (readLba middle.engine.device lba) := by
  obtain ⟨kept, pending, hsplit, hdevice, hpending⟩ := hpaced.abreast lba hcleared
  exact ⟨kept, pending, kept, hsplit, List.prefix_rfl, ⟨pending, hsplit.symm⟩,
    hdevice, hpending⟩

theorem Fresh.mono {block : Block setup} {longer : List (BlockEvent setup)}
    (hfresh : Fresh initial past middle history lba block)
    (hlonger : history <+: longer) :
    Fresh initial past middle longer lba block := by
  obtain ⟨kept, pending, seen, hsplit, hkept, hseen, hrest⟩ := hfresh
  exact ⟨kept, pending, seen, hsplit, hkept, hseen.trans hlonger, hrest⟩

theorem Paced.fresh_latest (hpaced : machine.Paced initial history)
    (hlater : past <+: history)
    (hdevice : readLba machine.engine.device lba = machine.engine.content lba) :
    Fresh initial past middle history lba (readLba machine.engine.device lba) := by
  refine ⟨past, [], history, (List.append_nil _).symm, hlater, List.prefix_rfl, ?_, ?_⟩
  · rw [hdevice, hpaced.content]
  · intro buf hmem
    cases hmem

/-- Where the flush thread stands since the moment, after `turns` moves: short of
its next snapshot, inside the loop over it, or past that. -/
inductive Catching (initial : Lba setup → Block setup)
    (past : List (BlockEvent setup)) (middle : Machine setup n)
    (history : List (BlockEvent setup)) (turns : Nat)
    (machine : Machine setup n) : Prop
  | before
      (hturns : turns + machine.flusher.toSnapshot ≤ 2 * setup.maxLba + 5)
      (hfresh : ∀ lba, machine.Cleared lba → Fresh initial past middle history
        lba (readLba machine.engine.device lba))
  | within (hturns : turns + machine.flusher.loopLeft ≤ 4 * setup.maxLba + 5)
      (hfresh : ∀ lba, lba ∈ machine.flusher.pairs.map Prod.fst ∨
        Fresh initial past middle history lba (readLba machine.engine.device lba))
  | caughtUp (hfresh : ∀ lba, Fresh initial past middle history lba
      (readLba machine.engine.device lba))

theorem flusher_elsewhere
    (hunmanned : machine.engine.flusher = none → machine.flusher = .off)
    (hstep : machine.step action = some next) (hother : action.isFlush = false) :
    next.flusher.toSnapshot = machine.flusher.toSnapshot ∧
      next.flusher.loopLeft = machine.flusher.loopLeft ∧
      next.flusher.pairs = machine.flusher.pairs := by
  cases step_cases hstep with
  | flush hflush => cases hother
  | owner howner =>
      cases howner with
      | started hrunning hchannel =>
          rw [hunmanned hchannel]
          exact ⟨rfl, rfl, rfl⟩
      | joined hjoining hexited =>
          rw [hexited]
          exact ⟨rfl, rfl, rfl⟩
      | _ => exact ⟨rfl, rfl, rfl⟩
  | _ => exact ⟨rfl, rfl, rfl⟩

section Step

variable (hpaced : machine.Paced initial history) (hlater : past <+: history)
variable (hkeeps : machine.KeepsContent action) (hio : action.faultless = true)
variable (hstep : machine.step action = some next)

include hpaced hlater hkeeps hio hstep

theorem Fresh.step
    (hfresh : Fresh initial past middle history lba
      (readLba machine.engine.device lba)) :
    Fresh initial past middle (history ++ machine.made action) lba
      (readLba next.engine.device lba) := by
  have hlonger := List.prefix_append history (machine.made action)
  rcases device_or_content hkeeps hio hstep lba with hsame | hcontent
  · rw [hsame]
    exact hfresh.mono hlonger
  · exact (hpaced.step hkeeps hio hstep).fresh_latest (hlater.trans hlonger) hcontent

theorem Fresh.cleared_step
    (hfresh : machine.Cleared lba → Fresh initial past middle history lba
      (readLba machine.engine.device lba)) (hcleared : next.Cleared lba) :
    Fresh initial past middle (history ++ machine.made action) lba
      (readLba next.engine.device lba) := by
  have hlonger := List.prefix_append history (machine.made action)
  rcases Machine.cleared_step hkeeps hio hstep hcleared with hcontent | hidles
  · exact (hpaced.step hkeeps hio hstep).fresh_latest (hlater.trans hlonger) hcontent
  · rw [hidles.device]
    exact (hfresh hidles.cleared).mono hlonger

theorem snapshot_or_closer {turns : Nat} (hflushes : action.isFlush = true)
    (hturns : turns + machine.flusher.toSnapshot ≤ 2 * setup.maxLba + 5)
    (hfresh : ∀ lba, machine.Cleared lba → Fresh initial past middle history
      lba (readLba machine.engine.device lba)) :
    Catching initial past middle (history ++ machine.made action) (turns + 1)
      next := by
  have hcleared : ∀ lba, next.Cleared lba → Fresh initial past middle
      (history ++ machine.made action) lba (readLba next.engine.device lba) :=
    fun lba => Fresh.cleared_step hpaced hlater hkeeps hio hstep (hfresh lba)
  cases step_cases hstep with
  | @flush choice pc engine hflush =>
      rcases hflush.toSnapshot hio with ⟨signal, hpc, rfl, rfl⟩ | hcloser
      · rw [hpc] at hturns
        simp only [FlusherPc.toSnapshot] at hturns
        have hlength := length_dirtyEntries_le choice.order machine.engine.table
        refine .within ?_ fun lba => ?_
        · simp only [FlusherPc.loopLeft_resume]
          omega
        · simp only [FlusherPc.pairs_resume]
          by_cases hdirty : machine.engine.table.dirtyOf lba = some true
          · left
            exact LbaTable.dirty_mem_dirtyEntries hpaced.staged.coherent.keyed
              choice.order lba hdirty
          · exact .inr (hcleared lba (.inl hdirty))
      · refine .before ?_ hcleared
        simp only
        omega
  | owner howner => cases howner <;> cases hflushes
  | _ => cases hflushes

theorem loop_closer {turns : Nat} (hflushes : action.isFlush = true)
    (hloop : 0 < machine.flusher.loopLeft)
    (hturns : turns + machine.flusher.loopLeft ≤ 4 * setup.maxLba + 5)
    (hfresh : ∀ lba, lba ∈ machine.flusher.pairs.map Prod.fst ∨
      Fresh initial past middle history lba (readLba machine.engine.device lba)) :
    Catching initial past middle (history ++ machine.made action) (turns + 1)
      next := by
  have hnext := hpaced.step hkeeps hio hstep
  have hlonger : past <+: history ++ machine.made action :=
    hlater.trans (List.prefix_append _ _)
  have hkept : ∀ lba, Fresh initial past middle history lba
      (readLba machine.engine.device lba) → Fresh initial past middle
      (history ++ machine.made action) lba (readLba next.engine.device lba) :=
    fun lba hpast => hpast.step hpaced hlater hkeeps hio hstep
  cases step_cases hstep with
  | @flush choice pc engine hflush =>
      have hcloser := hflush.loopLeft hio hloop
      refine .within ?_ fun lba => ?_
      · simp only
        omega
      · rcases hfresh lba with hahead | hpast
        · rcases hflush.pairs_cases hkeeps.2 hio hahead with hstill | hcontent
          · exact .inl hstill
          · exact .inr (hnext.fresh_latest hlonger hcontent)
        · exact .inr (hkept lba hpast)
  | owner howner => cases howner <;> cases hflushes
  | _ => cases hflushes

theorem Catching.step {turns : Nat}
    (hcatching : Catching initial past middle history turns machine) :
    Catching initial past middle (history ++ machine.made action)
      (turns + if action.isFlush then 1 else 0) next := by
  cases hcatching with
  | caughtUp hfresh =>
      exact .caughtUp fun lba => (hfresh lba).step hpaced hlater hkeeps hio hstep
  | before hturns hfresh =>
      cases hkind : action.isFlush with
      | false =>
          obtain ⟨hsame, _, _⟩ := flusher_elsewhere hpaced.unmanned hstep hkind
          refine .before (by simpa [hsame] using hturns) fun lba => ?_
          exact Fresh.cleared_step hpaced hlater hkeeps hio hstep (hfresh lba)
      | true =>
          rw [if_pos rfl]
          exact snapshot_or_closer hpaced hlater hkeeps hio hstep hkind hturns hfresh
  | within hturns hfresh =>
      rcases Nat.eq_zero_or_pos machine.flusher.loopLeft with hdone | hloop
      · refine .caughtUp fun lba => ?_
        have hpast : Fresh initial past middle history lba
            (readLba machine.engine.device lba) := by
          apply (hfresh lba).resolve_left
          rw [FlusherPc.pairs_of_loopLeft hdone]
          exact List.not_mem_nil
        exact hpast.step hpaced hlater hkeeps hio hstep
      · cases hkind : action.isFlush with
        | false =>
            obtain ⟨_, hsame, hpairs⟩ :=
              flusher_elsewhere hpaced.unmanned hstep hkind
            refine .within (by simpa [hsame] using hturns) fun lba => ?_
            rw [hpairs]
            exact (hfresh lba).imp_right
              fun hpast => hpast.step hpaced hlater hkeeps hio hstep
        | true =>
            rw [if_pos rfl]
            exact loop_closer hpaced hlater hkeeps hio hstep hkind hloop hturns hfresh

end Step

end Lag

theorem trace_made_of_flushes {run : List (Action setup n)}
    (hflushes : ∀ action ∈ run, action.isFlush = true) :
    Run.trace step made machine run = [] := by
  induction run generalizing machine with
  | nil => rfl
  | cons action rest ih =>
      have hsilent : machine.made action = [] := by
        cases action with
        | flush choice => rfl
        | _ => cases hflushes _ List.mem_cons_self
      simp only [Run.trace, hsilent, List.nil_append]
      split
      · rfl
      · exact ih fun other hmem => hflushes other (List.mem_cons_of_mem _ hmem)

/-- Any number of clients beside the flush thread, in an orderly run without I/O
failures: whatever moment is picked, once the flush thread has made
`4 * max_lba + 5` more moves the device holds every block as it was at the
moment or later, up to writes that lacked their flag at the moment. -/
theorem device_lag_bounded {image : Image} {before after : List (Action setup n)}
    {middle : Machine setup n}
    (hguard : Run.Along step KeepsContent (init setup n image) (before ++ after))
    (hio : ∀ action ∈ before ++ after, action.faultless = true)
    (hbefore : Run.exec step (init setup n image) before = some middle)
    (hafter : Run.exec step middle after = some machine)
    (hturns : 4 * setup.maxLba + 5 ≤ after.countP Action.isFlush)
    (lba : Lba setup) :
    Fresh (readLba image) (Run.trace step made (init setup n image) before) middle
      (Run.trace step made (init setup n image) (before ++ after)) lba
      (readLba machine.engine.device lba) := by
  have hallowed := Run.along_and hguard (Run.along_of_forall hio)
  obtain ⟨hallowedBefore, hallowedAfter⟩ := (Run.along_append hbefore).mp hallowed
  have hmiddle : middle.Paced (readLba image)
      (Run.trace step made (init setup n image) before) :=
    Run.invariant_trace (paced_init setup n image)
      (fun _ _ _ _ hpaced hallowed hstep =>
        hpaced.step hallowed.1 hallowed.2 hstep) hallowedBefore hbefore
  rw [Run.trace_append hbefore]
  generalize Run.trace step made (init setup n image) before = past at hmiddle ⊢
  have hstart : Catching (readLba image) past middle past 0 middle := by
    refine .before ?_ fun lba => hmiddle.fresh
    rw [Nat.zero_add]
    exact FlusherPc.toSnapshot_le hmiddle.closable.short
  obtain ⟨_, _, hcatching⟩ : Run.exec step middle after = some machine ∧
      machine.Paced (readLba image) (past ++ Run.trace step made middle after) ∧
      Catching (readLba image) past middle
        (past ++ Run.trace step made middle after)
        (after.countP Action.isFlush) machine := by
    apply Run.invariant
      (I := fun later state => Run.exec step middle later = some state ∧
        state.Paced (readLba image) (past ++ Run.trace step made middle later) ∧
        Catching (readLba image) past middle
          (past ++ Run.trace step made middle later)
          (later.countP Action.isFlush) state) ?_ ?_ hallowedAfter hafter
    · simp only [Run.trace, List.append_nil]
      exact ⟨rfl, hmiddle, hstart⟩
    · rintro later state action next ⟨hreached, hpaced, hcatching⟩ hallowed hstep
      rw [Run.trace_append hreached, Run.trace_singleton, ← List.append_assoc,
        List.countP_append, List.countP_singleton]
      exact ⟨Run.exec_concat_eq_some.mpr ⟨state, hreached, hstep⟩,
        hpaced.step hallowed.1 hallowed.2 hstep,
        hcatching.step hpaced (List.prefix_append _ _) hallowed.1 hallowed.2 hstep⟩
  cases hcatching with
  | before hshort hfresh =>
      have hpos := machine.flusher.toSnapshot_pos
      omega
  | within hshort hfresh =>
      apply (hfresh lba).resolve_left
      rw [FlusherPc.pairs_of_loopLeft (by omega)]
      exact List.not_mem_nil
  | caughtUp hfresh => exact hfresh lba

/-- A write that is answered before the flush thread moves. -/
def answeredWrite : List (Action (.mini 0) 1) :=
  List.flatten [
    [.start, .invoke lone (.write 0 fun _ => 5)], advance lone 6 1,
    [.respond lone]]

theorem answeredWrite_caught_up :
    ∃ machine, Run.exec step (init (.mini 0) 1 stripes)
        (answeredWrite ++ .replicate 21 (.flush (.calm 2))) = some machine ∧
      readLba machine.engine.device (0 : Lba (.mini 0)) = fun _ => 5 := by
  have hidle : (Run.exec step (init (.mini 0) 1 stripes) answeredWrite).map
      (fun machine => (machine.client 0).isIdle) = some true := by
    decide +kernel
  obtain ⟨middle, hbefore, hquiet⟩ := Option.map_eq_some_iff.mp hidle
  have hends : (Run.exec step (init (.mini 0) 1 stripes)
      (answeredWrite ++ .replicate 21 (.flush (.calm 2)))).isSome = true := by
    decide +kernel
  obtain ⟨machine, hrun⟩ := Option.isSome_iff_exists.mp hends
  have hafter := hrun
  rw [Run.exec_append, hbefore, Option.bind_some] at hafter
  have hguard : Run.Along step KeepsContent (init (.mini 0) 1 stripes)
      (answeredWrite ++ .replicate 21 (.flush (.calm 2))) := by
    decide +kernel
  have hmade : Run.trace step made (init (.mini 0) 1 stripes) answeredWrite =
      [.write 0 fun _ => 5] := rfl
  have hall : Run.trace step made (init (.mini 0) 1 stripes)
      (answeredWrite ++ .replicate 21 (.flush (.calm 2))) =
      [.write 0 fun _ => 5] := by
    have hflushes : ∀ action ∈ List.replicate 21
        (Action.flush (.calm 2) : Action (.mini 0) 1), action.isFlush = true := by
      decide +kernel
    rw [Run.trace_append hbefore, hmade, trace_made_of_flushes hflushes,
      List.append_nil]
  obtain ⟨kept, pending, seen, hsplit, hkept, hseen, hdevice, hpending⟩ :=
    device_lag_bounded hguard (by decide +kernel) hbefore hafter
      (by decide +kernel) 0
  rw [hmade] at hsplit
  rw [hall] at hseen
  refine ⟨machine, hrun, ?_⟩
  have hnone : pending = [] := by
    rw [List.eq_nil_iff_forall_not_mem]
    intro event hmem
    have hevent : event = .write 0 fun _ => 5 := by
      have hin : event ∈ kept ++ pending := List.mem_append_right _ hmem
      rwa [← hsplit, List.mem_singleton] at hin
    subst hevent
    obtain ⟨thread, hmarking⟩ := hpending _ hmem
    rw [Subsingleton.elim thread 0, Pc.isIdle_iff.mp hquiet] at hmarking
    cases hmarking
  rw [hnone, List.append_nil] at hsplit
  rw [← hsplit] at hkept
  have hlast : seen = [.write 0 fun _ => 5] :=
    hseen.eq_of_length_le hkept.length_le
  rw [hdevice, hlast]
  simp only [Register.replay, Function.update_self]

end Machine

end AsmCacheInject.Concurrent

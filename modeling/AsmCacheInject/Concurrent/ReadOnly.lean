import AsmCacheInject.Concurrent.Syscalls

namespace AsmCacheInject.Concurrent

open AsmCacheInject.Cache
open AsmCacheInject.Data
open AsmCacheInject.Engine
open AsmCacheInject.Flush

variable {setup : Setup} {n : Nat}

/-! Read-only engines.  The eviction code is shared with the writable mode; what
keeps it from writing is that no entry ever becomes dirty. -/

/-- The control points of a read that never meets a dirty block. -/
def Pc.OnlyReads : Pc setup → Prop
  | .allocate (.read _) => True
  | .select (.read _) => True
  | .removeVictim (.read _) _ => True
  | .freeVictim (.read _) _ => True
  | .reallocate (.read _) => True
  | .idle => True
  | .readLookup _ => True
  | .readHit _ _ => True
  | .fetch _ _ => True
  | .insertRead _ _ => True
  | .copyRead _ _ => True
  | .done (.readOk _ _) => True
  | .done (.failed _) => True
  | _ => False

theorem Call.enter_write_readOnly (hreadOnly : setup.readOnly = true) (lba : Nat)
    (buf : Block setup) :
    (Call.write lba buf).enter = .done (.failed
      (if lba < setup.maxLba then
        .config "write rejected: engine is in read-only mode"
      else .lbaOutOfRange lba setup.maxLba)) := by
  by_cases hlba : lba < setup.maxLba <;> simp [Call.enter, hreadOnly, hlba]

theorem Call.onlyReads_enter (hreadOnly : setup.readOnly = true)
    (call : Call setup) : call.enter.OnlyReads := by
  cases call with
  | read lba =>
      simp only [Call.enter]
      split <;> trivial
  | write lba buf =>
      rw [Call.enter_write_readOnly hreadOnly]
      trivial

theorem ClientStep.onlyReads {choice : Choice setup}
    {engine nextEngine : CacheEngine setup} {pc next : Pc setup}
    (hstep : ClientStep choice engine pc next nextEngine)
    (hkeyed : engine.table.SelfKeyed)
    (hclean : ∀ lba, engine.table.dirtyOf lba ≠ some true)
    (hreads : pc.OnlyReads) :
    next.OnlyReads ∧ nextEngine.device = engine.device ∧
      nextEngine.flusher = engine.flusher ∧
      ∀ lba, nextEngine.table.dirtyOf lba ≠ some true := by
  cases hstep with
  | lookupHit hslot =>
      refine ⟨trivial, rfl, rfl, ?_⟩
      rwa [LbaTable.dirtyOf_getAndTouch]
  | lookupMiss habsent => exact ⟨trivial, rfl, rfl, hclean⟩
  | readHit => exact ⟨trivial, rfl, rfl, hclean⟩
  | @takeFree miss slot rest hfree =>
      cases miss with
      | read lba => exact ⟨trivial, rfl, rfl, hclean⟩
      | write lba buf => exact hreads.elim
  | @poolEmpty miss hfree =>
      cases miss with
      | read lba => exact ⟨trivial, rfl, rfl, hclean⟩
      | write lba buf => exact hreads.elim
  | nothingToEvict hselect => exact ⟨trivial, rfl, rfl, hclean⟩
  | @chooseDirty miss victim hselect hflush =>
      have hdirty := (selectEvictionCandidate_spec hkeyed hselect).2
      rw [hflush] at hdirty
      exact absurd hdirty (hclean victim.lba)
  | @chooseClean miss victim hselect hflush =>
      cases miss with
      | read lba => exact ⟨trivial, rfl, rfl, hclean⟩
      | write lba buf => exact hreads.elim
  | @removeVictim miss victim =>
      have hremoved : ∀ lba, (engine.table.remove victim.lba).2.dirtyOf lba ≠
          some true := by
        intro lba
        rw [LbaTable.dirtyOf_remove]
        split
        · simp
        · exact hclean lba
      cases miss with
      | read lba => exact ⟨trivial, rfl, rfl, hremoved⟩
      | write lba buf => exact hreads.elim
  | @freeVictim miss victim =>
      cases miss with
      | read lba => exact ⟨trivial, rfl, rfl, hclean⟩
      | write lba buf => exact hreads.elim
  | @retake miss slot rest hfree =>
      cases miss with
      | read lba => exact ⟨trivial, rfl, rfl, hclean⟩
      | write lba buf => exact hreads.elim
  | exhausted hfree => exact ⟨trivial, rfl, rfl, hclean⟩
  | fetched hio => exact ⟨trivial, rfl, rfl, hclean⟩
  | fetchTorn hio => exact ⟨trivial, rfl, rfl, hclean⟩
  | @insertRead lba slot =>
      refine ⟨trivial, rfl, rfl, ?_⟩
      intro other
      rw [LbaTable.dirtyOf_insert]
      split
      · simp [CacheEntry.new]
      · exact hclean other
  | copyRead => exact ⟨trivial, rfl, rfl, hclean⟩
  | _ => exact hreads.elim

namespace Machine

structure Unwritten (image : Image) (machine : Machine setup n) : Prop where
  keyed : machine.engine.table.SelfKeyed
  clean : ∀ lba, machine.engine.table.dirtyOf lba ≠ some true
  device : machine.engine.device = image
  channel : machine.engine.flusher = none
  flusher : machine.flusher = .off
  clients : ∀ thread, (machine.client thread).OnlyReads

theorem unwritten_init (setup : Setup) (n : Nat) (image : Image) :
    (init setup n image).Unwritten image where
  keyed := LbaTable.selfKeyed_new
  clean := by simp [init, CacheEngine.boot]
  device := rfl
  channel := rfl
  flusher := rfl
  clients := fun _ => trivial

theorem step_start_readOnly (hreadOnly : setup.readOnly = true)
    {machine next : Machine setup n}
    (hstep : machine.step .start = some next) : next = machine := by
  simp only [Machine.step, start, hreadOnly, if_true, ite_self] at hstep
  split at hstep
  · cases hstep
    rfl
  · cases hstep

theorem Unwritten.owner (hreadOnly : setup.readOnly = true) {image : Image}
    {machine : Machine setup n} {action : Action setup n}
    (hunwritten : machine.Unwritten image) {channel : Option FlushChannel}
    {flusher : FlusherPc setup} {owner : OwnerPc}
    (howner : OwnerStep machine action channel flusher owner)
    (hstep : machine.step action = some { machine with
      engine := { machine.engine with flusher := channel }
      flusher := flusher
      owner := owner }) :
    channel = none ∧ flusher = .off := by
  have hchannel := hunwritten.channel
  cases howner with
  | started _ _ =>
      have hsame := congrArg Machine.flusher
        (step_start_readOnly hreadOnly hstep)
      rw [hunwritten.flusher] at hsame
      cases hsame
  | flagStored _ => exact ⟨by rw [hchannel]; rfl, hunwritten.flusher⟩
  | signalSent _ => exact ⟨by rw [hchannel]; rfl, hunwritten.flusher⟩
  | joined _ _ => exact ⟨rfl, rfl⟩
  | _ => exact ⟨hchannel, hunwritten.flusher⟩

theorem Unwritten.step (hreadOnly : setup.readOnly = true) {image : Image}
    {machine next : Machine setup n} {action : Action setup n}
    (hunwritten : machine.Unwritten image)
    (hstep : machine.step action = some next) : next.Unwritten image := by
  have hclients : ∀ thread, (next.client thread).OnlyReads := by
    intro thread
    rcases client_cases hstep thread with
      hsame | hidle | ⟨call, _, henter⟩ | ⟨choice, _, hmoved⟩
    · rw [hsame]
      exact hunwritten.clients thread
    · rw [hidle]
      trivial
    · rw [henter]
      exact call.onlyReads_enter hreadOnly
    · exact (hmoved.onlyReads hunwritten.keyed hunwritten.clean
        (hunwritten.clients thread)).1
  cases step_cases hstep with
  | invoke howner hidle =>
      exact ⟨hunwritten.keyed, hunwritten.clean, hunwritten.device,
        hunwritten.channel, hunwritten.flusher, hclients⟩
  | @client thread choice pc engine hmoved =>
      obtain ⟨_, hdevice, hchannel, hclean⟩ := hmoved.onlyReads
        hunwritten.keyed hunwritten.clean (hunwritten.clients thread)
      exact ⟨hmoved.selfKeyed hunwritten.keyed, hclean,
        hdevice.trans hunwritten.device, hchannel.trans hunwritten.channel,
        hunwritten.flusher, hclients⟩
  | respond hdone =>
      exact ⟨hunwritten.keyed, hunwritten.clean, hunwritten.device,
        hunwritten.channel, hunwritten.flusher, hclients⟩
  | flush hmoved =>
      rw [hunwritten.flusher] at hmoved
      cases hmoved
  | owner howner =>
      obtain ⟨hchannel, hflusher⟩ := hunwritten.owner hreadOnly howner hstep
      exact ⟨hunwritten.keyed, hunwritten.clean, hunwritten.device, hchannel,
        hflusher, hclients⟩

theorem Unwritten.issued {image : Image} {machine : Machine setup n}
    (hunwritten : machine.Unwritten image) {action : Action setup n}
    {call : Syscall setup} (hissued : call ∈ machine.issued action) :
    ∃ lba, call = .pread lba := by
  cases action with
  | client thread choice =>
      have hreads := hunwritten.clients thread
      simp only [Machine.issued] at hissued
      cases hpc : machine.client thread with
      | flushVictim miss victim =>
          rw [hpc] at hreads
          exact hreads.elim
      | fetch lba slot =>
          rw [hpc] at hissued
          exact ⟨lba, List.mem_singleton.mp hissued⟩
      | _ =>
          rw [hpc] at hissued
          cases hissued
  | flush choice =>
      simp only [Machine.issued, hunwritten.flusher, FlusherPc.issued] at hissued
      cases hissued
  | _ => cases hissued

theorem unwritten_run (hreadOnly : setup.readOnly = true) {image : Image}
    {run : List (Action setup n)} {final : Machine setup n}
    (hrun : Run.exec step (init setup n image) run = some final) :
    final.Unwritten image :=
  Run.invariant_state (unwritten_init setup n image)
    (fun _ _ _ hunwritten _ hstep => hunwritten.step hreadOnly hstep)
    (Run.along_of_forall fun _ _ => trivial) hrun

/-- A read-only engine never touches its device, whatever its clients do and
whatever fails: all it issues are reads, nothing is dirty, no client comes to
the flush before an eviction, and a write ends at once with an error. -/
theorem readOnly_never_writes (hreadOnly : setup.readOnly = true)
    (image : Image) (run : List (Action setup n)) (final : Machine setup n)
    (hrun : Run.exec step (init setup n image) run = some final) :
    (∀ call ∈ Run.trace step issued (init setup n image) run,
      ∃ lba, call = .pread lba) ∧
    final.engine.device = image ∧
    (∀ lba, final.engine.table.dirtyOf lba ≠ some true) ∧
    (∀ thread miss victim, final.client thread ≠ .flushVictim miss victim) ∧
    (∀ thread lba buf result,
      final.client thread ≠ .done (.writeOk lba buf result)) ∧
    ∀ thread lba buf next,
      final.step (.invoke thread (.write lba buf)) = some next →
      next.engine = final.engine ∧
        next.client thread = .done (.failed
          (if lba < setup.maxLba then
            .config "write rejected: engine is in read-only mode"
          else .lbaOutOfRange lba setup.maxLba)) ∧
        ∀ returned, next.step (.respond thread) = some returned →
          returned.engine = final.engine := by
  have hunwritten := unwritten_run hreadOnly hrun
  refine ⟨?_, hunwritten.device, hunwritten.clean, ?_, ?_, ?_⟩
  · intro call hcall
    obtain ⟨past, action, rest, machine, _, hpast, hissued⟩ := Run.mem_trace hcall
    exact (unwritten_run hreadOnly hpast).issued hissued
  · intro thread miss victim hpc
    have hreads := hunwritten.clients thread
    rw [hpc] at hreads
    exact hreads
  · intro thread lba buf result hpc
    have hreads := hunwritten.clients thread
    rw [hpc] at hreads
    exact hreads
  · intro thread lba buf next hstep
    cases step_cases hstep with
    | invoke howner hidle =>
        refine ⟨rfl, ?_, ?_⟩
        · simp only [Function.update_self]
          exact Call.enter_write_readOnly hreadOnly lba buf
        · intro returned hreturn
          cases step_cases hreturn with
          | respond hdone => rfl
          | owner howner => cases howner
    | owner howner => cases howner

def readOnlyMini : Setup :=
  { Setup.mini 0 with readOnly := true }

def readOnlyTraffic : List (Action readOnlyMini 2) :=
  List.flatten [
    [.start], [.invoke clientA (.read 0)], advance clientA 5 1,
    [.invoke clientB (.read 1)], advance clientB 6 2,
    [.client clientB { Choice.calm 3 with
      io := .fail ⟨.other, "Input/output error (os error 5)"⟩ fun _ => 9 }],
    [.respond clientA], [.invoke clientA (.write 2 fun _ => 7)],
    [.respond clientA], [.respond clientB], [.stop]]

theorem readOnlyTraffic_never_writes :
    (Run.exec step (init readOnlyMini 2 stripes) readOnlyTraffic).isSome = true ∧
      ∀ call ∈ Run.trace step issued (init readOnlyMini 2 stripes)
        readOnlyTraffic, ∃ lba, call = .pread lba := by
  have hruns : (Run.exec step (init readOnlyMini 2 stripes)
      readOnlyTraffic).isSome = true := by
    decide +kernel
  obtain ⟨machine, hrun⟩ := Option.isSome_iff_exists.mp hruns
  exact ⟨hruns, (readOnly_never_writes rfl stripes readOnlyTraffic machine
    hrun).1⟩

end Machine

end AsmCacheInject.Concurrent

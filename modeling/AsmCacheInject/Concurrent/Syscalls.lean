import AsmCacheInject.Concurrent.Alone
import AsmCacheInject.Engine.BlockTransfer

namespace AsmCacheInject.Concurrent

open AsmCacheInject.Cache
open AsmCacheInject.Data
open AsmCacheInject.Data.Word
open AsmCacheInject.Engine
open AsmCacheInject.Io

variable {setup : Setup} {n : Nat}

/-! The device calls behind the machine's steps.  A block transfer of the
machine is one run of a transfer loop. -/

inductive Syscall (setup : Setup)
  | pread (lba : Lba setup)
  | pwrite (lba : Lba setup)
  | fsync
  deriving DecidableEq

namespace Syscall

/-- The block a transfer is for. -/
def target : Syscall setup → Option (Lba setup)
  | .pread lba => some lba
  | .pwrite lba => some lba
  | .fsync => none

def attempts (answers : List KernelAnswer) : Syscall setup → List Attempt
  | .pread lba =>
      (Io.readLba (.ofNat lba.val) (.ofNat setup.blockSize) answers).attempts
  | .pwrite lba =>
      (Io.writeLba (.ofNat lba.val) (.ofNat setup.blockSize) answers).attempts
  | .fsync => []

end Syscall

def Pc.issued : Pc setup → List (Syscall setup)
  | .flushVictim _ victim => [.pwrite victim.lba]
  | .fetch lba _ => [.pread lba]
  | _ => []

def FlusherPc.issued : FlusherPc setup → List (Syscall setup)
  | .writing _ lba _ _ _ => [.pwrite lba]
  | .syncing _ => [.fsync]
  | _ => []

def Machine.issued (machine : Machine setup n) :
    Action setup n → List (Syscall setup)
  | .client thread _ => (machine.client thread).issued
  | .flush _ => machine.flusher.issued
  | _ => []

/-! Where the calls of one transfer land. -/

section Addressing

/-- One call of a transfer for `lba`: neither the product nor the sum behind
its offset wraps, the offset is a valid `off_t`, and the bytes it asks for are
the rest of the block. -/
structure OnBlock (lba : Lba setup) (attempt : Attempt) : Prop where
  product : (UInt64.ofNat lba.val * UInt64.ofNat setup.blockSize).toNat =
    lba.val * setup.blockSize
  position : ∃ total < setup.blockSize,
    attempt.offset.toNat = lba.val * setup.blockSize + total ∧
      attempt.count.toNat = setup.blockSize - total
  offT : attempt.offset.toInt64.toInt = attempt.offset.toNat
  block_start : lba.val * setup.blockSize ≤ attempt.offset.toNat
  block_end : attempt.offset.toNat + attempt.count.toNat ≤
    (lba.val + 1) * setup.blockSize
  device_end : attempt.offset.toNat + attempt.count.toNat ≤ setup.totalBytes

theorem OnBlock.disjoint {first second : Lba setup}
    {firstAttempt secondAttempt : Attempt} (hfirst : OnBlock first firstAttempt)
    (hsecond : OnBlock second secondAttempt) (hne : first ≠ second) :
    firstAttempt.offset.toNat + firstAttempt.count.toNat ≤
        secondAttempt.offset.toNat ∨
      secondAttempt.offset.toNat + secondAttempt.count.toNat ≤
        firstAttempt.offset.toNat := by
  have hval : first.val ≠ second.val := fun heq => hne (Fin.ext heq)
  have hfirstEnd := hfirst.block_end
  have hsecondEnd := hsecond.block_end
  have hfirstStart := hfirst.block_start
  have hsecondStart := hsecond.block_start
  rw [Nat.succ_mul] at hfirstEnd hsecondEnd
  have hwindows : first.val * setup.blockSize + setup.blockSize ≤
        second.val * setup.blockSize ∨
      second.val * setup.blockSize + setup.blockSize ≤
        first.val * setup.blockSize :=
    ByteImage.numbered_windows_disjoint hval
  rcases hwindows with hbefore | hafter
  · exact .inl (by omega)
  · exact .inr (by omega)

theorem transferLoop_onBlock (hsize : setup.totalBytes ≤ 2 ^ 63 - 1)
    {direction : Direction} {lba : Lba setup} {answers : List KernelAnswer}
    {attempt : Attempt}
    (hmem : attempt ∈ (transferLoop direction
      (UInt64.ofNat lba.val * UInt64.ofNat setup.blockSize)
      (.ofNat setup.blockSize) 0 answers).attempts) :
    OnBlock lba attempt := by
  have hproduct := toNat_offset lba
  have hblock := toNat_blockSize lba
  have hend := lba_end_le lba
  have hlt := setup.totalBytes_lt
  obtain ⟨hstart, hcount, hsum⟩ := mem_transferLoop
    (by rw [hproduct, hblock]; omega) UInt64.zero_le hmem
  rw [hproduct, UInt64.toNat_zero, Nat.add_zero] at hstart
  rw [hproduct, hblock] at hsum
  exact {
    product := hproduct
    position := ⟨attempt.offset.toNat - lba.val * setup.blockSize,
      by omega, by omega, by omega⟩
    offT := toInt_toInt64 (by omega)
    block_start := hstart
    block_end := by rw [Nat.succ_mul]; omega
    device_end := by omega }

theorem Syscall.attempts_onBlock (hsize : setup.totalBytes ≤ 2 ^ 63 - 1)
    {call : Syscall setup} {lba : Lba setup} (htarget : call.target = some lba)
    {answers : List KernelAnswer} {attempt : Attempt}
    (hmem : attempt ∈ call.attempts answers) : OnBlock lba attempt := by
  cases call with
  | pread block =>
      cases htarget
      exact transferLoop_onBlock hsize hmem
  | pwrite block =>
      cases htarget
      exact transferLoop_onBlock hsize hmem
  | fsync => cases htarget

theorem Syscall.page_dvd_first {call : Syscall setup} {lba : Lba setup}
    (htarget : call.target = some lba) {answers : List KernelAnswer}
    {first : Attempt} (hfirst : (call.attempts answers).head? = some first) :
    4096 ∣ first.offset.toNat := by
  have hpage : 4096 ∣ lba.val * setup.blockSize :=
    setup.page_dvd.mul_left lba.val
  cases call with
  | pread block =>
      cases htarget
      rw [head_transferLoop hfirst, toNat_offset]
      exact hpage
  | pwrite block =>
      cases htarget
      rw [head_transferLoop hfirst, toNat_offset]
      exact hpage
  | fsync => cases htarget

end Addressing

/-! Where the addresses come from.  Evictions and flush cycles take theirs from
entries that were inserted arbitrarily long ago. -/

def Call.address : Call setup → Nat
  | .read lba => lba
  | .write lba _ => lba

/-- Some client call of the run named this block. -/
def Called (run : List (Action setup n)) (lba : Lba setup) : Prop :=
  ∃ thread call, .invoke thread call ∈ run ∧ call.address = lba.val

theorem Called.later {past : List (Action setup n)} {lba : Lba setup}
    (hcalled : Called past lba) (action : Action setup n) :
    Called (past ++ [action]) lba := by
  obtain ⟨thread, call, hmem, heq⟩ := hcalled
  exact ⟨thread, call, List.mem_append_left _ hmem, heq⟩

def Pc.lbas : Pc setup → List (Lba setup)
  | .readLookup lba => [lba]
  | .allocate miss => [miss.lba]
  | .select miss => [miss.lba]
  | .flushVictim miss victim => [miss.lba, victim.lba]
  | .wakeForVictim miss _ => [miss.lba]
  | .removeVictim miss _ => [miss.lba]
  | .freeVictim miss _ => [miss.lba]
  | .reallocate miss => [miss.lba]
  | .fetch lba _ => [lba]
  | .insertRead lba _ => [lba]
  | .writeLookup lba _ => [lba]
  | .fill lba _ _ => [lba]
  | .insertWrite lba _ _ => [lba]
  | _ => []

theorem Call.lbas_enter {call : Call setup} {lba : Lba setup}
    (hmem : lba ∈ call.enter.lbas) : call.address = lba.val := by
  rcases call.enter_cases with ⟨error, henter⟩ | ⟨entered, hcall, henter⟩ |
    ⟨entered, buf, hcall, henter⟩
  · rw [henter] at hmem
    cases hmem
  · rw [henter] at hmem
    rw [hcall, List.mem_singleton.mp hmem, Call.address]
  · rw [henter] at hmem
    rw [hcall, List.mem_singleton.mp hmem, Call.address]

theorem Miss.lbas_filling (miss : Miss setup) (slot : Nat) :
    (miss.filling slot).lbas = [miss.lba] := by
  cases miss <;> rfl

section Step

variable {choice : Choice setup} {engine nextEngine : CacheEngine setup}

theorem ClientStep.lbas {pc next : Pc setup}
    (hstep : ClientStep choice engine pc next nextEngine)
    (hkeyed : engine.table.SelfKeyed) :
    ∀ lba ∈ next.lbas, lba ∈ pc.lbas ∨ engine.table.slotOf lba ≠ none := by
  cases hstep with
  | takeFree hfree =>
      rw [Miss.lbas_filling]
      exact fun lba hmem => .inl hmem
  | retake hfree =>
      rw [Miss.lbas_filling]
      exact fun lba hmem => .inl hmem
  | @chooseDirty miss victim hselect hflush =>
      have hslot := (selectEvictionCandidate_spec hkeyed hselect).1
      intro lba hmem
      rcases List.mem_cons.mp hmem with heq | hvictim
      · exact .inl (by simp [Pc.lbas, heq])
      · rw [List.mem_singleton] at hvictim
        exact .inr (by simp [hvictim, hslot])
  | _ => simp [Pc.lbas, Miss.lba]

theorem ClientStep.mapped {pc next : Pc setup}
    (hstep : ClientStep choice engine pc next nextEngine) {lba : Lba setup}
    (hmapped : nextEngine.table.slotOf lba ≠ none) :
    lba ∈ pc.lbas ∨ engine.table.slotOf lba ≠ none := by
  cases hstep with
  | lookupHit hslot =>
      rw [LbaTable.slotOf_getAndTouch] at hmapped
      exact .inr hmapped
  | removeVictim =>
      rw [LbaTable.slotOf_remove] at hmapped
      split at hmapped
      · exact absurd rfl hmapped
      · exact .inr hmapped
  | insertRead =>
      rw [LbaTable.slotOf_insert] at hmapped
      split at hmapped
      · next heq => exact .inl (by simp [Pc.lbas, heq])
      · exact .inr hmapped
  | markDirty =>
      rw [LbaTable.slotOf_markDirty] at hmapped
      exact .inr hmapped
  | insertWrite =>
      rw [LbaTable.slotOf_insert] at hmapped
      split at hmapped
      · next heq => exact .inl (by simp [Pc.lbas, heq])
      · exact .inr hmapped
  | _ => exact .inr hmapped

theorem FlusherStep.lbas {pc next : FlusherPc setup}
    (hstep : FlusherStep choice engine pc next nextEngine)
    (hkeyed : engine.table.SelfKeyed) :
    ∀ lba ∈ next.lbas, lba ∈ pc.lbas ∨ engine.table.slotOf lba ≠ none := by
  cases hstep with
  | snapshot =>
      rw [FlusherPc.lbas_resume]
      intro lba hmem
      obtain ⟨⟨_, slot⟩, hpair, rfl⟩ := List.mem_map.mp hmem
      have hslot := ((LbaTable.mem_dirtyEntries_iff hkeyed choice.order).mp hpair).1
      exact .inr (by simp [hslot])
  | written hio => exact fun lba hmem => .inl hmem
  | torn hio =>
      rw [FlusherPc.lbas_resume]
      intro lba hmem
      exact .inl (List.mem_cons_of_mem _ hmem)
  | cleaned =>
      rw [FlusherPc.lbas_resume]
      intro lba hmem
      exact .inl (List.mem_cons_of_mem _ hmem)
  | _ => simp [FlusherPc.lbas]

end Step

namespace Machine

/-- Every block in the table or in some thread's hands was named by a call. -/
structure Named (past : List (Action setup n)) (machine : Machine setup n) :
    Prop where
  keyed : machine.engine.table.SelfKeyed
  table : ∀ lba, machine.engine.table.slotOf lba ≠ none → Called past lba
  client : ∀ thread, ∀ lba ∈ (machine.client thread).lbas, Called past lba
  flusher : ∀ lba ∈ machine.flusher.lbas, Called past lba

theorem named_init (setup : Setup) (n : Nat) (image : Image) :
    (init setup n image).Named [] where
  keyed := LbaTable.selfKeyed_new
  table := by simp [init, CacheEngine.boot]
  client := by simp [init, Pc.lbas]
  flusher := by simp [init, FlusherPc.lbas]

theorem Named.step {past : List (Action setup n)} {machine next : Machine setup n}
    {action : Action setup n} (hnamed : machine.Named past)
    (hstep : machine.step action = some next) :
    next.Named (past ++ [action]) := by
  have hclient : ∀ thread, ∀ lba ∈ (next.client thread).lbas,
      Called (past ++ [action]) lba := by
    intro thread lba hmem
    rcases client_cases hstep thread with
      hsame | hidle | ⟨call, haction, henter⟩ | ⟨choice, _, hmoved⟩
    · rw [hsame] at hmem
      exact (hnamed.client thread lba hmem).later action
    · rw [hidle] at hmem
      cases hmem
    · rw [henter] at hmem
      exact ⟨thread, call, by simp [haction], Call.lbas_enter hmem⟩
    · rcases hmoved.lbas hnamed.keyed lba hmem with hold | hmapped
      · exact (hnamed.client thread lba hold).later action
      · exact (hnamed.table lba hmapped).later action
  have htable := fun lba hmapped => (hnamed.table lba hmapped).later action
  have hflusher := fun lba hmem => (hnamed.flusher lba hmem).later action
  cases step_cases hstep with
  | invoke howner hidle => exact ⟨hnamed.keyed, htable, hclient, hflusher⟩
  | @client thread choice pc engine hmoved =>
      refine ⟨hmoved.selfKeyed hnamed.keyed, ?_, hclient, hflusher⟩
      intro lba hmapped
      rcases hmoved.mapped hmapped with hold | hmappedBefore
      · exact (hnamed.client thread lba hold).later _
      · exact htable lba hmappedBefore
  | respond hdone => exact ⟨hnamed.keyed, htable, hclient, hflusher⟩
  | flush hmoved =>
      refine ⟨hmoved.selfKeyed hnamed.keyed, ?_, hclient, ?_⟩
      · intro lba hmapped
        simp only [hmoved.slotOf] at hmapped
        exact htable lba hmapped
      · intro lba hmem
        rcases hmoved.lbas hnamed.keyed lba hmem with hold | hmapped
        · exact hflusher lba hold
        · exact htable lba hmapped
  | owner howner =>
      refine ⟨hnamed.keyed, htable, hclient, ?_⟩
      intro lba hmem
      cases howner with
      | started _ _ => cases hmem
      | joined _ _ => cases hmem
      | _ => exact hflusher lba hmem

theorem named_run {image : Image} {run : List (Action setup n)}
    {final : Machine setup n}
    (hrun : Run.exec step (init setup n image) run = some final) :
    final.Named run :=
  Run.invariant (I := fun past machine => machine.Named past)
    (named_init setup n image)
    (fun _ _ _ _ hnamed _ hstep => hnamed.step hstep)
    (Run.along_of_forall fun _ _ => trivial) hrun

theorem Named.issued {past : List (Action setup n)} {machine : Machine setup n}
    (hnamed : machine.Named past) {action : Action setup n}
    {call : Syscall setup} (hissued : call ∈ machine.issued action)
    {lba : Lba setup} (htarget : call.target = some lba) : Called past lba := by
  cases action with
  | client thread choice =>
      apply hnamed.client thread
      simp only [Machine.issued] at hissued
      cases hpc : machine.client thread with
      | flushVictim miss victim =>
          rw [hpc] at hissued
          rw [List.mem_singleton.mp hissued] at htarget
          cases htarget
          simp [Pc.lbas]
      | fetch block slot =>
          rw [hpc] at hissued
          rw [List.mem_singleton.mp hissued] at htarget
          cases htarget
          simp [Pc.lbas]
      | _ =>
          rw [hpc] at hissued
          cases hissued
  | flush choice =>
      apply hnamed.flusher
      simp only [Machine.issued] at hissued
      cases hpc : machine.flusher with
      | writing signal block slot rest flushed =>
          rw [hpc] at hissued
          rw [List.mem_singleton.mp hissued] at htarget
          cases htarget
          simp [FlusherPc.lbas]
      | syncing signal =>
          rw [hpc] at hissued
          rw [List.mem_singleton.mp hissued] at htarget
          cases htarget
      | _ =>
          rw [hpc] at hissued
          cases hissued
  | _ => cases hissued

/-- Every single `pread` and `pwrite` of every run is for a block that an
earlier call named, stays on that block, starts on a page boundary, and never
meets a call for another block. -/
theorem io_stays_on_block (hsize : setup.totalBytes ≤ 2 ^ 63 - 1)
    (image : Image) (run : List (Action setup n)) :
    ∀ call ∈ Run.trace step issued (init setup n image) run,
      ∀ lba, call.target = some lba →
      Called run lba ∧ ∀ answers,
      (∀ first, (call.attempts answers).head? = some first →
        4096 ∣ first.offset.toNat) ∧
      ∀ attempt ∈ call.attempts answers,
        OnBlock lba attempt ∧
        ∀ other ∈ Run.trace step issued (init setup n image) run,
          ∀ otherLba, other.target = some otherLba → otherLba ≠ lba →
          ∀ otherAnswers, ∀ otherAttempt ∈ other.attempts otherAnswers,
            attempt.offset.toNat + attempt.count.toNat ≤
                otherAttempt.offset.toNat ∨
              otherAttempt.offset.toNat + otherAttempt.count.toNat ≤
                attempt.offset.toNat := by
  intro call hcall lba htarget
  constructor
  · obtain ⟨past, action, rest, machine, hsplit, hpast, hissued⟩ :=
      Run.mem_trace hcall
    obtain ⟨thread, named, hmem, haddress⟩ :=
      (named_run hpast).issued hissued htarget
    exact ⟨thread, named, by rw [hsplit]; exact List.mem_append_left _ hmem,
      haddress⟩
  intro answers
  refine ⟨fun first hfirst => Syscall.page_dvd_first htarget hfirst, ?_⟩
  intro attempt hattempt
  have honBlock := Syscall.attempts_onBlock hsize htarget hattempt
  refine ⟨honBlock, ?_⟩
  intro other _ otherLba hother hne otherAnswers otherAttempt hotherAttempt
  have hotherBlock := Syscall.attempts_onBlock hsize hother hotherAttempt
  exact honBlock.disjoint hotherBlock (Ne.symm hne)

def lastBlockRead : List (Action (.mini 0) 1) :=
  .invoke lone (.read 3) :: advance lone 3 1

/-- The fetch is answered with one sector and goes on behind it. -/
theorem lastBlockRead_on_block :
    (Syscall.pread (3 : Lba (.mini 0))).attempts [.moved 512] =
        [⟨3145728, 1048576⟩, ⟨3146240, 1048064⟩] ∧
      ∀ attempt ∈ (Syscall.pread (3 : Lba (.mini 0))).attempts [.moved 512],
        OnBlock (3 : Lba (.mini 0)) attempt := by
  refine ⟨by decide +kernel, fun attempt hattempt => ?_⟩
  have hcall : Syscall.pread 3 ∈ Run.trace step issued
      (init (.mini 0) 1 stripes) lastBlockRead := by
    decide +kernel
  exact (((io_stays_on_block (by decide) stripes lastBlockRead _ hcall 3
    rfl).2 _).2 attempt hattempt).1

end Machine

end AsmCacheInject.Concurrent

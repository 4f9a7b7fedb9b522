import AsmCacheInject.Data.Word
import AsmCacheInject.Error

namespace AsmCacheInject.Io

open AsmCacheInject.Data.Word

/-! The transfer loops of `read_block` and `write_block`.  A transfer of a whole
block is a sequence of `pread` or `pwrite` calls, each for what is still
missing. -/

/-- One `pread` or `pwrite`: its offset, before the cast to `off_t`, and the
number of bytes asked for. -/
structure Attempt where
  offset : UInt64
  count : UInt64
  deriving DecidableEq, Repr

inductive KernelAnswer
  | failed (error : OsError)
  | moved (limit : UInt64)

/-- The value returned for a request, negative returns as an error.  A call
never moves more than it was asked for. -/
def KernelAnswer.ret (requested : UInt64) : KernelAnswer → Except OsError UInt64
  | .failed error => .error error
  | .moved limit => .ok (if limit ≤ requested then limit else requested)

structure Direction where
  operation : String
  stalled : (position total len : UInt64) → OsError

def Direction.read : Direction where
  operation := "pread"
  stalled := fun position total len =>
    ⟨.unexpectedEof, "unexpected EOF at offset " ++ toString position ++
      " (read " ++ toString total ++ " of " ++ toString len ++ " bytes)"⟩

def Direction.write : Direction where
  operation := "pwrite"
  stalled := fun position total len =>
    ⟨.writeZero, "zero-length write at offset " ++ toString position ++
      " (wrote " ++ toString total ++ " of " ++ toString len ++ " bytes)"⟩

/-- The calls a loop has issued and how it ended; it has not ended while the
last call is unanswered. -/
structure Transfer where
  attempts : List Attempt
  outcome : Option (Except CacheError Unit)

def Transfer.after (attempt : Attempt) (rest : Transfer) : Transfer :=
  { rest with attempts := attempt :: rest.attempts }

def transferLoop (direction : Direction) (offset len : UInt64) :
    UInt64 → List KernelAnswer → Transfer
  | total, [] =>
      if total < len then ⟨[⟨offset + total, len - total⟩], none⟩
      else ⟨[], some (.ok ())⟩
  | total, answer :: rest =>
      if total < len then
        Transfer.after ⟨offset + total, len - total⟩ <|
          match answer.ret (len - total) with
          | .error error =>
              ⟨[], some (.error (.ofIo direction.operation error))⟩
          | .ok ret =>
              if ret = 0 then
                ⟨[], some (.error (.io direction.operation
                  (direction.stalled (offset + total) total len)))⟩
              else transferLoop direction offset len (total + ret) rest
      else ⟨[], some (.ok ())⟩

def readBlock (offset len : UInt64) (answers : List KernelAnswer) : Transfer :=
  transferLoop .read offset len 0 answers

def writeBlock (offset len : UInt64) (answers : List KernelAnswer) : Transfer :=
  transferLoop .write offset len 0 answers

def readLba (lba blockSize : UInt64) (answers : List KernelAnswer) : Transfer :=
  readBlock (lba * blockSize) blockSize answers

def writeLba (lba blockSize : UInt64) (answers : List KernelAnswer) : Transfer :=
  writeBlock (lba * blockSize) blockSize answers

section Bounds

variable {direction : Direction} {offset len total : UInt64}

theorem toNat_remaining (htotal : total ≤ len) :
    (len - total).toNat = len.toNat - total.toNat :=
  UInt64.toNat_sub_of_le _ _ htotal

theorem toNat_position (hend : offset.toNat + len.toNat < 2 ^ 64)
    (htotal : total ≤ len) :
    (offset + total).toNat = offset.toNat + total.toNat := by
  rw [UInt64.le_iff_toNat_le] at htotal
  apply toNat_sum
  omega

theorem KernelAnswer.ret_le {answer : KernelAnswer} {requested ret : UInt64}
    (hret : answer.ret requested = .ok ret) : ret ≤ requested := by
  cases answer with
  | failed error => cases hret
  | moved limit =>
      simp only [KernelAnswer.ret] at hret
      split at hret
      · next hle =>
        cases hret
        exact hle
      · cases hret
        exact UInt64.le_refl requested

theorem KernelAnswer.ret_ne_zero {limit ret : UInt64} (hlimit : limit ≠ 0)
    (hlt : total < len)
    (hret : KernelAnswer.ret (len - total) (.moved limit) = .ok ret) : ret ≠ 0 := by
  simp only [KernelAnswer.ret] at hret
  split at hret
  · cases hret
    exact hlimit
  · cases hret
    intro hzero
    have hdiff := toNat_remaining (UInt64.le_of_lt hlt)
    rw [hzero, UInt64.toNat_zero] at hdiff
    rw [UInt64.lt_iff_toNat_lt] at hlt
    omega

theorem toNat_advance {ret : UInt64} (htotal : total ≤ len)
    (hret : ret ≤ len - total) :
    (total + ret).toNat = total.toNat + ret.toNat ∧ total + ret ≤ len := by
  rw [UInt64.le_iff_toNat_le, toNat_remaining htotal] at hret
  rw [UInt64.le_iff_toNat_le] at htotal
  have hlen := len.toNat_lt
  have hsum : (total + ret).toNat = total.toNat + ret.toNat :=
    toNat_sum (by omega)
  refine ⟨hsum, ?_⟩
  rw [UInt64.le_iff_toNat_le, hsum]
  omega

/-- Every call of a loop that stays below the end of the address space asks
for the rest of the block, from where the last one left off. -/
theorem mem_transferLoop {answers : List KernelAnswer} {attempt : Attempt}
    (hend : offset.toNat + len.toNat < 2 ^ 64) (htotal : total ≤ len)
    (hmem : attempt ∈ (transferLoop direction offset len total answers).attempts) :
    offset.toNat + total.toNat ≤ attempt.offset.toNat ∧
      0 < attempt.count.toNat ∧
      attempt.offset.toNat + attempt.count.toNat =
        offset.toNat + len.toNat := by
  induction answers generalizing total with
  | nil =>
      unfold transferLoop at hmem
      split at hmem
      · next hlt =>
        rw [List.mem_singleton] at hmem
        subst hmem
        rw [UInt64.lt_iff_toNat_lt] at hlt
        rw [toNat_position hend htotal, toNat_remaining htotal]
        omega
      · cases hmem
  | cons answer rest ih =>
      unfold transferLoop at hmem
      split at hmem
      · next hlt =>
        rcases List.mem_cons.mp hmem with heq | hlater
        · subst heq
          rw [UInt64.lt_iff_toNat_lt] at hlt
          rw [toNat_position hend htotal, toNat_remaining htotal]
          omega
        · cases hret : answer.ret (len - total) with
          | error error =>
              rw [hret] at hlater
              cases hlater
          | ok ret =>
              rw [hret] at hlater
              obtain ⟨hsum, hle⟩ := toNat_advance htotal
                (KernelAnswer.ret_le hret)
              simp only at hlater
              split at hlater
              · cases hlater
              · have := ih hle hlater
                omega
      · cases hmem

theorem head_transferLoop {answers : List KernelAnswer} {attempt : Attempt}
    (hhead : (transferLoop direction offset len 0 answers).attempts.head? =
      some attempt) : attempt.offset = offset := by
  cases answers with
  | nil =>
      unfold transferLoop at hhead
      split at hhead
      · cases hhead
        exact UInt64.add_zero offset
      · cases hhead
  | cons answer rest =>
      unfold transferLoop at hhead
      split at hhead
      · cases hhead
        exact UInt64.add_zero offset
      · cases hhead

end Bounds

theorem transferLoop_ends {direction : Direction} {offset len total : UInt64}
    {answers : List KernelAnswer} (htotal : total ≤ len)
    (hanswers : len.toNat ≤ total.toNat + answers.length) :
    (transferLoop direction offset len total answers).outcome ≠ none := by
  induction answers generalizing total with
  | nil =>
      have hdone : ¬total < len := by
        rw [UInt64.lt_iff_toNat_lt]
        simp only [List.length_nil] at hanswers
        omega
      simp [transferLoop, hdone]
  | cons answer rest ih =>
      unfold transferLoop
      split
      · cases hret : answer.ret (len - total) with
        | error error => simp [Transfer.after]
        | ok ret =>
            simp only
            split
            · simp [Transfer.after]
            · next hmoved =>
              obtain ⟨hsum, hnext⟩ := toNat_advance htotal
                (KernelAnswer.ret_le hret)
              have hpos := toNat_pos_of_ne_zero hmoved
              rw [List.length_cons] at hanswers
              exact ih hnext (by omega)
      · simp

theorem transferLoop_not_error {direction : Direction}
    {offset len total : UInt64} {answers : List KernelAnswer}
    (hmoving : ∀ answer ∈ answers, ∃ limit, limit ≠ 0 ∧ answer = .moved limit)
    (failure : CacheError) :
    (transferLoop direction offset len total answers).outcome ≠
      some (.error failure) := by
  induction answers generalizing total with
  | nil =>
      unfold transferLoop
      split <;> simp
  | cons answer rest ih =>
      obtain ⟨⟨limit, hlimit, rfl⟩, hrest⟩ := List.forall_mem_cons.mp hmoving
      unfold transferLoop
      split
      · next hlt =>
        cases hret : KernelAnswer.ret (len - total) (.moved limit) with
        | error error => cases hret
        | ok ret =>
            simp only [if_neg (KernelAnswer.ret_ne_zero hlimit hlt hret)]
            exact ih hrest
      · simp

theorem transferLoop_ok {direction : Direction} {offset len : UInt64}
    {answers : List KernelAnswer}
    (hmoving : ∀ answer ∈ answers, ∃ limit, limit ≠ 0 ∧ answer = .moved limit)
    (hlong : len.toNat ≤ answers.length) :
    (transferLoop direction offset len 0 answers).outcome = some (.ok ()) := by
  cases houtcome : (transferLoop direction offset len 0 answers).outcome with
  | none =>
      refine absurd houtcome (transferLoop_ends UInt64.zero_le ?_)
      simpa using hlong
  | some result =>
      cases result with
      | error failure => exact absurd houtcome (transferLoop_not_error hmoving failure)
      | ok success => rfl

theorem Direction.stalled_ofIo {direction : Direction}
    (hdirection : direction = .read ∨ direction = .write)
    (position total len : UInt64) :
    CacheError.io direction.operation (direction.stalled position total len) =
      .ofIo direction.operation (direction.stalled position total len) := by
  rcases hdirection with rfl | rfl
  · rfl
  · rfl

theorem transferLoop_error {direction : Direction} {offset len total : UInt64}
    (hdirection : direction = .read ∨ direction = .write)
    {answers : List KernelAnswer} {failure : CacheError}
    (houtcome : (transferLoop direction offset len total answers).outcome =
      some (.error failure)) :
    ∃ error, failure = .ofIo direction.operation error := by
  induction answers generalizing total with
  | nil =>
      unfold transferLoop at houtcome
      split at houtcome
      · cases houtcome
      · cases houtcome
  | cons answer rest ih =>
      unfold transferLoop at houtcome
      split at houtcome
      · cases hret : answer.ret (len - total) with
        | error error =>
            rw [hret] at houtcome
            cases houtcome
            exact ⟨error, rfl⟩
        | ok ret =>
            rw [hret] at houtcome
            simp only at houtcome
            split at houtcome
            · cases houtcome
              exact ⟨_, Direction.stalled_ofIo hdirection _ _ _⟩
            · exact ih houtcome
      · cases houtcome

end AsmCacheInject.Io

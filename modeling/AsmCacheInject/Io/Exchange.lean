import AsmCacheInject.Data.ByteImage
import AsmCacheInject.Io.Transfer

namespace AsmCacheInject.Io

open AsmCacheInject.Data
open AsmCacheInject.Data.Word

/-! The transfer loops with the bytes they move. -/

structure Host where
  device : Nat → UInt8
  memory : Nat → UInt8

/-- A loop with what one of its calls moves between a device position and an
address.  Adjacent moves add up to one. -/
structure Channel extends Direction where
  move : (position address count : Nat) → Host → Host
  move_zero : ∀ position address host, move position address 0 host = host
  move_move : ∀ position address first second host,
    move (position + first) (address + first) second
        (move position address first host) =
      move position address (first + second) host

def Channel.pread : Channel where
  toDirection := .read
  move := fun position address count host =>
    { host with
      memory := ByteImage.blit host.device position host.memory address count }
  move_zero := by
    intro position address host
    simp only [ByteImage.blit_zero]
  move_move := by
    intro position address first second host
    simp only [ByteImage.blit_blit]

def Channel.pwrite : Channel where
  toDirection := .write
  move := fun position address count host =>
    { host with
      device := ByteImage.blit host.memory address host.device position count }
  move_zero := by
    intro position address host
    simp only [ByteImage.blit_zero]
  move_move := by
    intro position address first second host
    simp only [ByteImage.blit_blit]

/-- Where on the device a call starts: its `off_t`, which the kernel refuses
when negative. -/
def Attempt.position (attempt : Attempt) : Nat :=
  attempt.offset.toInt64.toInt.toNat

/-- A loop's calls and end, what it leaves behind, and the device position and
address of each byte it has moved, in the order they were moved. -/
structure Exchange extends Transfer where
  host : Host
  moved : List (Nat × Nat)

def Exchange.after (attempt : Attempt) (rest : Exchange) : Exchange :=
  { rest with toTransfer := rest.toTransfer.after attempt }

def inOrder (position address count : Nat) : List (Nat × Nat) :=
  (List.range count).map fun byte => (position + byte, address + byte)

def Exchange.moving (position address count : Nat) (rest : Exchange) : Exchange :=
  { rest with moved := inOrder position address count ++ rest.moved }

def exchangeLoop (channel : Channel) (buf : Nat) (offset len : UInt64) :
    UInt64 → List KernelAnswer → Host → Exchange
  | total, [], host =>
      if total < len then ⟨⟨[⟨offset + total, len - total⟩], none⟩, host, []⟩
      else ⟨⟨[], some (.ok ())⟩, host, []⟩
  | total, answer :: rest, host =>
      if total < len then
        Exchange.after ⟨offset + total, len - total⟩ <|
          match answer.ret (len - total) with
          | .error error =>
              ⟨⟨[], some (.error (.ofIo channel.operation error))⟩, host, []⟩
          | .ok ret =>
              if ret = 0 then
                ⟨⟨[], some (.error (.io channel.operation
                  (channel.stalled (offset + total) total len)))⟩, host, []⟩
              else
                let position := Attempt.position ⟨offset + total, len - total⟩
                let address := buf + total.toNat
                Exchange.moving position address ret.toNat <|
                  exchangeLoop channel buf offset len (total + ret) rest
                    (channel.move position address ret.toNat host)
      else ⟨⟨[], some (.ok ())⟩, host, []⟩

def readBlockInto (buf : Nat) (offset len : UInt64)
    (answers : List KernelAnswer) (host : Host) : Exchange :=
  exchangeLoop .pread buf offset len 0 answers host

def writeBlockFrom (buf : Nat) (offset len : UInt64)
    (answers : List KernelAnswer) (host : Host) : Exchange :=
  exchangeLoop .pwrite buf offset len 0 answers host

def readLbaInto (buf : Nat) (lba blockSize : UInt64)
    (answers : List KernelAnswer) (host : Host) : Exchange :=
  readBlockInto buf (lba * blockSize) blockSize answers host

def writeLbaFrom (buf : Nat) (lba blockSize : UInt64)
    (answers : List KernelAnswer) (host : Host) : Exchange :=
  writeBlockFrom buf (lba * blockSize) blockSize answers host

theorem exchangeLoop_toTransfer (channel : Channel) (buf : Nat)
    (offset len total : UInt64) (answers : List KernelAnswer) (host : Host) :
    (exchangeLoop channel buf offset len total answers host).toTransfer =
      transferLoop channel.toDirection offset len total answers := by
  induction answers generalizing total host with
  | nil =>
      unfold exchangeLoop transferLoop
      split
      · rfl
      · rfl
  | cons answer rest ih =>
      unfold exchangeLoop transferLoop
      split
      · apply congrArg (Transfer.after ⟨offset + total, len - total⟩)
        cases answer.ret (len - total) with
        | error error => rfl
        | ok ret =>
            simp only
            split
            · rfl
            · exact ih (total + ret) _
      · rfl

/-! A loop has always moved a prefix of its block, byte by byte from the
front. -/

theorem inOrder_append (position address first second : Nat) :
    inOrder position address first ++
        inOrder (position + first) (address + first) second =
      inOrder position address (first + second) := by
  simp [inOrder, List.range_add, Function.comp_def, Nat.add_assoc]

theorem position_eq {offset len total : UInt64}
    (hend : offset.toNat + len.toNat ≤ 2 ^ 63 - 1) (htotal : total ≤ len) :
    Attempt.position ⟨offset + total, len - total⟩ =
      offset.toNat + total.toNat := by
  have hwide : offset.toNat + len.toNat < 2 ^ 64 := by omega
  have hsum := toNat_position hwide htotal
  have hcast : (offset + total).toInt64.toInt = (offset + total).toNat := by
    apply toInt_toInt64
    rw [UInt64.le_iff_toNat_le] at htotal
    omega
  simp only [Attempt.position]
  rw [hcast, hsum, Int.toNat_natCast]

/-- A loop that started with `total` bytes moved ends with `count` more moved,
and these are all that are missing exactly when it returns `Ok`. -/
structure Exchanged (channel : Channel) (buf : Nat) (offset len total : UInt64)
    (host : Host) (result : Exchange) (count : Nat) : Prop where
  within : total.toNat + count ≤ len.toNat
  host_eq : result.host =
    channel.move (offset.toNat + total.toNat) (buf + total.toNat) count host
  moved_eq : result.moved =
    inOrder (offset.toNat + total.toNat) (buf + total.toNat) count
  ok_iff : result.outcome = some (.ok ()) ↔ total.toNat + count = len.toNat

section Prefixes

variable {channel : Channel} {buf : Nat} {offset len total : UInt64}
  {host : Host}

theorem Exchanged.stop {transfer : Transfer} (htotal : total ≤ len)
    (hok : transfer.outcome = some (.ok ()) ↔ total.toNat = len.toNat) :
    Exchanged channel buf offset len total host ⟨transfer, host, []⟩ 0 where
  within := UInt64.le_iff_toNat_le.mp htotal
  host_eq := (channel.move_zero _ _ _).symm
  moved_eq := rfl
  ok_iff := hok

theorem Exchanged.after {result : Exchange} {count : Nat} (attempt : Attempt)
    (hresult : Exchanged channel buf offset len total host result count) :
    Exchanged channel buf offset len total host (result.after attempt) count :=
  { hresult with }

theorem Exchanged.step {ret : UInt64} {rest : Exchange} {count : Nat}
    (hsum : (total + ret).toNat = total.toNat + ret.toNat)
    (hrest : Exchanged channel buf offset len (total + ret)
      (channel.move (offset.toNat + total.toNat) (buf + total.toNat) ret.toNat
        host) rest count) :
    Exchanged channel buf offset len total host
      (rest.moving (offset.toNat + total.toNat) (buf + total.toNat) ret.toNat)
      (ret.toNat + count) where
  within := by
    have := hrest.within
    omega
  host_eq := by
    have hhost := hrest.host_eq
    rw [hsum, ← Nat.add_assoc, ← Nat.add_assoc, channel.move_move] at hhost
    exact hhost
  moved_eq := by
    have hmoved := hrest.moved_eq
    rw [hsum, ← Nat.add_assoc, ← Nat.add_assoc] at hmoved
    simp only [Exchange.moving, hmoved, inOrder_append]
  ok_iff := by
    have hok := hrest.ok_iff
    rw [hsum, Nat.add_assoc] at hok
    exact hok

theorem exchangeLoop_exchanged {answers : List KernelAnswer}
    (hend : offset.toNat + len.toNat ≤ 2 ^ 63 - 1) (htotal : total ≤ len) :
    ∃ count, Exchanged channel buf offset len total host
      (exchangeLoop channel buf offset len total answers host) count := by
  have hle := UInt64.le_iff_toNat_le.mp htotal
  induction answers generalizing total host with
  | nil =>
      refine ⟨0, ?_⟩
      unfold exchangeLoop
      split
      · next hlt =>
        rw [UInt64.lt_iff_toNat_lt] at hlt
        apply Exchanged.stop htotal
        simp only [reduceCtorEq, false_iff]
        omega
      · next hge =>
        rw [UInt64.lt_iff_toNat_lt] at hge
        apply Exchanged.stop htotal
        simp only [true_iff]
        omega
  | cons answer rest ih =>
      unfold exchangeLoop
      split
      · next hlt =>
        rw [UInt64.lt_iff_toNat_lt] at hlt
        have hstopped : ¬total.toNat = len.toNat := by omega
        cases hret : answer.ret (len - total) with
        | error error =>
            refine ⟨0, Exchanged.after _ (Exchanged.stop htotal ?_)⟩
            simpa using hstopped
        | ok ret =>
            simp only
            split
            · refine ⟨0, Exchanged.after _ (Exchanged.stop htotal ?_)⟩
              simpa using hstopped
            · obtain ⟨hsum, hnext⟩ := toNat_advance htotal
                (KernelAnswer.ret_le hret)
              obtain ⟨count, hrest⟩ := ih hnext (UInt64.le_iff_toNat_le.mp hnext)
              refine ⟨ret.toNat + count, ?_⟩
              rw [position_eq hend htotal]
              exact Exchanged.after _ (Exchanged.step hsum hrest)
      · next hge =>
        rw [UInt64.lt_iff_toNat_lt] at hge
        refine ⟨0, Exchanged.stop htotal ?_⟩
        simp only [true_iff]
        omega

end Prefixes

/-! What each direction leaves behind. -/

/-- `count` bytes at `buf` are those of the device from `offset` on. -/
structure Filled (buf offset count : Nat) (before after : Host) : Prop where
  inside : ∀ byte, byte < count →
    after.memory (buf + byte) = before.device (offset + byte)
  outside : ∀ address, address < buf ∨ buf + count ≤ address →
    after.memory address = before.memory address
  device : after.device = before.device

structure Stored (buf offset count : Nat) (before after : Host) : Prop where
  inside : ∀ byte, byte < count →
    after.device (offset + byte) = before.memory (buf + byte)
  outside : ∀ position, position < offset ∨ offset + count ≤ position →
    after.device position = before.device position
  memory : after.memory = before.memory

theorem filled_move (buf offset count : Nat) (host : Host) :
    Filled buf offset count host (Channel.pread.move offset buf count host) where
  inside := by
    intro byte hbyte
    exact ByteImage.blit_inside hbyte
  outside := by
    intro address houtside
    exact ByteImage.blit_outside houtside
  device := rfl

theorem stored_move (buf offset count : Nat) (host : Host) :
    Stored buf offset count host (Channel.pwrite.move offset buf count host) where
  inside := by
    intro byte hbyte
    exact ByteImage.blit_inside hbyte
  outside := by
    intro position houtside
    exact ByteImage.blit_outside houtside
  memory := rfl

/-- A transfer that ends whatever it is answered, having moved each byte of
the block once and in order, or those of a proper prefix when it fails. -/
structure Exact (effect : Nat → Host → Host → Prop) (buf : Nat)
    (offset len : UInt64) (answers : List KernelAnswer) (host : Host)
    (result : Exchange) : Prop where
  ends : len.toNat ≤ answers.length → result.outcome ≠ none
  ok : result.outcome = some (.ok ()) →
    effect len.toNat host result.host ∧
      result.moved = inOrder offset.toNat buf len.toNat
  error : ∀ error, result.outcome = some (.error error) →
    ∃ count, count < len.toNat ∧ effect count host result.host ∧
      result.moved = inOrder offset.toNat buf count

theorem exchangeLoop_exact {channel : Channel} {effect : Nat → Host → Host → Prop}
    {buf : Nat} {offset len : UInt64}
    (heffect : ∀ count host,
      effect count host (channel.move offset.toNat buf count host))
    (hend : offset.toNat + len.toNat ≤ 2 ^ 63 - 1)
    (answers : List KernelAnswer) (host : Host) :
    Exact effect buf offset len answers host
      (exchangeLoop channel buf offset len 0 answers host) := by
  have hstart : (0 : UInt64) ≤ len := UInt64.zero_le
  have hprefix : ∃ count, Exchanged channel buf offset len 0 host
      (exchangeLoop channel buf offset len 0 answers host) count :=
    exchangeLoop_exchanged hend hstart
  obtain ⟨count, hwithin, hhost, hmoved, hok⟩ := hprefix
  rw [UInt64.toNat_zero, Nat.zero_add] at hwithin hok
  rw [UInt64.toNat_zero, Nat.add_zero, Nat.add_zero] at hhost hmoved
  exact
    { ends := by
        intro hanswers
        rw [exchangeLoop_toTransfer]
        apply transferLoop_ends hstart
        simpa using hanswers
      ok := by
        intro houtcome
        rw [← hok.mp houtcome, hhost]
        exact ⟨heffect count host, hmoved⟩
      error := by
        intro error houtcome
        have hpart : count ≠ len.toNat := by
          intro hall
          rw [hok.mpr hall] at houtcome
          cases houtcome
        rw [hhost]
        exact ⟨count, Nat.lt_of_le_of_ne hwithin hpart, heffect count host, hmoved⟩ }

theorem readBlockInto_exact {offset len : UInt64}
    (hend : offset.toNat + len.toNat ≤ 2 ^ 63 - 1) (buf : Nat)
    (answers : List KernelAnswer) (host : Host) :
    Exact (Filled buf offset.toNat) buf offset len answers host
      (readBlockInto buf offset len answers host) :=
  exchangeLoop_exact (filled_move buf offset.toNat) hend answers host

theorem writeBlockFrom_exact {offset len : UInt64}
    (hend : offset.toNat + len.toNat ≤ 2 ^ 63 - 1) (buf : Nat)
    (answers : List KernelAnswer) (host : Host) :
    Exact (Stored buf offset.toNat) buf offset len answers host
      (writeBlockFrom buf offset len answers host) :=
  exchangeLoop_exact (stored_move buf offset.toNat) hend answers host

/-! A block numbered `lba` ends at `(lba + 1) * block_size`. -/

section Numbered

variable {lba blockSize : UInt64}

theorem toNat_lba_mul
    (hend : (lba.toNat + 1) * blockSize.toNat ≤ 2 ^ 63 - 1) :
    (lba * blockSize).toNat = lba.toNat * blockSize.toNat ∧
      (lba * blockSize).toNat + blockSize.toNat ≤ 2 ^ 63 - 1 := by
  rw [Nat.succ_mul] at hend
  have hproduct : (lba * blockSize).toNat = lba.toNat * blockSize.toNat :=
    toNat_product (by omega)
  omega

theorem readLbaInto_ok {buf : Nat} {answers : List KernelAnswer} {host : Host}
    (hend : (lba.toNat + 1) * blockSize.toNat ≤ 2 ^ 63 - 1)
    (hok : (readLbaInto buf lba blockSize answers host).outcome =
      some (.ok ())) :
    Filled buf (lba.toNat * blockSize.toNat) blockSize.toNat host
      (readLbaInto buf lba blockSize answers host).host := by
  obtain ⟨hproduct, hfits⟩ := toNat_lba_mul hend
  rw [← hproduct]
  exact ((readBlockInto_exact hfits buf answers host).ok hok).1

theorem writeLbaFrom_ok {buf : Nat} {answers : List KernelAnswer} {host : Host}
    (hend : (lba.toNat + 1) * blockSize.toNat ≤ 2 ^ 63 - 1)
    (hok : (writeLbaFrom buf lba blockSize answers host).outcome =
      some (.ok ())) :
    Stored buf (lba.toNat * blockSize.toNat) blockSize.toNat host
      (writeLbaFrom buf lba blockSize answers host).host := by
  obtain ⟨hproduct, hfits⟩ := toNat_lba_mul hend
  rw [← hproduct]
  exact ((writeBlockFrom_exact hfits buf answers host).ok hok).1

theorem Stored.filled {source target size first second : Nat}
    {before written after : Host} {memory : Nat → UInt8}
    (hwritten : Stored source (first * size) size before written)
    (hread : Filled target (second * size) size ⟨written.device, memory⟩ after)
    {byte : Nat} (hbyte : byte < size) :
    after.memory (target + byte) =
      if second = first then before.memory (source + byte)
      else before.device (second * size + byte) := by
  rw [hread.inside byte hbyte]
  split
  · next hsame =>
    subst hsame
    exact hwritten.inside byte hbyte
  · next hother =>
    apply hwritten.outside
    rcases ByteImage.numbered_windows_disjoint hother with hbelow | habove
    · exact .inl (Nat.lt_of_lt_of_le (Nat.add_lt_add_left hbyte _) hbelow)
    · exact .inr (Nat.le_trans habove (Nat.le_add_right _ _))

end Numbered

/-- Whatever the kernel answers, a block transfer is exact; so a block that
`write_lba` has stored is the one `read_lba` returns, and every other block is
still what it was. -/
theorem transfers_exact :
    (∀ (host : Host) (buf : Nat) (offset len : UInt64)
        (answers : List KernelAnswer),
      offset.toNat + len.toNat ≤ 2 ^ 63 - 1 →
        Exact (Filled buf offset.toNat) buf offset len answers host
            (readBlockInto buf offset len answers host) ∧
          Exact (Stored buf offset.toNat) buf offset len answers host
            (writeBlockFrom buf offset len answers host)) ∧
      ∀ (host after : Host) (memory : Nat → UInt8) (source target : Nat)
          (lba other blockSize : UInt64) (writes reads : List KernelAnswer),
        (lba.toNat + 1) * blockSize.toNat ≤ 2 ^ 63 - 1 →
        (other.toNat + 1) * blockSize.toNat ≤ 2 ^ 63 - 1 →
        (writeLbaFrom source lba blockSize writes host).outcome =
          some (.ok ()) →
        after = ⟨(writeLbaFrom source lba blockSize writes host).host.device,
          memory⟩ →
        (readLbaInto target other blockSize reads after).outcome =
          some (.ok ()) →
        ∀ byte, byte < blockSize.toNat →
          (readLbaInto target other blockSize reads after).host.memory
              (target + byte) =
            if other = lba then host.memory (source + byte)
            else host.device (other.toNat * blockSize.toNat + byte) := by
  refine ⟨?_, ?_⟩
  · intro host buf offset len answers hend
    exact ⟨readBlockInto_exact hend buf answers host,
      writeBlockFrom_exact hend buf answers host⟩
  · intro host after memory source target lba other blockSize writes reads
      hlba hother hwritten hafter hread byte hbyte
    subst hafter
    have hstored := writeLbaFrom_ok hlba hwritten
    have hfilled := readLbaInto_ok hother hread
    rw [hstored.filled hfilled hbyte]
    simp only [UInt64.toNat_inj]

/-- Two bytes written one at a time come back in two short reads. -/
theorem transfers_exact_short :
    ∃ (host after : Host) (writes reads : List KernelAnswer),
      Exact (Stored 8 2) 8 2 2 writes host (writeBlockFrom 8 2 2 writes host) ∧
        (writeLbaFrom 8 1 2 writes host).outcome = some (.ok ()) ∧
        after.device = (writeLbaFrom 8 1 2 writes host).host.device ∧
        (readLbaInto 0 1 2 reads after).outcome = some (.ok ()) ∧
        ∀ byte, byte < 2 →
          (readLbaInto 0 1 2 reads after).host.memory byte =
            host.memory (8 + byte) := by
  let host : Host := ⟨fun _ => 0, fun address => address.toUInt8⟩
  let writes : List KernelAnswer := [.moved 1, .moved 9]
  let reads : List KernelAnswer := [.moved 1, .moved 1]
  let after : Host := ⟨(writeLbaFrom 8 1 2 writes host).host.device, fun _ => 0⟩
  have hwritten : (writeLbaFrom 8 1 2 writes host).outcome = some (.ok ()) := rfl
  have hread : (readLbaInto 0 1 2 reads after).outcome = some (.ok ()) := rfl
  refine ⟨host, after, writes, reads,
    (transfers_exact.1 host 8 2 2 writes (by decide)).2, hwritten, rfl, hread, ?_⟩
  intro byte hbyte
  have hround := transfers_exact.2 host after (fun _ => 0) 8 0 1 1 2 writes reads
    (by decide) (by decide) hwritten rfl hread byte hbyte
  simpa using hround

end AsmCacheInject.Io

import AsmCacheInject.Engine.State
import AsmCacheInject.Io.Exchange

namespace AsmCacheInject.Engine

open AsmCacheInject.Data
open AsmCacheInject.Data.Word
open AsmCacheInject.Io

variable {setup : Setup}

/-! The engine's block I/O against the transfer loops: every way a loop can end
is an `IoOutcome`. -/

theorem blockSize_le_totalBytes (lba : Lba setup) :
    setup.blockSize ≤ setup.totalBytes := by
  have := lba_end_le lba
  omega

theorem toNat_blockSize (lba : Lba setup) :
    (UInt64.ofNat setup.blockSize).toNat = setup.blockSize := by
  have := blockSize_le_totalBytes lba
  have := setup.totalBytes_lt
  exact UInt64.toNat_ofNat_of_lt' (by rw [UInt64.size]; omega)

theorem toNat_offset (lba : Lba setup) :
    (UInt64.ofNat lba.val * UInt64.ofNat setup.blockSize).toNat =
      lba.val * setup.blockSize := by
  have hend := lba_end_le lba
  have hlt := setup.totalBytes_lt
  have hpos := setup.blockSize_pos
  exact toNat_ofNat_product hpos (by omega) (by omega)

theorem lba_transfer_fits (hsize : setup.totalBytes ≤ 2 ^ 63 - 1)
    (lba : Lba setup) :
    (UInt64.ofNat lba.val * UInt64.ofNat setup.blockSize).toNat +
      (UInt64.ofNat setup.blockSize).toNat ≤ 2 ^ 63 - 1 := by
  rw [toNat_offset lba, toNat_blockSize lba]
  exact Nat.le_trans (lba_end_le lba) hsize

section Ends

variable {lba : Lba setup} {buf slot : Nat} {answers : List KernelAnswer}
  {memory : Nat → UInt8} {engine : CacheEngine setup}
  {result : Except CacheError Unit}

theorem readLbaInto_error {blockSize address : UInt64} {host : Host}
    {failure : CacheError}
    (hresult : (readLbaInto buf address blockSize answers host).outcome =
      some (.error failure)) : ∃ error, failure = .ofIo "pread" error := by
  have htransfer := exchangeLoop_toTransfer .pread buf (address * blockSize)
    blockSize 0 answers host
  exact transferLoop_error (.inl rfl)
    ((congrArg Transfer.outcome htransfer).symm.trans hresult)

theorem writeLbaFrom_error {blockSize address : UInt64} {host : Host}
    {failure : CacheError}
    (hresult : (writeLbaFrom buf address blockSize answers host).outcome =
      some (.error failure)) : ∃ error, failure = .ofIo "pwrite" error := by
  have htransfer := exchangeLoop_toTransfer .pwrite buf (address * blockSize)
    blockSize 0 answers host
  exact transferLoop_error (.inr rfl)
    ((congrArg Transfer.outcome htransfer).symm.trans hresult)

/-- `fetch` under some outcome reports and leaves what the loop of `read_lba`
does. -/
theorem fetch_of_readLbaInto (hsize : setup.totalBytes ≤ 2 ^ 63 - 1)
    (hresult : (readLbaInto buf (.ofNat lba.val) (.ofNat setup.blockSize) answers
      ⟨engine.device, memory⟩).outcome = some result) :
    ∃ outcome : IoOutcome setup,
      (engine.fetch outcome lba slot).1 = result ∧
        (engine.fetch outcome lba slot).2.blocks slot =
          ByteImage.readAt setup.blockSize (readLbaInto buf (.ofNat lba.val)
            (.ofNat setup.blockSize) answers ⟨engine.device, memory⟩).host.memory
            buf := by
  cases result with
  | error failure =>
      obtain ⟨error, rfl⟩ := readLbaInto_error hresult
      exact ⟨.fail error _, rfl, CacheEngine.fill_blocks_self _ _ _⟩
  | ok success =>
      obtain ⟨hfilled, -⟩ := (readBlockInto_exact (lba_transfer_fits hsize lba) buf
        answers ⟨engine.device, memory⟩).ok hresult
      refine ⟨.ok, rfl, ?_⟩
      simp only [CacheEngine.fetch, CacheEngine.fill_blocks_self]
      funext byte
      rw [readLba, lbaOffset_eq, ← toNat_offset]
      symm
      apply hfilled.inside
      rw [toNat_blockSize lba]
      exact byte.isLt

theorem writeBack_of_writeLbaFrom (hsize : setup.totalBytes ≤ 2 ^ 63 - 1)
    (hblock : ByteImage.readAt setup.blockSize memory buf = engine.blocks slot)
    (hresult : (writeLbaFrom buf (.ofNat lba.val) (.ofNat setup.blockSize) answers
      ⟨engine.device, memory⟩).outcome = some result) :
    ∃ outcome : IoOutcome setup,
      (engine.writeBack outcome lba slot).1 = result ∧
        (engine.writeBack outcome lba slot).2.device =
          (writeLbaFrom buf (.ofNat lba.val) (.ofNat setup.blockSize) answers
            ⟨engine.device, memory⟩).host.device := by
  have hexact := writeBlockFrom_exact (lba_transfer_fits hsize lba) buf answers
    ⟨engine.device, memory⟩
  cases result with
  | error failure =>
      obtain ⟨error, rfl⟩ := writeLbaFrom_error hresult
      obtain ⟨count, hcount, hstored, -⟩ := hexact.error _ hresult
      refine ⟨.fail error _, rfl, (ByteImage.eq_writeAt ?_).symm⟩
      intro position hposition
      apply hstored.outside
      rw [toNat_blockSize lba] at hcount
      rw [toNat_offset]
      rw [lbaOffset_eq] at hposition
      omega
  | ok success =>
      obtain ⟨hstored, -⟩ := hexact.ok hresult
      rw [toNat_blockSize lba, toNat_offset] at hstored
      refine ⟨.ok, rfl, ?_⟩
      simp only [CacheEngine.writeBack, writeLba]
      rw [lbaOffset_eq, ← hblock]
      have hafter := ByteImage.eq_writeAt hstored.outside
      have hwindow : ByteImage.readAt setup.blockSize (writeLbaFrom buf
          (.ofNat lba.val) (.ofNat setup.blockSize) answers
          ⟨engine.device, memory⟩).host.device (lba.val * setup.blockSize) =
            ByteImage.readAt setup.blockSize memory buf := by
        funext byte
        exact hstored.inside byte byte.isLt
      rw [← hwindow]
      exact hafter.symm

end Ends

end AsmCacheInject.Engine

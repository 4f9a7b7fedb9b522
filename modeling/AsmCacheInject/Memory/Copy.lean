import AsmCacheInject.Asm.Nontemporal
import AsmCacheInject.Memory.Pool

namespace AsmCacheInject.Memory

open AsmCacheInject.Asm
open AsmCacheInject.Data.AddressSpace
open AsmCacheInject.Data.Word
open AsmCacheInject.Engine

/-! The streaming copy into a pool block. -/

theorem new_blockSize_chunks {backing : Option UInt64}
    {totalSize blockSize : UInt64} {pool : MemoryPool}
    (hnew : MemoryPool.new backing totalSize blockSize = .ok pool) :
    blockSize % 64 = 0 := by
  unfold MemoryPool.new at hnew
  cases hshape : memoryPoolNew backing.isSome totalSize blockSize with
  | error error =>
      rw [hshape] at hnew
      cases hnew
  | ok shape =>
      obtain ⟨hsize, _⟩ := memoryPoolNew_ok hshape
      have hpage := shape.page_dvd
      rw [hsize] at hpage
      exact mod_eq_zero_of_toNat_dvd
        ((show (64 : UInt64).toNat ∣ 4096 by decide).trans hpage)

theorem ntMemcpy_exact {dst src len : UInt64} (hlen : len % 64 = 0)
    (hdst : dst % 16 = 0) (hsrc : src % 16 = 0)
    (hdisjoint : ∀ address, Within dst len address → ¬Within src len address)
    (memory : Memory UInt8) :
    (∃ accesses, (ntMemcpy dst src len).run ⟨memory, []⟩ =
        some ((), ⟨copyNonoverlapping src dst len memory, accesses⟩) ∧
      ∀ access ∈ accesses, access.InRange dst src len) ∧
    (∀ index < len, copyNonoverlapping src dst len memory (dst + index) =
      memory (src + index)) ∧
    (∀ address, ¬Within dst len address →
      copyNonoverlapping src dst len memory address = memory address) ∧
    ∀ backing totalSize blockSize pool,
      MemoryPool.new backing totalSize blockSize = .ok pool →
        blockSize % 64 = 0 :=
  ⟨ntMemcpy_run hlen hdst hsrc hdisjoint memory,
    fun _ hindex => copyNonoverlapping_inside hindex memory,
    fun _ houtside => copyNonoverlapping_outside houtside memory,
    fun _ _ _ _ hnew => new_blockSize_chunks hnew⟩

/-- Two chunks, copied one page up. -/
theorem ntMemcpy_exact_page :
    ∃ bus, (ntMemcpy 8192 4096 128).run ⟨fun address => address.toUInt8, []⟩ =
        some ((), bus) ∧ bus.memory (8192 + 100) = 100 := by
  have hdisjoint : ∀ address, Within 8192 128 address →
      ¬Within 4096 128 address := by
    intro address htarget hsource
    have hfar : (4096 : UInt64) + 4096 = 8192 := rfl
    rw [← hfar, within_offset_iff (by decide)] at htarget
    rw [within_iff_toNat] at hsource
    simp only [UInt64.reduceToNat] at htarget hsource
    omega
  obtain ⟨⟨accesses, hrun, _⟩, hinside, _⟩ :=
    ntMemcpy_exact (show (128 : UInt64) % 64 = 0 from rfl)
      (show (8192 : UInt64) % 16 = 0 from rfl)
      (show (4096 : UInt64) % 16 = 0 from rfl) hdisjoint
      fun address => address.toUInt8
  exact ⟨_, hrun, hinside 100 (by decide)⟩

end AsmCacheInject.Memory

import AsmCacheInject.Data.AddressSpace

namespace AsmCacheInject.Asm

open AsmCacheInject.Data.AddressSpace
open AsmCacheInject.Data.Word

/-! The streaming copy, instruction by instruction.  A prefetch and the store
fence change no byte and cannot fault, so only loads and stores are kept. -/

def cacheLineSize : UInt64 := 64

def chunkSize : UInt64 := cacheLineSize

abbrev Xmm := Fin 16 → UInt8

inductive Access
  | load (address : UInt64)
  | store (address : UInt64)
  deriving DecidableEq, Repr

/-- The memory and the accesses made to it, oldest first. -/
structure Bus where
  memory : Memory UInt8
  accesses : List Access

/-- Straight-line code that may fault. -/
abbrev Streaming := StateT Bus Option

/-- `_mm_load_si128`, which faults on an address that is not 16-byte aligned. -/
def mmLoadSi128 (address : UInt64) : Streaming Xmm := fun bus =>
  if address % 16 = 0 then
    some (fun lane => bus.memory (address + UInt64.ofNat lane.val),
      { bus with accesses := bus.accesses ++ [.load address] })
  else none

def storeXmm (address : UInt64) (word : Xmm) (memory : Memory UInt8) :
    Memory UInt8 :=
  fun other =>
    if hlane : (other - address).toNat < 16 then
      word ⟨(other - address).toNat, hlane⟩
    else memory other

/-- `_mm_stream_si128`, which faults as the load does. -/
def mmStreamSi128 (address : UInt64) (word : Xmm) : Streaming Unit := fun bus =>
  if address % 16 = 0 then
    some ((), {
      memory := storeXmm address word bus.memory
      accesses := bus.accesses ++ [.store address] })
  else none

/-- The body of the loop in `nt_memcpy`. -/
def ntChunk (dst src offset : UInt64) : Streaming Unit := do
  let s0 ← mmLoadSi128 (src + offset)
  let s1 ← mmLoadSi128 (src + (offset + 16))
  let s2 ← mmLoadSi128 (src + (offset + 32))
  let s3 ← mmLoadSi128 (src + (offset + 48))
  mmStreamSi128 (dst + offset) s0
  mmStreamSi128 (dst + (offset + 16)) s1
  mmStreamSi128 (dst + (offset + 32)) s2
  mmStreamSi128 (dst + (offset + 48)) s3

def ntChunks (dst src : UInt64) : Nat → Streaming Unit
  | 0 => pure ()
  | count + 1 => do
      ntChunks dst src count
      ntChunk dst src (UInt64.ofNat count * chunkSize)

def ntMemcpy (dst src len : UInt64) : Streaming Unit :=
  ntChunks dst src (len / chunkSize).toNat

def fastCopyNontemporal (dst src len : UInt64) : Streaming Unit :=
  ntMemcpy dst src len

/-- `std::ptr::copy_nonoverlapping`, on ranges that do not overlap. -/
def copyNonoverlapping (src dst len : UInt64) (memory : Memory UInt8) :
    Memory UInt8 :=
  copy src dst len memory

/-! One chunk. -/

section Chunk

variable {dst src offset : UInt64} {memory : Memory UInt8}

theorem add_mod_sixteen {first second : UInt64} (hfirst : first % 16 = 0)
    (hsecond : second % 16 = 0) : (first + second) % 16 = 0 := by
  have hfirstNat := congrArg UInt64.toNat hfirst
  have hsecondNat := congrArg UInt64.toNat hsecond
  apply UInt64.toNat_inj.mp
  rw [UInt64.toNat_mod] at hfirstNat hsecondNat ⊢
  rw [UInt64.toNat_add]
  simp only [UInt64.reduceToNat] at hfirstNat hsecondNat ⊢
  omega

theorem mmLoadSi128_aligned {address : UInt64} (haligned : address % 16 = 0)
    (bus : Bus) :
    (mmLoadSi128 address).run bus =
      some (fun lane => bus.memory (address + UInt64.ofNat lane.val),
        { bus with accesses := bus.accesses ++ [.load address] }) :=
  if_pos haligned

theorem mmStreamSi128_aligned {address : UInt64} (haligned : address % 16 = 0)
    (word : Xmm) (bus : Bus) :
    (mmStreamSi128 address word).run bus =
      some ((), {
        memory := storeXmm address word bus.memory
        accesses := bus.accesses ++ [.store address] }) :=
  if_pos haligned

theorem storeXmm_loaded (target source : UInt64)
    (loaded memory : Memory UInt8) :
    storeXmm target (fun lane => loaded (source + UInt64.ofNat lane.val))
        memory =
      store target 16 (fun distance => loaded (source + distance)) memory := by
  funext address
  by_cases hwithin : Within target 16 address
  · have hlane : (address - target).toNat < 16 := within_iff_toNat.mp hwithin
    rw [store_within hwithin]
    simp [storeXmm, hlane]
  · have hlane : ¬(address - target).toNat < 16 :=
      fun hlt => hwithin (within_iff_toNat.mpr hlt)
    rw [store_outside hwithin]
    simp [storeXmm, hlane]

theorem store_lane {done : UInt64} (hdone : done.toNat + 16 < 2 ^ 64) :
    store (dst + (offset + done)) 16
        (fun distance => memory (src + (offset + done) + distance))
        (store (dst + offset) done
          (fun distance => memory (src + offset + distance)) memory) =
      store (dst + offset) (done + 16)
        (fun distance => memory (src + offset + distance)) memory := by
  have htarget : dst + (offset + done) = dst + offset + done := by grind
  have hvalue : (fun distance => memory (src + (offset + done) + distance)) =
      fun distance => memory (src + offset + (done + distance)) := by
    funext distance
    congr 1
    grind
  rw [htarget, hvalue]
  exact store_store hdone

def chunkAccesses (dst src offset : UInt64) : List Access :=
  [.load (src + offset), .load (src + (offset + 16)),
    .load (src + (offset + 32)), .load (src + (offset + 48)),
    .store (dst + offset), .store (dst + (offset + 16)),
    .store (dst + (offset + 32)), .store (dst + (offset + 48))]

theorem ntChunk_run (hdst : dst % 16 = 0) (hsrc : src % 16 = 0)
    (hoffset : offset % 16 = 0) (bus : Bus) :
    (ntChunk dst src offset).run bus =
      some ((), {
        memory := copy (src + offset) (dst + offset) 64 bus.memory
        accesses := bus.accesses ++ chunkAccesses dst src offset }) := by
  have hlane : ∀ done : UInt64, done % 16 = 0 →
      (src + (offset + done)) % 16 = 0 ∧ (dst + (offset + done)) % 16 = 0 :=
    fun done hdone =>
      ⟨add_mod_sixteen hsrc (add_mod_sixteen hoffset hdone),
        add_mod_sixteen hdst (add_mod_sixteen hoffset hdone)⟩
  obtain ⟨hload1, hstore1⟩ := hlane 16 rfl
  obtain ⟨hload2, hstore2⟩ := hlane 32 rfl
  obtain ⟨hload3, hstore3⟩ := hlane 48 rfl
  have hmemory : storeXmm (dst + (offset + 48))
      (fun lane => bus.memory (src + (offset + 48) + UInt64.ofNat lane.val))
      (storeXmm (dst + (offset + 32))
        (fun lane => bus.memory (src + (offset + 32) + UInt64.ofNat lane.val))
        (storeXmm (dst + (offset + 16))
          (fun lane => bus.memory (src + (offset + 16) + UInt64.ofNat lane.val))
          (storeXmm (dst + offset)
            (fun lane => bus.memory (src + offset + UInt64.ofNat lane.val))
            bus.memory))) =
      copy (src + offset) (dst + offset) 64 bus.memory := by
    simp only [storeXmm_loaded]
    rw [store_lane (show (16 : UInt64).toNat + 16 < 2 ^ 64 by decide),
      show (16 + 16 : UInt64) = 32 from rfl,
      store_lane (show (32 : UInt64).toNat + 16 < 2 ^ 64 by decide),
      show (32 + 16 : UInt64) = 48 from rfl,
      store_lane (show (48 : UInt64).toNat + 16 < 2 ^ 64 by decide)]
    rfl
  simp only [ntChunk, StateT.run_bind, mmLoadSi128_aligned, mmStreamSi128_aligned,
    add_mod_sixteen hsrc hoffset, add_mod_sixteen hdst hoffset, hload1, hload2,
    hload3, hstore1, hstore2, hstore3, Option.bind_eq_bind, Option.bind_some,
    hmemory, List.append_assoc]
  rfl

end Chunk

/-! The loop. -/

section Loop

variable {dst src : UInt64}

def loopAccesses (dst src : UInt64) (count : Nat) : List Access :=
  (List.range count).flatMap fun round =>
    chunkAccesses dst src (UInt64.ofNat round * chunkSize)

theorem toNat_rounds {count : Nat} (hcount : count * 64 < 2 ^ 64) :
    (UInt64.ofNat count * chunkSize).toNat = count * 64 :=
  toNat_ofNat_product (by decide) (by decide) hcount

theorem rounds_mod_sixteen {count : Nat} (hcount : count * 64 < 2 ^ 64) :
    UInt64.ofNat count * chunkSize % 16 = 0 := by
  apply UInt64.toNat_inj.mp
  rw [UInt64.toNat_mod, toNat_rounds hcount]
  simp only [UInt64.reduceToNat]
  omega

theorem rounds_succ (count : Nat) :
    UInt64.ofNat (count + 1) * chunkSize =
      UInt64.ofNat count * chunkSize + 64 := by
  rw [UInt64.ofNat_add, UInt64.add_mul]
  rfl

theorem ntChunks_run (hdst : dst % 16 = 0) (hsrc : src % 16 = 0) {count : Nat}
    (hcount : count * 64 < 2 ^ 64)
    (hdisjoint : ∀ address,
      Within dst (UInt64.ofNat count * chunkSize) address →
        ¬Within src (UInt64.ofNat count * chunkSize) address) (bus : Bus) :
    (ntChunks dst src count).run bus =
      some ((), {
        memory := copy src dst (UInt64.ofNat count * chunkSize) bus.memory
        accesses := bus.accesses ++ loopAccesses dst src count }) := by
  induction count with
  | zero => simp [ntChunks, loopAccesses]
  | succ count ih =>
      have hearlier : count * 64 < 2 ^ 64 := by omega
      have hfits : (UInt64.ofNat count * chunkSize).toNat + (64 : UInt64).toNat <
          2 ^ 64 := by
        rw [toNat_rounds hearlier]
        simp only [UInt64.reduceToNat]
        omega
      rw [rounds_succ] at hdisjoint ⊢
      have hpast := ih hearlier fun address htarget hsource =>
        hdisjoint address ((within_sum_iff hfits).mpr (Or.inl htarget))
          ((within_sum_iff hfits).mpr (Or.inl hsource))
      rw [ntChunks, StateT.run_bind, hpast, Option.bind_eq_bind,
        Option.bind_some,
        ntChunk_run hdst hsrc (rounds_mod_sixteen hearlier),
        copy_copy hfits hdisjoint]
      simp [loopAccesses, List.range_succ]

end Loop

/-! Where the accesses fall. -/

/-- All sixteen bytes lie in the range the access is meant for. -/
def Access.InRange (dst src len : UInt64) : Access → Prop
  | .load address => ∀ lane < 16, Within src len (address + lane)
  | .store address => ∀ lane < 16, Within dst len (address + lane)

section Ranges

variable {dst src len offset : UInt64}

theorem within_lane {base done : UInt64} (hdone : done.toNat ≤ 48)
    (hoffset : offset.toNat + 64 ≤ len.toNat) {lane : UInt64}
    (hlane : lane < 16) : Within base len (base + (offset + done) + lane) := by
  have haddress : base + (offset + done) + lane =
      base + (offset + done + lane) := by grind
  rw [haddress]
  apply within_add
  have hbound := len.toNat_lt
  have hlaneNat : lane.toNat < 16 := UInt64.lt_iff_toNat_lt.mp hlane
  have hdoneSum : (offset + done).toNat = offset.toNat + done.toNat :=
    toNat_sum (by omega)
  have hsum : (offset + done + lane).toNat =
      offset.toNat + done.toNat + lane.toNat := by
    rw [toNat_sum (by omega), hdoneSum]
  rw [UInt64.lt_iff_toNat_lt, hsum]
  omega

theorem chunkAccesses_inRange (hoffset : offset.toNat + 64 ≤ len.toNat)
    {access : Access} (hmem : access ∈ chunkAccesses dst src offset) :
    access.InRange dst src len := by
  have hlane : ∀ base done lane : UInt64, done.toNat ≤ 48 → lane < 16 →
      Within base len (base + (offset + done) + lane) :=
    fun base done lane hdone hlt => within_lane hdone hoffset hlt
  have hzero : ∀ base : UInt64, base + offset = base + (offset + 0) := by
    intro base
    rw [UInt64.add_zero]
  simp only [chunkAccesses, hzero, List.mem_cons, List.not_mem_nil,
    or_false] at hmem
  rcases hmem with rfl | rfl | rfl | rfl | rfl | rfl | rfl | rfl
  all_goals
    intro lane hlt
    exact hlane _ _ lane (by decide) hlt

theorem loopAccesses_inRange {count : Nat} (hcount : count * 64 ≤ len.toNat)
    {access : Access} (hmem : access ∈ loopAccesses dst src count) :
    access.InRange dst src len := by
  obtain ⟨round, hround, haccess⟩ := List.mem_flatMap.mp hmem
  have hlt := List.mem_range.mp hround
  have hbound := len.toNat_lt
  apply chunkAccesses_inRange _ haccess
  rw [toNat_rounds (by omega)]
  omega

end Ranges

theorem ntMemcpy_run {dst src len : UInt64} (hlen : len % 64 = 0)
    (hdst : dst % 16 = 0) (hsrc : src % 16 = 0)
    (hdisjoint : ∀ address, Within dst len address → ¬Within src len address)
    (memory : Memory UInt8) :
    ∃ accesses, (ntMemcpy dst src len).run ⟨memory, []⟩ =
        some ((), ⟨copyNonoverlapping src dst len memory, accesses⟩) ∧
      ∀ access ∈ accesses, access.InRange dst src len := by
  have hchunks : (len / chunkSize).toNat * 64 = len.toNat := by
    have hmod := congrArg UInt64.toNat hlen
    rw [UInt64.toNat_mod] at hmod
    rw [UInt64.toNat_div]
    simp only [UInt64.reduceToNat, chunkSize, cacheLineSize] at hmod ⊢
    omega
  have hbound : (len / chunkSize).toNat * 64 < 2 ^ 64 := by
    rw [hchunks]
    exact len.toNat_lt
  have hlength : UInt64.ofNat (len / chunkSize).toNat * chunkSize = len := by
    apply UInt64.toNat_inj.mp
    rw [toNat_rounds hbound, hchunks]
  have hrun := ntChunks_run hdst hsrc hbound
    (by rw [hlength]; exact hdisjoint) ⟨memory, []⟩
  rw [hlength, List.nil_append] at hrun
  exact ⟨_, hrun, fun access hmem =>
    loopAccesses_inRange (Nat.le_of_eq hchunks) hmem⟩

theorem copyNonoverlapping_inside {dst src len index : UInt64}
    (hindex : index < len) (memory : Memory UInt8) :
    copyNonoverlapping src dst len memory (dst + index) =
      memory (src + index) := by
  have hdistance : dst + index - dst = index := by grind
  rw [copyNonoverlapping, copy, store_within (within_add hindex), hdistance]

theorem copyNonoverlapping_outside {dst src len address : UInt64}
    (houtside : ¬Within dst len address) (memory : Memory UInt8) :
    copyNonoverlapping src dst len memory address = memory address := by
  rw [copyNonoverlapping, copy, store_outside houtside]

end AsmCacheInject.Asm

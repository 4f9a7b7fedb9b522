import AsmCacheInject.Cache.Eviction
import AsmCacheInject.Data.ByteImage
import AsmCacheInject.Engine.Setup

namespace AsmCacheInject.Engine

open AsmCacheInject.Cache
open AsmCacheInject.Data
open AsmCacheInject.Flush

variable {setup : Setup}

/-! Block-addressed device I/O.  An `Lba setup` is an address that has passed
`validate_lba`, so its byte offset never wraps. -/

abbrev Lba (setup : Setup) := Fin setup.maxLba

abbrev Block (setup : Setup) := Fin setup.blockSize → UInt8

abbrev Image := Nat → UInt8

def lbaOffset (lba : Lba setup) : Nat :=
  lba.val * setup.blockSize % 2 ^ 64

theorem lba_end_le (lba : Lba setup) :
    lba.val * setup.blockSize + setup.blockSize ≤ setup.totalBytes := by
  calc
    lba.val * setup.blockSize + setup.blockSize =
        (lba.val + 1) * setup.blockSize := by rw [Nat.succ_mul]
    _ ≤ setup.maxLba * setup.blockSize :=
        Nat.mul_le_mul_right _ lba.isLt
    _ ≤ setup.totalBytes := Nat.div_mul_le_self _ _

theorem lbaOffset_eq (lba : Lba setup) :
    lbaOffset lba = lba.val * setup.blockSize := by
  apply Nat.mod_eq_of_lt
  have hend := lba_end_le lba
  have hpos := setup.blockSize_pos
  have hlt := setup.totalBytes_lt
  omega

/-- The block a successful `read_lba` transfers. -/
def readLba (image : Image) (lba : Lba setup) : Block setup :=
  ByteImage.readAt setup.blockSize image (lbaOffset lba)

def writeLba (image : Image) (lba : Lba setup) (block : Block setup) : Image :=
  ByteImage.writeAt image (lbaOffset lba) block

theorem readLba_writeLba (image : Image) (lba other : Lba setup)
    (block : Block setup) :
    readLba (writeLba image lba block) other =
      if other = lba then block else readLba image other := by
  split
  · next heq =>
    subst heq
    exact ByteImage.readAt_writeAt_same image _ block
  · next hne =>
    have hval : lba.val ≠ other.val := fun heq => hne (Fin.ext heq.symm)
    apply ByteImage.readAt_writeAt_disjoint
    rw [lbaOffset_eq, lbaOffset_eq]
    exact ByteImage.numbered_windows_disjoint hval

theorem writeLba_tail (image : Image) (lba : Lba setup) (block : Block setup)
    {position : Nat} (htail : setup.maxLba * setup.blockSize ≤ position) :
    writeLba image lba block position = image position := by
  apply ByteImage.writeAt_outside
  right
  rw [lbaOffset_eq]
  calc
    lba.val * setup.blockSize + setup.blockSize =
        (lba.val + 1) * setup.blockSize := by rw [Nat.succ_mul]
    _ ≤ setup.maxLba * setup.blockSize := Nat.mul_le_mul_right _ lba.isLt
    _ ≤ position := htail

/-- How one whole-block transfer ends.  A failing transfer leaves arbitrary
contents in the block it was writing. -/
inductive IoOutcome (setup : Setup)
  | ok
  | fail (error : OsError) (torn : Block setup)

def IoOutcome.succeeds : IoOutcome setup → Bool
  | .ok => true
  | .fail _ _ => false

theorem IoOutcome.ne_fail {outcome : IoOutcome setup}
    (hio : outcome.succeeds = true) (error : OsError) (torn : Block setup) :
    outcome ≠ .fail error torn := by
  intro heq
  subst heq
  cases hio

/-! The engine state.  The free list is the pool's `Vec` read from its end, so
its head is the next slot handed out. -/

structure CacheEngine (setup : Setup) where
  table : LbaTable (Lba setup)
  freeList : List Nat
  blocks : Nat → Block setup
  device : Image
  flusher : Option FlushChannel

namespace CacheEngine

/-- The state `CacheEngine::new` returns, over the device image it opened;
`flusher` tells whether `start` has run. -/
def boot (setup : Setup) (image : Image) (flusher : Option FlushChannel) :
    CacheEngine setup where
  table := .new
  freeList := (List.range setup.capacity).reverse
  blocks := fun _ _ => 0
  device := image
  flusher := flusher

def allocate (engine : CacheEngine setup) :
    Except CacheError Nat × CacheEngine setup :=
  match engine.freeList with
  | [] => (.error (.poolExhausted setup.capacity setup.capacity), engine)
  | slot :: rest => (.ok slot, { engine with freeList := rest })

def deallocate (slot : Nat) (engine : CacheEngine setup) : CacheEngine setup :=
  { engine with freeList := slot :: engine.freeList }

def fill (slot : Nat) (block : Block setup) (engine : CacheEngine setup) :
    CacheEngine setup :=
  { engine with blocks := Function.update engine.blocks slot block }

@[simp] theorem fill_blocks_self (slot : Nat) (block : Block setup)
    (engine : CacheEngine setup) : (engine.fill slot block).blocks slot = block := by
  simp [fill]

theorem fill_blocks_of_ne {slot other : Nat} (hne : other ≠ slot)
    (block : Block setup) (engine : CacheEngine setup) :
    (engine.fill slot block).blocks other = engine.blocks other := by
  simp [fill, hne]

@[simp] theorem fill_table (slot : Nat) (block : Block setup)
    (engine : CacheEngine setup) : (engine.fill slot block).table = engine.table :=
  rfl

def fetch (outcome : IoOutcome setup) (lba : Lba setup) (slot : Nat)
    (engine : CacheEngine setup) : Except CacheError Unit × CacheEngine setup :=
  match outcome with
  | .ok => (.ok (), engine.fill slot (readLba engine.device lba))
  | .fail error torn => (.error (.ofIo "pread" error), engine.fill slot torn)

def writeBack (outcome : IoOutcome setup) (lba : Lba setup) (slot : Nat)
    (engine : CacheEngine setup) : Except CacheError Unit × CacheEngine setup :=
  match outcome with
  | .ok =>
      (.ok (), { engine with
        device := writeLba engine.device lba (engine.blocks slot) })
  | .fail error torn =>
      (.error (.ofIo "pwrite" error), { engine with
        device := writeLba engine.device lba torn })

/-- `FlushNotifier::wake`; without a running flusher the notifier is a no-op. -/
def wake (engine : CacheEngine setup) : CacheEngine setup :=
  { engine with flusher := engine.flusher.map FlushChannel.wake }

/-- What the engine holds for an LBA: its pool block when cached, its device
block otherwise. -/
def content (engine : CacheEngine setup) (lba : Lba setup) : Block setup :=
  match engine.table.slotOf lba with
  | some slot => engine.blocks slot
  | none => readLba engine.device lba

theorem content_of_cached {engine : CacheEngine setup} {lba : Lba setup}
    {slot : Nat} (hslot : engine.table.slotOf lba = some slot) :
    engine.content lba = engine.blocks slot := by
  simp [content, hslot]

theorem content_of_absent {engine : CacheEngine setup} {lba : Lba setup}
    (habsent : engine.table.slotOf lba = none) :
    engine.content lba = readLba engine.device lba := by
  simp [content, habsent]

end CacheEngine

end AsmCacheInject.Engine

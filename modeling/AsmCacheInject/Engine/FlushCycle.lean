import AsmCacheInject.Engine.Session

namespace AsmCacheInject.Engine

open AsmCacheInject.Cache
open AsmCacheInject.Data
open AsmCacheInject.Flush

variable {setup : Setup}

/-! One flush cycle, whatever its writes meet and in whatever order the hash
map yields the dirty entries. -/

def IoOutcome.leaves (block : Block setup) : IoOutcome setup → Block setup
  | .ok => block
  | .fail _ torn => torn

namespace CacheEngine

def settle (outcome : IoOutcome setup) (lba : Lba setup) (slot : Nat)
    (engine : CacheEngine setup) : CacheEngine setup :=
  { engine with
    device := writeLba engine.device lba (outcome.leaves (engine.blocks slot))
    table :=
      if outcome.succeeds then engine.table.markClean lba else engine.table }

theorem settle_get_of_ok {outcome : IoOutcome setup} {lba : Lba setup}
    (hok : outcome.succeeds = true) (slot : Nat) (engine : CacheEngine setup) :
    (engine.settle outcome lba slot).table.get lba =
      (engine.table.get lba).map CacheEntry.markClean := by
  simp [settle, hok, LbaTable.get, LbaTable.markClean, Keyed.lookup_modify_eq]

theorem settle_get_of_kept {outcome : IoOutcome setup} {head lba : Lba setup}
    (hkept : lba = head → outcome.succeeds = false) (slot : Nat)
    (engine : CacheEngine setup) :
    (engine.settle outcome head slot).table.get lba = engine.table.get lba := by
  simp only [settle]
  split
  · next hok =>
    have hne : lba ≠ head := by
      intro heq
      rw [hkept heq] at hok
      cases hok
    simp [LbaTable.get, LbaTable.markClean, Keyed.lookup_modify_eq, hne]
  · rfl

section Loop

variable (writes : Lba setup → IoOutcome setup)

theorem flushLoop_cons (lba : Lba setup) (slot : Nat)
    (rest : List (Lba setup × Nat)) (flushed : Nat)
    (engine : CacheEngine setup) :
    flushLoop writes ((lba, slot) :: rest) flushed engine =
      flushLoop writes rest (flushed + if (writes lba).succeeds then 1 else 0)
        (engine.settle (writes lba) lba slot) := by
  cases hwrite : writes lba with
  | ok => simp [flushLoop, writeBack, hwrite, settle, IoOutcome.succeeds,
      IoOutcome.leaves]
  | fail error torn => simp [flushLoop, writeBack, hwrite, settle,
      IoOutcome.succeeds, IoOutcome.leaves]

theorem flushLoop_keeps (snapshot : List (Lba setup × Nat)) (flushed : Nat)
    (engine : CacheEngine setup) :
    (flushLoop writes snapshot flushed engine).2.blocks = engine.blocks ∧
      (flushLoop writes snapshot flushed engine).2.freeList =
        engine.freeList ∧
      (flushLoop writes snapshot flushed engine).2.flusher =
        engine.flusher := by
  induction snapshot generalizing flushed engine with
  | nil => exact ⟨rfl, rfl, rfl⟩
  | cons pair rest ih =>
      rw [flushLoop_cons]
      exact ih _ (engine.settle (writes pair.1) pair.1 pair.2)

theorem flushLoop_fst (snapshot : List (Lba setup × Nat)) (flushed : Nat)
    (engine : CacheEngine setup) :
    (flushLoop writes snapshot flushed engine).1 =
      flushed + ((snapshot.map Prod.fst).filter
        fun lba => (writes lba).succeeds).length := by
  induction snapshot generalizing flushed engine with
  | nil => rfl
  | cons pair rest ih =>
      rw [flushLoop_cons, ih, List.map_cons, List.filter_cons]
      cases (writes pair.1).succeeds with
      | true =>
          simp only [if_true, List.length_cons]
          omega
      | false => simp

theorem flushLoop_get_of_kept {snapshot : List (Lba setup × Nat)}
    {lba : Lba setup}
    (hkept : lba ∈ snapshot.map Prod.fst → (writes lba).succeeds = false)
    (flushed : Nat) (engine : CacheEngine setup) :
    (flushLoop writes snapshot flushed engine).2.table.get lba =
      engine.table.get lba := by
  induction snapshot generalizing flushed engine with
  | nil => rfl
  | cons pair rest ih =>
      obtain ⟨head, slot⟩ := pair
      rw [flushLoop_cons, ih fun hmem => hkept (List.mem_cons_of_mem _ hmem)]
      apply settle_get_of_kept
      intro heq
      rw [← heq]
      exact hkept (by simp [heq])

theorem flushLoop_get_of_ok {snapshot : List (Lba setup × Nat)}
    (hnodup : (snapshot.map Prod.fst).Nodup) {lba : Lba setup}
    (hmem : lba ∈ snapshot.map Prod.fst) (hok : (writes lba).succeeds = true)
    (flushed : Nat) (engine : CacheEngine setup) :
    (flushLoop writes snapshot flushed engine).2.table.get lba =
      (engine.table.get lba).map CacheEntry.markClean := by
  induction snapshot generalizing flushed engine with
  | nil => cases hmem
  | cons pair rest ih =>
      obtain ⟨head, slot⟩ := pair
      obtain ⟨hfresh, hrest⟩ := List.nodup_cons.mp hnodup
      rw [flushLoop_cons]
      rcases List.mem_cons.mp hmem with heq | hlater
      · subst heq
        rw [flushLoop_get_of_kept writes fun hagain => absurd hagain hfresh]
        exact settle_get_of_ok hok slot engine
      · have hne : lba ≠ head := by
          intro heq
          subst heq
          exact hfresh hlater
        rw [ih hrest hlater,
          settle_get_of_kept fun heq => absurd heq hne]

theorem flushLoop_readLba_of_notMem {snapshot : List (Lba setup × Nat)}
    {lba : Lba setup} (hmem : lba ∉ snapshot.map Prod.fst) (flushed : Nat)
    (engine : CacheEngine setup) :
    readLba (flushLoop writes snapshot flushed engine).2.device lba =
      readLba engine.device lba := by
  induction snapshot generalizing flushed engine with
  | nil => rfl
  | cons pair rest ih =>
      obtain ⟨hne, hrest⟩ := not_or.mp (mt List.mem_cons.mpr hmem)
      rw [flushLoop_cons, ih hrest]
      simp only [settle, readLba_writeLba, if_neg hne]

theorem flushLoop_readLba_of_mem {snapshot : List (Lba setup × Nat)}
    (hnodup : (snapshot.map Prod.fst).Nodup) {lba : Lba setup} {slot : Nat}
    (hmem : (lba, slot) ∈ snapshot) (flushed : Nat)
    (engine : CacheEngine setup) :
    readLba (flushLoop writes snapshot flushed engine).2.device lba =
      (writes lba).leaves (engine.blocks slot) := by
  induction snapshot generalizing flushed engine with
  | nil => cases hmem
  | cons pair rest ih =>
      obtain ⟨hfresh, hrest⟩ := List.nodup_cons.mp hnodup
      rw [flushLoop_cons]
      rcases List.mem_cons.mp hmem with heq | hlater
      · subst heq
        rw [flushLoop_readLba_of_notMem writes hfresh]
        simp [settle, readLba_writeLba]
      · exact ih hrest hlater _ _

theorem flushLoop_device_outside {snapshot : List (Lba setup × Nat)}
    {position : Nat}
    (houtside : ∀ lba ∈ snapshot.map Prod.fst,
      position < lba.val * setup.blockSize ∨
        lba.val * setup.blockSize + setup.blockSize ≤ position)
    (flushed : Nat) (engine : CacheEngine setup) :
    (flushLoop writes snapshot flushed engine).2.device position =
      engine.device position := by
  induction snapshot generalizing flushed engine with
  | nil => rfl
  | cons pair rest ih =>
      have hrest : ∀ lba ∈ rest.map Prod.fst,
          position < lba.val * setup.blockSize ∨
            lba.val * setup.blockSize + setup.blockSize ≤ position :=
        fun lba hlba => houtside lba (List.mem_cons_of_mem _ hlba)
      rw [flushLoop_cons, ih hrest]
      apply ByteImage.writeAt_outside
      rw [lbaOffset_eq]
      exact houtside pair.1 List.mem_cons_self

end Loop

/-! What a cycle does, with no mention of the order it took. -/

/-- `after` is `before` with every dirty block written to the device as
`writes` has it, and the entries cleaned whose write succeeded. -/
structure Cycled (writes : Lba setup → IoOutcome setup)
    (before after : CacheEngine setup) : Prop where
  entries : ∀ lba, after.table.get lba =
    (before.table.get lba).map fun entry =>
      { entry with dirty := entry.dirty && !(writes lba).succeeds }
  written : ∀ lba entry, before.table.get lba = some entry →
    entry.dirty = true → readLba after.device lba =
      (writes lba).leaves (before.blocks entry.poolIndex)
  untouched : ∀ position, (∀ lba entry, before.table.get lba = some entry →
      entry.dirty = true → position < lba.val * setup.blockSize ∨
        lba.val * setup.blockSize + setup.blockSize ≤ position) →
    after.device position = before.device position
  blocks : after.blocks = before.blocks
  freeList : after.freeList = before.freeList
  flusher : after.flusher = before.flusher

/-- The same state, up to the order in which the table stores its entries. -/
structure Agree (first second : CacheEngine setup) : Prop where
  entries : ∀ lba, first.table.get lba = second.table.get lba
  device : first.device = second.device
  blocks : first.blocks = second.blocks
  freeList : first.freeList = second.freeList
  flusher : first.flusher = second.flusher

theorem Cycled.agree {writes : Lba setup → IoOutcome setup}
    {before first second : CacheEngine setup}
    (hfirst : Cycled writes before first)
    (hsecond : Cycled writes before second) : Agree first second where
  entries := fun lba => (hfirst.entries lba).trans (hsecond.entries lba).symm
  device := by
    funext position
    by_cases hwritten : ∃ lba entry, before.table.get lba = some entry ∧
        entry.dirty = true ∧ lba.val * setup.blockSize ≤ position ∧
        position < lba.val * setup.blockSize + setup.blockSize
    · obtain ⟨lba, entry, hget, hdirty, hfrom, hbelow⟩ := hwritten
      have hblock : readLba first.device lba = readLba second.device lba :=
        (hfirst.written lba entry hget hdirty).trans
          (hsecond.written lba entry hget hdirty).symm
      have hbyte := congrFun hblock
        ⟨position - lba.val * setup.blockSize, by omega⟩
      simp only [readLba, ByteImage.readAt, lbaOffset_eq] at hbyte
      rwa [Nat.add_sub_cancel' hfrom] at hbyte
    · have houtside : ∀ lba entry, before.table.get lba = some entry →
          entry.dirty = true → position < lba.val * setup.blockSize ∨
            lba.val * setup.blockSize + setup.blockSize ≤ position := by
        intro lba entry hget hdirty
        by_contra hinside
        exact hwritten ⟨lba, entry, hget, hdirty, by omega, by omega⟩
      exact (hfirst.untouched position houtside).trans
        (hsecond.untouched position houtside).symm
  blocks := hfirst.blocks.trans hsecond.blocks.symm
  freeList := hfirst.freeList.trans hsecond.freeList.symm
  flusher := hfirst.flusher.trans hsecond.flusher.symm

theorem flushLoopCalls_eq_map (writes : Lba setup → IoOutcome setup)
    (snapshot : List (Lba setup × Nat)) :
    flushLoopCalls writes snapshot = (snapshot.map Prod.fst).map
      fun lba => .pwrite .cycle lba (writes lba).succeeds := by
  induction snapshot with
  | nil => rfl
  | cons pair rest ih => simp [flushLoopCalls, ih]

namespace Accounted

variable {engine : CacheEngine setup} {lost : List Nat}

theorem cycled (haccounted : engine.Accounted lost)
    (order : HashOrder (CacheEntry (Lba setup)))
    (writes : Lba setup → IoOutcome setup) :
    Cycled writes engine (engine.flushDirtyBlocks order writes).2 := by
  have hnodup := LbaTable.nodup_dirtyEntries_fst haccounted.keyed order
  obtain ⟨hblocks, hfree, hflusher⟩ :=
    flushLoop_keeps writes (engine.table.dirtyEntries order) 0 engine
  refine ⟨?_, ?_, ?_, hblocks, hfree, hflusher⟩
  · intro lba
    have hsnapshot : lba ∈ (engine.table.dirtyEntries order).map Prod.fst →
        ∃ entry, engine.table.get lba = some entry ∧ entry.dirty = true :=
      fun hmem => LbaTable.dirtyOf_eq_some_iff.mp
        ((haccounted.mem_snapshot_iff order).mp hmem)
    cases hget : engine.table.get lba with
    | none =>
        rw [flushDirtyBlocks, flushLoop_get_of_kept, hget]
        · rfl
        · intro hmem
          obtain ⟨entry, hentry, _⟩ := hsnapshot hmem
          rw [hget] at hentry
          cases hentry
    | some entry =>
        rw [Option.map_some]
        cases hdirty : entry.dirty with
        | false =>
            have hsame : { entry with dirty := false } = entry := by
              rw [← hdirty]
            rw [flushDirtyBlocks, flushLoop_get_of_kept, hget]
            · simp [hsame]
            · intro hmem
              obtain ⟨other, hother, hotherDirty⟩ := hsnapshot hmem
              rw [hget] at hother
              cases hother
              rw [hdirty] at hotherDirty
              cases hotherDirty
        | true =>
            cases hwrite : (writes lba).succeeds with
            | false =>
                rw [flushDirtyBlocks, flushLoop_get_of_kept _ fun _ => hwrite,
                  hget, ← hdirty]
                simp
            | true =>
                have hmem := (haccounted.mem_snapshot_iff order).mpr
                  (LbaTable.dirtyOf_eq_some_iff.mpr ⟨entry, hget, hdirty⟩)
                rw [flushDirtyBlocks,
                  flushLoop_get_of_ok writes hnodup hmem hwrite, hget]
                rfl
  · intro lba entry hget hdirty
    apply flushLoop_readLba_of_mem writes hnodup
    apply (LbaTable.mem_dirtyEntries_iff haccounted.keyed order).mpr
    exact ⟨LbaTable.slotOf_eq_some_iff.mpr ⟨entry, hget, rfl⟩,
      LbaTable.dirtyOf_eq_some_iff.mpr ⟨entry, hget, hdirty⟩⟩
  · intro position houtside
    apply flushLoop_device_outside
    intro lba hmem
    obtain ⟨entry, hget, hdirty⟩ := LbaTable.dirtyOf_eq_some_iff.mp
      ((haccounted.mem_snapshot_iff order).mp hmem)
    exact houtside lba entry hget hdirty

theorem flushDirtyBlocks_fst (haccounted : engine.Accounted lost)
    (order : HashOrder (CacheEntry (Lba setup)))
    (writes : Lba setup → IoOutcome setup) :
    (engine.flushDirtyBlocks order writes).1 =
      (Finset.univ.filter fun lba => engine.table.dirtyOf lba = some true ∧
        (writes lba).succeeds = true).card := by
  have hnodup := LbaTable.nodup_dirtyEntries_fst haccounted.keyed order
  rw [flushDirtyBlocks, flushLoop_fst, Nat.zero_add,
    ← List.toFinset_card_of_nodup (hnodup.filter _)]
  congr 1
  ext lba
  simp only [List.mem_toFinset, List.mem_filter, Finset.mem_filter,
    Finset.mem_univ, true_and, haccounted.mem_snapshot_iff]

theorem flushDirtyBlocks (haccounted : engine.Accounted lost)
    (order : HashOrder (CacheEntry (Lba setup)))
    (writes : Lba setup → IoOutcome setup) :
    (engine.flushDirtyBlocks order writes).2.Accounted lost :=
  haccounted.flushLoop writes _ 0

theorem flushDirtyBlocks_calls (haccounted : engine.Accounted lost)
    (order : HashOrder (CacheEntry (Lba setup)))
    (writes : Lba setup → IoOutcome setup) :
    (flushLoopCalls writes (engine.table.dirtyEntries order)).Nodup ∧
      ∀ call, call ∈ flushLoopCalls writes (engine.table.dirtyEntries order) ↔
        ∃ lba, engine.table.dirtyOf lba = some true ∧
          call = .pwrite .cycle lba (writes lba).succeeds := by
  rw [flushLoopCalls_eq_map]
  constructor
  · apply (LbaTable.nodup_dirtyEntries_fst haccounted.keyed order).map
    intro first second heq
    cases heq
    rfl
  · intro call
    rw [List.mem_map]
    constructor
    · rintro ⟨lba, hmem, rfl⟩
      exact ⟨lba, (haccounted.mem_snapshot_iff order).mp hmem, rfl⟩
    · rintro ⟨lba, hdirty, rfl⟩
      exact ⟨lba, (haccounted.mem_snapshot_iff order).mpr hdirty, rfl⟩

end Accounted

theorem flush_cycle_settles (image : Image) (flusher : Option FlushChannel)
    (run : List (Request setup)) (order : HashOrder (CacheEntry (Lba setup)))
    (writes : Lba setup → IoOutcome setup) :
    let engine := (boot setup image flusher).runAll run
    let cycle := engine.flushDirtyBlocks order writes
    (∀ otherOrder,
      (engine.flushDirtyBlocks otherOrder writes).1 = cycle.1 ∧
        Agree (engine.flushDirtyBlocks otherOrder writes).2 cycle.2) ∧
    Cycled writes engine cycle.2 ∧
    cycle.1 = (Finset.univ.filter fun lba =>
      engine.table.dirtyOf lba = some true ∧
        (writes lba).succeeds = true).card ∧
    ∀ nextOrder nextWrites,
      (∀ lba, ((nextWrites : Lba setup → IoOutcome setup) lba).succeeds =
        true) →
      let next := cycle.2.flushDirtyBlocks nextOrder nextWrites
      (flushLoopCalls nextWrites
        (cycle.2.table.dirtyEntries nextOrder)).Nodup ∧
      (∀ call, call ∈ flushLoopCalls nextWrites
          (cycle.2.table.dirtyEntries nextOrder) ↔
        ∃ lba, engine.table.dirtyOf lba = some true ∧
          (writes lba).succeeds = false ∧ call = .pwrite .cycle lba true) ∧
      ∀ lastOrder lastWrites,
        flushLoopCalls lastWrites (next.2.table.dirtyEntries lastOrder) = [] ∧
          (next.2.flushDirtyBlocks lastOrder lastWrites).1 = 0 := by
  intro engine cycle
  obtain ⟨lost, haccounted⟩ := runAll_accounted image flusher run
  have hcycle : cycle.2.Accounted lost := haccounted.flushDirtyBlocks order writes
  refine ⟨?_, haccounted.cycled order writes,
    haccounted.flushDirtyBlocks_fst order writes, ?_⟩
  · intro otherOrder
    refine ⟨?_, (haccounted.cycled otherOrder writes).agree
      (haccounted.cycled order writes)⟩
    rw [haccounted.flushDirtyBlocks_fst otherOrder writes,
      haccounted.flushDirtyBlocks_fst order writes]
  · intro nextOrder nextWrites hok next
    have hnext : next.2.Accounted lost :=
      hcycle.flushDirtyBlocks nextOrder nextWrites
    obtain ⟨hnodup, hcalls⟩ :=
      hcycle.flushDirtyBlocks_calls nextOrder nextWrites
    refine ⟨hnodup, ?_, ?_⟩
    · intro call
      have hfailed : ∀ lba, cycle.2.table.dirtyOf lba = some true ↔
          engine.table.dirtyOf lba = some true ∧
            (writes lba).succeeds = false :=
        haccounted.dirtyOf_flushDirtyBlocks order writes
      simp only [hcalls, hfailed, hok, and_assoc]
    · intro lastOrder lastWrites
      have hclean : ∀ lba, next.2.table.dirtyOf lba ≠ some true := by
        intro lba hdirty
        obtain ⟨_, hfailed⟩ :=
          (hcycle.dirtyOf_flushDirtyBlocks nextOrder nextWrites lba).mp hdirty
        rw [hok lba] at hfailed
        cases hfailed
      constructor
      · apply List.eq_nil_iff_forall_not_mem.mpr
        intro call hcall
        obtain ⟨lba, hdirty, _⟩ :=
          ((hnext.flushDirtyBlocks_calls lastOrder lastWrites).2 call).mp hcall
        exact hclean lba hdirty
      · rw [hnext.flushDirtyBlocks_fst lastOrder lastWrites]
        simp [hclean]

end CacheEngine

end AsmCacheInject.Engine

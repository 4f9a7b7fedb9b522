import AsmCacheInject.Engine.Transparency
import AsmCacheInject.Native.Blocks

namespace AsmCacheInject.Native

open AsmCacheInject.Asm
open AsmCacheInject.Cache
open AsmCacheInject.Data
open AsmCacheInject.Data.AddressSpace
open AsmCacheInject.Engine
open AsmCacheInject.Memory

variable {setup : Setup}

/-! The read path, the write path and the flush cycle against the engine of
whole blocks. -/

namespace NativeEngine

variable {platform : Platform setup} {engine : NativeEngine setup}
variable {blocks : Nat → Block setup} {slot : Nat} {lba : Lba setup}

/-! Slots. -/

theorem mapped_lt {plain : CacheEngine setup} {lost : List Nat}
    (haccounted : plain.Accounted lost)
    (hmapped : plain.table.slotOf lba = some slot) : slot < setup.capacity := by
  apply haccounted.mem_pool
  have hmem : slot ∈ plain.table.slots := LbaTable.mem_slots_iff.mpr ⟨lba, hmapped⟩
  simp [hmem]

theorem allocate_view (platform : Platform setup) (engine : NativeEngine setup)
    (blocks : Nat → Block setup) :
    ∃ result next, engine.allocate platform =
        (result.map fun slot => (slot, platform.block slot), next) ∧
      next.memory = engine.memory ∧
      (engine.view blocks).allocate = (result, next.view blocks) := by
  cases hfree : engine.freeList with
  | nil =>
      refine ⟨.error (.poolExhausted setup.capacity setup.capacity),
        { engine with freeList := [] }, ?_, rfl, ?_⟩
      · simp [allocate, pool, MemoryPool.allocate, hfree, Except.map]
      · simp [CacheEngine.allocate, view, hfree]
  | cons slot rest =>
      refine ⟨.ok slot, { engine with freeList := rest }, ?_, rfl, ?_⟩
      · simp [allocate, pool, MemoryPool.allocate, hfree, Except.map]
        rfl
      · simp [CacheEngine.allocate, view, hfree]

theorem allocateOrEvict_view (hsize : setup.totalBytes ≤ 2 ^ 63 - 1)
    (hholds : Holds platform engine.memory blocks) {lost : List Nat}
    (haccounted : (engine.view blocks).Accounted lost)
    (env : Surroundings setup) :
    ∃ result next evict,
      engine.allocateOrEvict platform env =
        some (result.map fun slot => (slot, platform.block slot), next) ∧
      next.memory = engine.memory ∧
      ∀ fetch, (engine.view blocks).allocateOrEvict (env.plain evict fetch) =
        (result, next.view blocks) := by
  obtain ⟨result, taken, hnative, hmemory, hplain⟩ :=
    allocate_view platform engine blocks
  cases result with
  | ok slot =>
      refine ⟨.ok slot, taken, .ok, ?_, hmemory, ?_⟩
      · rw [allocateOrEvict, hnative]
        rfl
      · intro fetch
        rw [CacheEngine.allocateOrEvict, hplain]
  | error error =>
      simp only [Except.map] at hnative
      simp only [allocateOrEvict, hnative, CacheEngine.allocateOrEvict, hplain,
        Surroundings.plain_order, Surroundings.plain_evict, view_table]
      cases hselect : selectEvictionCandidate env.order engine.table with
      | none => exact ⟨.error _, engine, .ok, rfl, rfl, fun _ => rfl⟩
      | some candidate =>
          have hvictim : candidate.poolIndex < setup.capacity :=
            mapped_lt haccounted
              (selectEvictionCandidate_spec haccounted.keyed hselect).1
          cases hflush : candidate.needsFlush with
          | false =>
              obtain ⟨result, next, hnext, hsame, hfinal⟩ := allocate_view platform
                (engine.dropVictim platform candidate) blocks
              simp only [hflush, Bool.false_eq_true, if_false]
              exact ⟨result, next, .ok, congrArg some hnext, hsame,
                fun _ => hfinal⟩
          | true =>
              obtain ⟨result, written, evict, hwrite, hkept, hback⟩ :=
                writeLba_view hsize hholds hvictim candidate.lba env.evict
              have hblock : engine.getBlock platform candidate.poolIndex =
                  platform.block candidate.poolIndex := rfl
              simp only [hflush, if_true, hblock, hwrite]
              cases result with
              | error failure =>
                  refine ⟨.error failure, written, evict, rfl, hkept, ?_⟩
                  intro fetch
                  rw [hback]
              | ok success =>
                  obtain ⟨result, next, hnext, hsame, hfinal⟩ := allocate_view
                    platform (written.wake.dropVictim platform candidate) blocks
                  refine ⟨result, next, evict, congrArg some hnext,
                    hsame.trans hkept, ?_⟩
                  intro fetch
                  rw [hback]
                  exact hfinal

/-! Copies out of the pool. -/

theorem copyOut_view (hholds : Holds platform engine.memory blocks)
    (hslot : slot < setup.capacity) {target : UInt64}
    (htarget : platform.Apart target) {memory : Memory UInt8}
    (hmemory : memory = fastCopyTemporal platform.erms target
      (platform.block slot).ptr (.ofNat setup.blockSize) engine.memory) :
    Holds platform memory blocks ∧ bytesAt memory target = blocks slot ∧
      ∀ address, ¬Within target (.ofNat setup.blockSize) address →
        memory address = engine.memory address := by
  have hdisjoint : ∀ address, Within target (.ofNat setup.blockSize) address →
      ¬Within (platform.block slot).ptr (.ofNat setup.blockSize) address := by
    intro address hwithin hcontains
    exact htarget address hwithin (Platform.block_inPool hslot hcontains)
  rw [fastCopyTemporal_eq platform.erms engine.memory hdisjoint] at hmemory
  subst hmemory
  refine ⟨hholds.congr ?_, ?_, ?_⟩
  · intro address hpool
    apply copyNonoverlapping_outside
    intro hwithin
    exact htarget address hwithin hpool
  · rw [← hholds slot hslot]
    funext index
    exact copyNonoverlapping_inside (platform.index_lt index) _
  · intro address houtside
    exact copyNonoverlapping_outside houtside _

theorem cachedRead_view (hsize : setup.totalBytes ≤ 2 ^ 63 - 1)
    (hholds : Holds platform engine.memory blocks) {lost : List Nat}
    (haccounted : (engine.view blocks).Accounted lost) {target : UInt64}
    (htarget : platform.Apart target) (env : Surroundings setup)
    (lba : Lba setup) :
    ∃ result next evict fetch blocksNext,
      engine.cachedRead platform env lba target =
        some (result.map fun read => ⟨read.cacheHit⟩, next) ∧
      (engine.view blocks).cachedRead (env.plain evict fetch) lba =
        (result, next.view blocksNext) ∧
      Holds platform next.memory blocksNext ∧
      (∀ read, result = .ok read → bytesAt next.memory target = read.data) ∧
      ∀ address, ¬platform.InPool address →
        (∀ read, result = .ok read →
          ¬Within target (.ofNat setup.blockSize) address) →
        next.memory address = engine.memory address := by
  rcases hlookup : engine.table.getAndTouch env.now lba with ⟨hit, table⟩
  cases hit with
  | some slot =>
      have hslot : slot < setup.capacity := by
        have hmapped := LbaTable.getAndTouch_fst engine.table lba env.now
        rw [hlookup] at hmapped
        exact mapped_lt haccounted hmapped.symm
      obtain ⟨hheld, hdata, hframe⟩ := copyOut_view hholds hslot htarget rfl
      refine ⟨.ok ⟨true, blocks slot⟩, { engine with table := table, memory := _ },
        .ok, .ok, blocks, ?_, ?_, hheld, ?_, ?_⟩
      · simp only [cachedRead, hlookup]
        rfl
      · simp only [CacheEngine.cachedRead, view_table, Surroundings.plain_now,
          hlookup]
        rfl
      · rintro read ⟨⟩
        exact hdata
      · intro address _ houtside
        exact hframe address (houtside _ rfl)
  | none =>
      obtain ⟨result, held, evict, hnative, hkept, hplain⟩ :=
        allocateOrEvict_view hsize hholds haccounted env
      simp only [cachedRead, hlookup, hnative, CacheEngine.cachedRead, view_table,
        Surroundings.plain_now]
      cases result with
      | error error =>
          refine ⟨.error error, held, evict, .ok, blocks, rfl, ?_, ?_, ?_, ?_⟩
          · rw [hplain]
          · rw [hkept]
            exact hholds
          · rintro read ⟨⟩
          · intro address _ _
            rw [hkept]
      | ok slot =>
          have hslot : slot < setup.capacity :=
            (haccounted.allocateOrEvict_ok (hplain .ok)).1.mem_pool (by simp)
          obtain ⟨result, loaded, fetch, blocksNext, hread, hfetch, hloaded,
            hframe⟩ := readLba_view hsize (hkept ▸ hholds) hslot lba env.fetch
          simp only [Except.map, hread]
          cases result with
          | error error =>
              refine ⟨.error error, loaded, evict, fetch, blocksNext, rfl, ?_,
                hloaded, ?_, ?_⟩
              · rw [hplain]
                simp only [Surroundings.plain_fetch, hfetch]
              · rintro read ⟨⟩
              · intro address hpool _
                rw [hframe address hpool, hkept]
          | ok success =>
              obtain ⟨hfinal, hdata, hcopied⟩ :=
                copyOut_view hloaded hslot htarget rfl
              refine ⟨.ok ⟨false, blocksNext slot⟩, { loaded with
                table := _, memory := _ }, evict, fetch, blocksNext, rfl, ?_,
                hfinal, ?_, ?_⟩
              · rw [hplain]
                simp only [Surroundings.plain_fetch, hfetch]
                rfl
              · rintro read ⟨⟩
                exact hdata
              · intro address hpool houtside
                exact (hcopied address (houtside _ rfl)).trans
                  ((hframe address hpool).trans (congrFun hkept address))

/-! Copies into the pool. -/

/-- The streaming copy faults on a misaligned buffer and fills the block
otherwise. -/
theorem copyIn_view (hholds : Holds platform engine.memory blocks)
    (hslot : slot < setup.capacity) {source : UInt64}
    (hsource : platform.Apart source) :
    (source % 16 ≠ 0 ∧ engine.copyIn (platform.block slot) source = none) ∨
    ∃ stored blocksNext,
      engine.copyIn (platform.block slot) source = some stored ∧
      stored.view blocksNext =
        (engine.view blocks).fill slot (bytesAt engine.memory source) ∧
      Holds platform stored.memory blocksNext ∧
      ∀ address, ¬platform.InPool address →
        stored.memory address = engine.memory address := by
  by_cases haligned : source % 16 = 0
  · right
    have hdst : (platform.block slot).ptr % 16 = 0 :=
      @MemoryPool.getBlock_mod_sixteen platform.backing _ platform.pool_lt
        platform.aligned hslot
    have hlen : UInt64.ofNat setup.blockSize % 64 = 0 :=
      @MemoryPool.getBlock_size_chunks platform.backing platform.pool_lt slot
    have hdisjoint : ∀ address,
        Within (platform.block slot).ptr (.ofNat setup.blockSize) address →
          ¬Within source (.ofNat setup.blockSize) address := by
      intro address hcontains hwithin
      exact hsource address hwithin (Platform.block_inPool hslot hcontains)
    obtain ⟨accesses, hrun, -⟩ :=
      ntMemcpy_run hlen hdst haligned hdisjoint engine.memory
    have houtside : ∀ address, ¬(platform.block slot).Contains address →
        copyNonoverlapping source (platform.block slot).ptr
          (.ofNat setup.blockSize) engine.memory address = engine.memory address :=
      fun address hcontains => copyNonoverlapping_outside hcontains _
    refine ⟨{ engine with memory := _ }, _, congrArg (Option.map _) hrun, rfl,
      hholds.update hslot ?_ houtside, ?_⟩
    · funext index
      exact copyNonoverlapping_inside (platform.index_lt index) _
    · intro address hpool
      exact houtside address fun hcontains =>
        hpool (Platform.block_inPool hslot hcontains)
  · left
    have hpage := Nat.le_of_dvd setup.blockSize_pos setup.page_dvd
    have hlen : 64 ≤ (UInt64.ofNat setup.blockSize).toNat := by
      rw [platform.toNat_blockSize]
      omega
    exact ⟨haligned, congrArg (Option.map _) (ntMemcpy_misaligned hlen haligned _)⟩

theorem maybeWakeFlusher_view (engine : NativeEngine setup)
    (blocks : Nat → Block setup) :
    (engine.view blocks).maybeWakeFlusher = engine.maybeWakeFlusher.view blocks ∧
      engine.maybeWakeFlusher.memory = engine.memory := by
  simp only [maybeWakeFlusher, CacheEngine.maybeWakeFlusher, view_table]
  split
  · exact ⟨rfl, rfl⟩
  · exact ⟨rfl, rfl⟩

theorem cachedWrite_view (hsize : setup.totalBytes ≤ 2 ^ 63 - 1)
    (hholds : Holds platform engine.memory blocks) {lost : List Nat}
    (haccounted : (engine.view blocks).Accounted lost) {source : UInt64}
    (hsource : platform.Apart source) (env : Surroundings setup)
    (lba : Lba setup) :
    (source % 16 ≠ 0 ∧ engine.cachedWrite platform env lba source = none) ∨
    ∃ result next evict blocksNext,
      engine.cachedWrite platform env lba source = some (result, next) ∧
      (engine.view blocks).cachedWrite (env.plain evict .ok) lba
        (bytesAt engine.memory source) = (result, next.view blocksNext) ∧
      Holds platform next.memory blocksNext ∧
      ∀ address, ¬platform.InPool address →
        next.memory address = engine.memory address := by
  unfold cachedWrite CacheEngine.cachedWrite
  cases hreadOnly : setup.readOnly with
  | true =>
      right
      exact ⟨_, engine, .ok, blocks, rfl, rfl, hholds, fun _ _ => rfl⟩
  | false =>
      simp only [Bool.false_eq_true, if_false, view_table, Surroundings.plain_now,
        Surroundings.plain_later]
      cases hget : engine.table.get lba with
      | some entry =>
          have hslot : entry.poolIndex < setup.capacity :=
            mapped_lt haccounted
              (LbaTable.slotOf_eq_some_iff.mpr ⟨entry, hget, rfl⟩)
          have hblock : engine.getBlock platform entry.poolIndex =
              platform.block entry.poolIndex := rfl
          simp only [hblock]
          rcases copyIn_view hholds hslot hsource with ⟨hmisaligned, hfault⟩ |
            ⟨stored, blocksNext, hcopy, hfill, hstored, hframe⟩
          · left
            rw [hfault]
            exact ⟨hmisaligned, rfl⟩
          · right
            obtain ⟨hwake, hsame⟩ := maybeWakeFlusher_view
              { stored with table := stored.table.markDirty env.now lba } blocksNext
            rw [hcopy, ← hfill]
            refine ⟨.ok ⟨true⟩, _, .ok, blocksNext, rfl, congrArg _ hwake, ?_, ?_⟩
            · rw [hsame]
              exact hstored
            · intro address hpool
              rw [hsame]
              exact hframe address hpool
      | none =>
          obtain ⟨result, held, evict, hnative, hkept, hplain⟩ :=
            allocateOrEvict_view hsize hholds haccounted env
          cases result with
          | error error =>
              right
              rw [hnative]
              refine ⟨.error error, held, evict, blocks, rfl, ?_, ?_, ?_⟩
              · rw [hplain]
              · rw [hkept]
                exact hholds
              · intro address _
                rw [hkept]
          | ok slot =>
              have hslot : slot < setup.capacity :=
                (haccounted.allocateOrEvict_ok (hplain .ok)).1.mem_pool (by simp)
              rw [← hkept] at hholds ⊢
              simp only [hnative, Except.map]
              rcases copyIn_view hholds hslot hsource with ⟨hmisaligned, hfault⟩ |
                ⟨stored, blocksNext, hcopy, hfill, hstored, hframe⟩
              · left
                rw [hfault]
                exact ⟨hmisaligned, rfl⟩
              · right
                obtain ⟨hwake, hsame⟩ := maybeWakeFlusher_view
                  { stored with table := (stored.table.insert lba
                    ((CacheEntry.new env.now lba slot).markDirty env.later)).2 }
                  blocksNext
                rw [hcopy]
                refine ⟨.ok ⟨false⟩, _, evict, blocksNext, rfl, ?_, ?_, ?_⟩
                · rw [hplain]
                  simp only [← hfill]
                  exact congrArg _ hwake
                · rw [hsame]
                  exact hstored
                · intro address hpool
                  rw [hsame]
                  exact hframe address hpool

/-! The flush cycle. -/

theorem flushLoop_congr {writes other : Lba setup → IoOutcome setup}
    {snapshot : List (Lba setup × Nat)}
    (hsame : ∀ lba ∈ snapshot.map Prod.fst, writes lba = other lba)
    (flushed : Nat) (plain : CacheEngine setup) :
    CacheEngine.flushLoop writes snapshot flushed plain =
      CacheEngine.flushLoop other snapshot flushed plain := by
  induction snapshot generalizing flushed plain with
  | nil => rfl
  | cons pair rest ih =>
      obtain ⟨lba, slot⟩ := pair
      rw [List.map_cons, List.forall_mem_cons] at hsame
      simp only [CacheEngine.flushLoop, hsame.1]
      split
      · exact ih hsame.2 _ _
      · exact ih hsame.2 _ _

theorem flushLoop_view (hsize : setup.totalBytes ≤ 2 ^ 63 - 1)
    {snapshot : List (Lba setup × Nat)}
    (hnodup : (snapshot.map Prod.fst).Nodup)
    (hslots : ∀ pair ∈ snapshot, pair.2 < setup.capacity)
    (hholds : Holds platform engine.memory blocks)
    (answers : Lba setup → Answers setup) (flushed : Nat) :
    ∃ count next writes,
      flushLoop platform answers snapshot flushed engine = some (count, next) ∧
      next.memory = engine.memory ∧
      CacheEngine.flushLoop writes snapshot flushed (engine.view blocks) =
        (count, next.view blocks) := by
  induction snapshot generalizing engine flushed with
  | nil => exact ⟨flushed, engine, fun _ => .ok, rfl, rfl, rfl⟩
  | cons pair rest ih =>
      obtain ⟨lba, slot⟩ := pair
      rw [List.map_cons, List.nodup_cons] at hnodup
      rw [List.forall_mem_cons] at hslots
      obtain ⟨result, written, outcome, hwrite, hkept, hback⟩ :=
        writeLba_view hsize hholds hslots.1 lba (answers lba)
      have hblock : engine.getBlock platform slot = platform.block slot := rfl
      have hothers : ∀ (writes : Lba setup → IoOutcome setup) (count : Nat) plain,
          CacheEngine.flushLoop (Function.update writes lba outcome) rest count
            plain = CacheEngine.flushLoop writes rest count plain := by
        intro writes count plain
        apply flushLoop_congr
        intro other hother
        apply Function.update_of_ne
        rintro rfl
        exact hnodup.1 hother
      cases result with
      | ok success =>
          have hheld : Holds platform
              { written with table := written.table.markClean lba }.memory
              blocks := by
            rw [hkept]
            exact hholds
          obtain ⟨count, next, writes, hrun, hmemory, hplain⟩ :=
            ih hnodup.2 hslots.2 hheld (flushed + 1)
          refine ⟨count, next, Function.update writes lba outcome, ?_,
            hmemory.trans hkept, ?_⟩
          · simp only [flushLoop, hblock, hwrite]
            exact hrun
          · simp only [CacheEngine.flushLoop, Function.update_self, hback, hothers]
            exact hplain
      | error error =>
          obtain ⟨count, next, writes, hrun, hmemory, hplain⟩ :=
            ih hnodup.2 hslots.2 (hkept ▸ hholds) flushed
          refine ⟨count, next, Function.update writes lba outcome, ?_,
            hmemory.trans hkept, ?_⟩
          · simp only [flushLoop, hblock, hwrite]
            exact hrun
          · simp only [CacheEngine.flushLoop, Function.update_self, hback, hothers]
            exact hplain

theorem flushDirtyBlocks_view (hsize : setup.totalBytes ≤ 2 ^ 63 - 1)
    (hholds : Holds platform engine.memory blocks) {lost : List Nat}
    (haccounted : (engine.view blocks).Accounted lost)
    (order : HashOrder (CacheEntry (Lba setup)))
    (answers : Lba setup → Answers setup) :
    ∃ count next writes,
      engine.flushDirtyBlocks platform order answers = some (count, next) ∧
      next.memory = engine.memory ∧
      (engine.view blocks).flushDirtyBlocks order writes =
        (count, next.view blocks) := by
  obtain ⟨hnodup, hpairs⟩ :=
    CacheEngine.Coherent.pending_dirtyEntries haccounted order
  apply flushLoop_view hsize hnodup _ hholds answers 0
  rintro ⟨lba, slot⟩ hmem
  exact mapped_lt haccounted (hpairs lba slot hmem).1

end NativeEngine

end AsmCacheInject.Native

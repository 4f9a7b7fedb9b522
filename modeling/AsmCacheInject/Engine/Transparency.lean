import AsmCacheInject.Engine.Accounting

namespace AsmCacheInject.Engine

open AsmCacheInject.Cache
open AsmCacheInject.Data
open AsmCacheInject.Flush

variable {setup : Setup}

namespace CacheEngine

/-! Coherence with a plain map.  `logical` is what a client expects to read;
a clean entry repeats its device block, so only dirty entries are
authoritative.  Bytes behind the last block are still those of `image`. -/

structure Coherent (image : Image) (logical : Lba setup → Block setup)
    (engine : CacheEngine setup) : Prop where
  content : ∀ lba, engine.content lba = logical lba
  clean : ∀ lba slot, engine.table.slotOf lba = some slot →
    engine.table.dirtyOf lba = some false →
    engine.blocks slot = readLba engine.device lba
  tail : ∀ position, setup.maxLba * setup.blockSize ≤ position →
    engine.device position = image position

namespace Coherent

variable {image : Image} {logical : Lba setup → Block setup}
variable {engine : CacheEngine setup} {lost : List Nat}

theorem boot (image : Image) (flusher : Option FlushChannel) :
    Coherent image (readLba image) (CacheEngine.boot setup image flusher) where
  content := fun lba =>
    content_of_absent (LbaTable.slotOf_new lba)
  clean := by
    intro lba slot hslot
    rw [show (CacheEngine.boot setup image flusher).table = LbaTable.new from rfl,
      LbaTable.slotOf_new] at hslot
    cases hslot
  tail := fun _ _ => rfl

theorem same_view (hcoherent : Coherent image logical engine)
    {next : CacheEngine setup}
    (hslots : next.table.slotOf = engine.table.slotOf)
    (hdirty : next.table.dirtyOf = engine.table.dirtyOf)
    (hblocks : next.blocks = engine.blocks)
    (hdevice : next.device = engine.device) :
    Coherent image logical next where
  content := by
    intro lba
    rw [← hcoherent.content lba]
    simp only [CacheEngine.content, hslots, hblocks, hdevice]
  clean := by
    rw [hslots, hdirty, hblocks, hdevice]
    exact hcoherent.clean
  tail := by
    rw [hdevice]
    exact hcoherent.tail

theorem fill_unmapped (hcoherent : Coherent image logical engine) {slot : Nat}
    (hunmapped : ∀ lba, engine.table.slotOf lba ≠ some slot)
    (block : Block setup) : Coherent image logical (engine.fill slot block) := by
  have hother : ∀ lba mapped, engine.table.slotOf lba = some mapped →
      (engine.fill slot block).blocks mapped = engine.blocks mapped := by
    intro lba mapped hmapped
    apply fill_blocks_of_ne
    intro heq
    subst heq
    exact hunmapped lba hmapped
  constructor
  · intro lba
    rw [← hcoherent.content lba]
    cases hslot : engine.table.slotOf lba with
    | none =>
        rw [content_of_absent hslot]
        exact content_of_absent hslot
    | some mapped =>
        rw [content_of_cached hslot, ← hother lba mapped hslot]
        exact content_of_cached hslot
  · intro lba mapped hmapped hclean
    rw [hother lba mapped hmapped]
    exact hcoherent.clean lba mapped hmapped hclean
  · exact hcoherent.tail

/-- The device block of a cached LBA may change as long as the entry stays
dirty or the new contents are the pool block. -/
theorem write_cached (hcoherent : Coherent image logical engine)
    {lba : Lba setup} {slot : Nat} (hslot : engine.table.slotOf lba = some slot)
    {block : Block setup}
    (hblock : engine.table.dirtyOf lba = some true ∨ block = engine.blocks slot) :
    Coherent image logical
      { engine with device := writeLba engine.device lba block } := by
  constructor
  · intro other
    rw [← hcoherent.content other]
    cases hother : engine.table.slotOf other with
    | some mapped =>
        rw [content_of_cached hother]
        exact content_of_cached hother
    | none =>
        have hne : other ≠ lba := by
          intro heq
          subst heq
          rw [hslot] at hother
          cases hother
        rw [content_of_absent hother]
        have hcontent : CacheEngine.content
            { engine with device := writeLba engine.device lba block } other =
            readLba (writeLba engine.device lba block) other :=
          content_of_absent hother
        rw [hcontent, readLba_writeLba, if_neg hne]
  · intro other mapped hmapped hclean
    rw [readLba_writeLba]
    split
    · next heq =>
      subst heq
      rcases hblock with hdirty | rfl
      · rw [hdirty] at hclean
        cases hclean
      · rw [hslot] at hmapped
        cases hmapped
        rfl
    · exact hcoherent.clean other mapped hmapped hclean
  · intro position htail
    exact (writeLba_tail _ _ _ htail).trans (hcoherent.tail position htail)

theorem remove_written (hcoherent : Coherent image logical engine)
    {lba : Lba setup} {slot : Nat} (hslot : engine.table.slotOf lba = some slot)
    (hwritten : engine.blocks slot = readLba engine.device lba) :
    Coherent image logical
      { engine with table := (engine.table.remove lba).2 } := by
  constructor
  · intro other
    rw [← hcoherent.content other]
    by_cases heq : other = lba
    · subst heq
      rw [content_of_cached hslot, hwritten]
      apply content_of_absent
      simp [LbaTable.slotOf_remove]
    · simp only [CacheEngine.content, LbaTable.slotOf_remove, if_neg heq]
  · intro other mapped hmapped hclean
    simp only [LbaTable.slotOf_remove, LbaTable.dirtyOf_remove] at hmapped hclean
    split at hmapped
    · cases hmapped
    · next hne =>
      rw [if_neg hne] at hclean
      exact hcoherent.clean other mapped hmapped hclean
  · exact hcoherent.tail

theorem allocateOrEvict (hcoherent : Coherent image logical engine)
    (haccounted : engine.Accounted lost) (env : OpEnv setup) :
    Coherent image logical (engine.allocateOrEvict env).2 := by
  rcases engine.allocateOrEvict_cases env with
    ⟨_, _, _, heq⟩ | ⟨_, _, heq⟩ | ⟨candidate, _, torn, _, hselect, hflush, _, heq⟩ |
    ⟨candidate, _, hselect, _, _, heq⟩ | ⟨candidate, _, hselect, hflush, heq⟩
  · rw [heq]
    exact hcoherent.same_view rfl rfl rfl rfl
  · rw [heq]
    exact hcoherent
  · obtain ⟨hslot, hdirty⟩ := selectEvictionCandidate_spec haccounted.keyed hselect
    rw [hflush] at hdirty
    rw [heq]
    exact hcoherent.write_cached hslot (Or.inl hdirty)
  · obtain ⟨hslot, _⟩ := selectEvictionCandidate_spec haccounted.keyed hselect
    have hwritten := hcoherent.write_cached hslot (Or.inr rfl)
    have hremoved := hwritten.remove_written hslot (by
      simp [readLba_writeLba])
    rw [heq]
    exact hremoved.same_view rfl rfl rfl rfl
  · obtain ⟨hslot, hdirty⟩ := selectEvictionCandidate_spec haccounted.keyed hselect
    rw [hflush] at hdirty
    rw [heq]
    exact hcoherent.remove_written hslot
      (hcoherent.clean candidate.lba candidate.poolIndex hslot hdirty)

theorem insert_filled (hcoherent : Coherent image logical engine)
    {lba : Lba setup} {slot : Nat} (habsent : engine.table.slotOf lba = none)
    (hunmapped : ∀ other, engine.table.slotOf other ≠ some slot)
    (block : Block setup) (entry : CacheEntry (Lba setup))
    (hslot : entry.poolIndex = slot)
    (hclean : entry.dirty = false → block = readLba engine.device lba) :
    Coherent image (Function.update logical lba block)
      { engine.fill slot block with
        table := (engine.table.insert lba entry).2 } := by
  have hfilled := hcoherent.fill_unmapped hunmapped block
  have hblock : (engine.fill slot block).blocks slot = block :=
    fill_blocks_self slot block engine
  constructor
  · intro other
    by_cases heq : other = lba
    · subst heq
      have hmapped : (engine.table.insert other entry).2.slotOf other =
          some slot := by
        simp [LbaTable.slotOf_insert, hslot]
      rw [Function.update_self, content_of_cached hmapped]
      exact hblock
    · rw [Function.update_of_ne heq, ← hfilled.content other]
      simp only [CacheEngine.content, LbaTable.slotOf_insert, if_neg heq]
      rfl
  · intro other mapped hmapped hmappedClean
    simp only [LbaTable.slotOf_insert, LbaTable.dirtyOf_insert] at hmapped hmappedClean
    split at hmapped
    · next heq =>
      subst heq
      rw [if_pos rfl] at hmappedClean
      cases hmapped
      rw [hslot]
      exact hblock.trans (hclean (Option.some.inj hmappedClean))
    · next hne =>
      rw [if_neg hne] at hmappedClean
      exact hfilled.clean other mapped hmapped hmappedClean
  · exact hcoherent.tail

theorem update_cached (hcoherent : Coherent image logical engine)
    (haccounted : engine.Accounted lost) {lba : Lba setup} {slot : Nat}
    (hslot : engine.table.slotOf lba = some slot) (now : Instant)
    (block : Block setup) (flusher : Option FlushChannel) :
    Coherent image (Function.update logical lba block)
      { engine.fill slot block with
        table := engine.table.markDirty now lba
        flusher := flusher } := by
  have hother : ∀ other mapped, other ≠ lba →
      engine.table.slotOf other = some mapped →
      (engine.fill slot block).blocks mapped = engine.blocks mapped := by
    intro other mapped hne hmapped
    apply fill_blocks_of_ne
    intro heq
    subst heq
    exact hne (haccounted.slot_unique hmapped hslot)
  constructor
  · intro other
    by_cases heq : other = lba
    · subst heq
      have hcached : (engine.table.markDirty now other).slotOf other = some slot := by
        simpa using hslot
      rw [Function.update_self, content_of_cached hcached]
      exact fill_blocks_self slot block engine
    · rw [Function.update_of_ne heq, ← hcoherent.content other]
      cases hmapped : engine.table.slotOf other with
      | none =>
          rw [content_of_absent hmapped]
          apply content_of_absent
          simpa using hmapped
      | some mapped =>
          rw [content_of_cached hmapped, ← hother other mapped heq hmapped]
          apply content_of_cached
          simpa using hmapped
  · intro other mapped hmapped hclean
    simp only [LbaTable.slotOf_markDirty, LbaTable.dirtyOf_markDirty] at hmapped hclean
    split at hclean
    · next heq =>
      rw [hslot] at hclean
      simp at hclean
    · next hne =>
      rw [hother other mapped hne hmapped]
      exact hcoherent.clean other mapped hmapped hclean
  · exact hcoherent.tail

theorem content_eq_device (hcoherent : Coherent image logical engine)
    {lba : Lba setup} (hnotDirty : engine.table.dirtyOf lba ≠ some true) :
    engine.content lba = readLba engine.device lba := by
  cases hslot : engine.table.slotOf lba with
  | none => exact content_of_absent hslot
  | some slot =>
      rw [content_of_cached hslot]
      apply hcoherent.clean lba slot hslot
      cases hdirty : engine.table.dirtyOf lba with
      | none =>
          rw [LbaTable.dirtyOf_eq_none_iff, hslot] at hdirty
          cases hdirty
      | some dirty =>
          cases dirty with
          | false => rfl
          | true => exact absurd hdirty hnotDirty

/-! One request at a time. -/

theorem cachedRead (hcoherent : Coherent image logical engine)
    (haccounted : engine.Accounted lost) (env : OpEnv setup) (lba : Lba setup) :
    Coherent image logical (engine.cachedRead env lba).2 ∧
      ∀ result, (engine.cachedRead env lba).1 = .ok result →
        result.data = logical lba := by
  have hheld := hcoherent.allocateOrEvict haccounted env
  rcases engine.cachedRead_cases env lba with
    ⟨slot, hslot, heq⟩ | ⟨_, error, left, hcall, heq⟩ |
    ⟨_, slot, held, error, torn, hcall, _, heq⟩ |
    ⟨habsent, slot, held, hcall, _, heq⟩
  · rw [heq]
    refine ⟨hcoherent.same_view (by simp) (by simp) rfl rfl, ?_⟩
    intro result hresult
    cases hresult
    rw [← hcoherent.content lba, content_of_cached hslot]
  · rw [hcall] at hheld
    rw [heq]
    exact ⟨hheld, fun result hresult => by cases hresult⟩
  · rw [hcall] at hheld
    obtain ⟨hslots, _⟩ := haccounted.allocateOrEvict_ok hcall
    rw [heq]
    refine ⟨hheld.fill_unmapped (hslots.lost_unmapped (by simp)) torn, ?_⟩
    intro result hresult
    cases hresult
  · rw [hcall] at hheld
    obtain ⟨hslots, hkeepsAbsent⟩ := haccounted.allocateOrEvict_ok hcall
    have hmiss : held.table.slotOf lba = none := hkeepsAbsent lba habsent
    have hdevice : readLba held.device lba = logical lba := by
      rw [← hheld.content lba, content_of_absent hmiss]
    rw [heq]
    have hunmapped : ∀ other, held.table.slotOf other ≠ some slot :=
      hslots.lost_unmapped List.mem_cons_self
    constructor
    · have hinserted := hheld.insert_filled hmiss hunmapped
        (readLba held.device lba) (.new env.now lba slot) rfl fun _ => rfl
      rw [hdevice, Function.update_eq_self] at hinserted
      rw [hdevice]
      exact hinserted
    · intro result hresult
      cases hresult
      exact hdevice

theorem cachedWrite (hcoherent : Coherent image logical engine)
    (haccounted : engine.Accounted lost) (env : OpEnv setup) (lba : Lba setup)
    (buf : Block setup) :
    Coherent image
      (match (engine.cachedWrite env lba buf).1 with
        | .ok _ => Function.update logical lba buf
        | .error _ => logical)
      (engine.cachedWrite env lba buf).2 := by
  have hheld := hcoherent.allocateOrEvict haccounted env
  rcases engine.cachedWrite_cases env lba buf with
    ⟨_, heq⟩ | ⟨_, slot, flusher, hslot, heq⟩ |
    ⟨_, _, error, left, hcall, heq⟩ |
    ⟨_, habsent, slot, held, flusher, hcall, heq⟩
  · rw [heq]
    exact hcoherent
  · rw [heq]
    exact hcoherent.update_cached haccounted hslot env.now buf flusher
  · rw [hcall] at hheld
    rw [heq]
    exact hheld
  · rw [hcall] at hheld
    obtain ⟨hslots, hkeepsAbsent⟩ := haccounted.allocateOrEvict_ok hcall
    have hunmapped : ∀ other, held.table.slotOf other ≠ some slot :=
      hslots.lost_unmapped List.mem_cons_self
    have hinserted := hheld.insert_filled (hkeepsAbsent lba habsent) hunmapped
      buf ((CacheEntry.new env.now lba slot).markDirty env.later) rfl
      (fun hclean => by cases hclean)
    rw [heq]
    exact hinserted.same_view rfl rfl rfl rfl

/-- The snapshot pairs the loop has not reached yet still name dirty entries
with the slot they were taken with. -/
def Pending (engine : CacheEngine setup) (snapshot : List (Lba setup × Nat)) :
    Prop :=
  (snapshot.map Prod.fst).Nodup ∧
    ∀ lba slot, (lba, slot) ∈ snapshot →
      engine.table.slotOf lba = some slot ∧
        engine.table.dirtyOf lba = some true

theorem pending_dirtyEntries (haccounted : engine.Accounted lost)
    (order : HashOrder (CacheEntry (Lba setup))) :
    Pending engine (engine.table.dirtyEntries order) :=
  ⟨LbaTable.nodup_dirtyEntries_fst haccounted.keyed order, fun _ _ hmem =>
    (LbaTable.mem_dirtyEntries_iff haccounted.keyed order).mp hmem⟩

theorem mark_written (hcoherent : Coherent image logical engine)
    {lba : Lba setup} {slot : Nat} (hslot : engine.table.slotOf lba = some slot)
    (hwritten : engine.blocks slot = readLba engine.device lba) :
    Coherent image logical
      { engine with table := engine.table.markClean lba } := by
  constructor
  · intro other
    rw [← hcoherent.content other]
    simp only [CacheEngine.content, LbaTable.slotOf_markClean]
  · intro other mapped hmapped hclean
    simp only [LbaTable.slotOf_markClean, LbaTable.dirtyOf_markClean] at hmapped hclean
    split at hclean
    · next heq =>
      subst heq
      rw [hslot] at hmapped
      cases hmapped
      exact hwritten
    · exact hcoherent.clean other mapped hmapped hclean
  · exact hcoherent.tail

theorem flushLoop (hcoherent : Coherent image logical engine)
    (writes : Lba setup → IoOutcome setup) {snapshot : List (Lba setup × Nat)}
    (hpending : Pending engine snapshot) (flushed : Nat) :
    Coherent image logical
      (CacheEngine.flushLoop writes snapshot flushed engine).2 := by
  induction snapshot generalizing engine flushed with
  | nil => exact hcoherent
  | cons pair rest ih =>
      obtain ⟨lba, slot⟩ := pair
      obtain ⟨hnodup, hvalid⟩ := hpending
      obtain ⟨hfresh, hrestNodup⟩ := List.nodup_cons.mp hnodup
      obtain ⟨hslot, hdirty⟩ := hvalid lba slot (by simp)
      cases hwrite : writes lba with
      | fail error torn =>
          simp only [CacheEngine.flushLoop, writeBack, hwrite]
          apply ih (hcoherent.write_cached hslot (Or.inl hdirty))
          exact ⟨hrestNodup, fun other mapped hmem =>
            hvalid other mapped (List.mem_cons_of_mem _ hmem)⟩
      | ok =>
          simp only [CacheEngine.flushLoop, writeBack, hwrite]
          have hwritten := hcoherent.write_cached hslot (Or.inr rfl)
          apply ih (hwritten.mark_written hslot (by simp [readLba_writeLba]))
          refine ⟨hrestNodup, ?_⟩
          intro other mapped hmem
          have hne : other ≠ lba := by
            intro heq
            subst heq
            exact hfresh (List.mem_map.mpr ⟨(other, mapped), hmem, rfl⟩)
          obtain ⟨hmapped, hstill⟩ :=
            hvalid other mapped (List.mem_cons_of_mem _ hmem)
          simp only [LbaTable.slotOf_markClean, LbaTable.dirtyOf_markClean,
            if_neg hne]
          exact ⟨hmapped, hstill⟩

theorem perform (hcoherent : Coherent image logical engine)
    (haccounted : engine.Accounted lost) (request : Request setup) :
    Coherent image
      (Register.replay logical
        (request.acknowledged (engine.perform request).1))
      (engine.perform request).2 ∧
    Register.Consistent logical
      (request.acknowledged (engine.perform request).1) := by
  cases request with
  | read env lba =>
      simp only [CacheEngine.perform, CacheEngine.read]
      split
      · next hlba =>
        obtain ⟨hnext, hdata⟩ := hcoherent.cachedRead haccounted env ⟨lba, hlba⟩
        cases hresult : (engine.cachedRead env ⟨lba, hlba⟩).1 with
        | error error =>
            exact ⟨hnext, trivial⟩
        | ok result =>
            simp only [Request.acknowledged, hlba, dif_pos]
            exact ⟨hnext, hdata result hresult, trivial⟩
      · exact ⟨hcoherent, trivial⟩
  | write env lba buf =>
      simp only [CacheEngine.perform, CacheEngine.write]
      split
      · next hlba =>
        have hnext := hcoherent.cachedWrite haccounted env ⟨lba, hlba⟩ buf
        cases hresult : (engine.cachedWrite env ⟨lba, hlba⟩ buf).1 with
        | error error =>
            rw [hresult] at hnext
            exact ⟨hnext, trivial⟩
        | ok result =>
            rw [hresult] at hnext
            simp only [Request.acknowledged, hlba, dif_pos]
            exact ⟨hnext, trivial⟩
      · exact ⟨hcoherent, trivial⟩
  | flush order writes =>
      exact ⟨hcoherent.flushLoop writes
        (pending_dirtyEntries haccounted order) 0, trivial⟩

/-- A whole run: the engine ends coherent with the map its acknowledged
writes leave, and its acknowledged reads are reads of that map. -/
theorem runAll (hcoherent : Coherent image logical engine)
    (haccounted : engine.Accounted lost) (run : List (Request setup)) :
    Coherent image (Register.replay logical (engine.history run))
      (engine.runAll run) ∧
    Register.Consistent logical (engine.history run) := by
  induction run generalizing engine logical lost with
  | nil => exact ⟨hcoherent, trivial⟩
  | cons request rest ih =>
      obtain ⟨hnext, hfirst⟩ := hcoherent.perform haccounted request
      obtain ⟨lostNext, hslots⟩ := haccounted.perform request
      obtain ⟨hfinal, hrest⟩ := ih hnext hslots
      rw [history, Register.replay_append, Register.consistent_append]
      exact ⟨hfinal, hfirst, hrest⟩

end Coherent

/-! Cache transparency. -/

/-- Every run is a history of a plain map over the initial device blocks, and
a read that succeeds after it returns the most recent acknowledged write. -/
theorem runAll_transparent (image : Image) (flusher : Option FlushChannel)
    (run : List (Request setup)) :
    Register.Consistent (readLba image)
      ((boot setup image flusher).history run) ∧
    ∀ (env : OpEnv setup) (lba : Nat) (result : ReadResult setup),
      (((boot setup image flusher).runAll run).read env lba).1 = .ok result →
      ∃ hlba : lba < setup.maxLba,
        result.data =
          (Register.lastWrite ⟨lba, hlba⟩
            ((boot setup image flusher).history run)).getD
            (readLba image ⟨lba, hlba⟩) := by
  obtain ⟨hcoherent, hconsistent⟩ :=
    (Coherent.boot image flusher).runAll (Accounted.boot image flusher) run
  refine ⟨hconsistent, ?_⟩
  intro env lba result hread
  obtain ⟨lost, haccounted⟩ := runAll_accounted image flusher run
  unfold CacheEngine.read at hread
  split at hread
  · next hlba =>
    refine ⟨hlba, ?_⟩
    rw [(hcoherent.cachedRead haccounted env ⟨lba, hlba⟩).2 result hread,
      Register.replay_eq_lastWrite]
  · cases hread

/-- A write to block 0, and a read of block 1 that fails to evict it: the
write-back leaves the device block torn. -/
def tornEviction : List (Request (.mini 0)) :=
  [.write ⟨1, 1, .stored, .ok, .ok⟩ 0 fun _ => 5,
    .read ⟨2, 2, .stored,
      .fail ⟨.other, "Input/output error (os error 5)"⟩ fun _ => 9, .ok⟩ 1]

theorem tornEviction_transparent :
    ∃ result, (((boot (.mini 0) (fun _ => 0) none).runAll tornEviction).read
        ⟨3, 3, .stored, .ok, .ok⟩ 0).1 = .ok result ∧
      result.data = fun _ => 5 := by
  refine ⟨⟨true, fun _ => 5⟩, rfl, ?_⟩
  obtain ⟨_, hdata⟩ := (runAll_transparent (fun _ => 0) none tornEviction).2
    ⟨3, 3, .stored, .ok, .ok⟩ 0 ⟨true, fun _ => 5⟩ rfl
  exact hdata

/-! A flush cycle is a write-back barrier. -/

theorem flushLoop_cleans {writes : Lba setup → IoOutcome setup}
    {snapshot : List (Lba setup × Nat)} {engine : CacheEngine setup}
    (hwrites : ∀ pair ∈ snapshot, (writes pair.1).succeeds = true)
    (hcovers : ∀ lba, engine.table.dirtyOf lba = some true →
      lba ∈ snapshot.map Prod.fst) (flushed : Nat) (lba : Lba setup) :
    (flushLoop writes snapshot flushed engine).2.table.dirtyOf lba ≠
      some true := by
  induction snapshot generalizing engine flushed with
  | nil =>
      intro hdirty
      exact List.not_mem_nil (hcovers lba hdirty)
  | cons pair rest ih =>
      obtain ⟨head, slot⟩ := pair
      cases hwrite : writes head with
      | fail error torn =>
          have hsucceeds := hwrites (head, slot) List.mem_cons_self
          exact absurd hwrite (IoOutcome.ne_fail hsucceeds _ _)
      | ok =>
          simp only [flushLoop, writeBack, hwrite]
          apply ih fun pair hpair => hwrites pair (List.mem_cons_of_mem _ hpair)
          intro other hdirty
          simp only [LbaTable.dirtyOf_markClean] at hdirty
          split at hdirty
          · simp at hdirty
          · next hne =>
            rcases List.mem_cons.mp (hcovers other hdirty) with heq | hmem
            · exact absurd heq hne
            · exact hmem

/-- After any run, one cycle whose writes all succeed brings the device to
the acknowledged state and touches nothing else. -/
theorem flush_commits_run (image : Image) (flusher : Option FlushChannel)
    (run : List (Request setup)) (order : HashOrder (CacheEntry (Lba setup)))
    (writes : Lba setup → IoOutcome setup)
    (hwrites : ∀ lba,
      ((boot setup image flusher).runAll run).table.dirtyOf lba = some true →
      (writes lba).succeeds = true) :
    (∀ lba, readLba
        ((boot setup image flusher).runAll run |>.flushDirtyBlocks order
          writes).2.device lba =
      (Register.lastWrite lba ((boot setup image flusher).history run)).getD
        (readLba image lba)) ∧
    ∀ position, setup.maxLba * setup.blockSize ≤ position →
      ((boot setup image flusher).runAll run |>.flushDirtyBlocks order
        writes).2.device position = image position := by
  obtain ⟨hcoherent, _⟩ :=
    (Coherent.boot image flusher).runAll (Accounted.boot image flusher) run
  obtain ⟨lost, haccounted⟩ := runAll_accounted image flusher run
  have hflushed := hcoherent.flushLoop writes
    (Coherent.pending_dirtyEntries haccounted order) 0
  have hsucceeds : ∀ pair ∈ ((boot setup image flusher).runAll run).table.dirtyEntries
      order, (writes pair.1).succeeds = true := by
    intro pair hpair
    apply hwrites
    exact ((LbaTable.mem_dirtyEntries_iff haccounted.keyed order).mp hpair).2
  have hclean := flushLoop_cleans hsucceeds
    (LbaTable.dirty_mem_dirtyEntries haccounted.keyed order) 0
  refine ⟨?_, hflushed.tail⟩
  intro lba
  rw [← Register.replay_eq_lastWrite, ← hflushed.content lba]
  exact (hflushed.content_eq_device (hclean lba)).symm

theorem tornEviction_committed :
    readLba ((boot (.mini 0) (fun _ => 0) none).runAll tornEviction
      |>.flushDirtyBlocks .stored fun _ => .ok).2.device (0 : Lba (.mini 0)) =
      fun _ => 5 :=
  (flush_commits_run (fun _ => 0) none tornEviction .stored (fun _ => .ok)
    fun _ _ => rfl).1 0

end CacheEngine

end AsmCacheInject.Engine

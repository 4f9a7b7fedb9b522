import AsmCacheInject.Engine.Paths

namespace AsmCacheInject.Engine

open AsmCacheInject.Cache
open AsmCacheInject.Data
open AsmCacheInject.Flush

variable {setup : Setup}

def Reply.IsInternal : Reply setup → Prop
  | .read (.error (.internal _)) => True
  | .write (.error (.internal _)) => True
  | _ => False

namespace CacheEngine

/-! The slot ledger.  Every slot of the pool is on the free list, mapped by an
entry, or lost; `lost` also holds a slot an operation has in hand. -/

structure Accounted (engine : CacheEngine setup) (lost : List Nat) : Prop where
  keyed : engine.table.SelfKeyed
  ledger : (engine.freeList ++ engine.table.slots ++ lost).Perm
    (List.range setup.capacity)

namespace Accounted

variable {engine : CacheEngine setup} {lost : List Nat}

theorem nodup (haccounted : engine.Accounted lost) :
    (engine.freeList ++ engine.table.slots ++ lost).Nodup :=
  haccounted.ledger.nodup_iff.mpr List.nodup_range

theorem slots_nodup (haccounted : engine.Accounted lost) :
    engine.table.slots.Nodup :=
  (haccounted.nodup.of_append_left).of_append_right

theorem slot_unique (haccounted : engine.Accounted lost)
    {first second : Lba setup} {slot : Nat}
    (hfirst : engine.table.slotOf first = some slot)
    (hsecond : engine.table.slotOf second = some slot) : first = second :=
  Keyed.key_unique_of_nodup _ haccounted.slots_nodup hfirst hsecond

theorem lost_unmapped (haccounted : engine.Accounted lost) {slot : Nat}
    (hlost : slot ∈ lost) (lba : Lba setup) :
    engine.table.slotOf lba ≠ some slot := by
  intro hmapped
  have hmem : slot ∈ engine.table.slots := LbaTable.mem_slots_iff.mpr ⟨lba, hmapped⟩
  exact (List.disjoint_of_nodup_append haccounted.nodup)
    (List.mem_append_right _ hmem) hlost

theorem boot (image : Image) (flusher : Option FlushChannel) :
    (CacheEngine.boot setup image flusher).Accounted [] where
  keyed := LbaTable.selfKeyed_new
  ledger := by
    have hslots : (CacheEngine.boot setup image flusher).table.slots = [] := rfl
    rw [hslots, List.append_nil, List.append_nil]
    exact List.reverse_perm _

theorem transfer (haccounted : engine.Accounted lost)
    {next : CacheEngine setup} {lostNext : List Nat}
    (hkeyed : next.table.SelfKeyed)
    (hperm : (next.freeList ++ next.table.slots ++ lostNext).Perm
      (engine.freeList ++ engine.table.slots ++ lost)) :
    next.Accounted lostNext :=
  ⟨hkeyed, hperm.trans haccounted.ledger⟩

theorem same_slots (haccounted : engine.Accounted lost)
    {next : CacheEngine setup} (hkeyed : next.table.SelfKeyed)
    (hfree : next.freeList = engine.freeList)
    (hslots : next.table.slots.Perm engine.table.slots) :
    next.Accounted lost := by
  apply haccounted.transfer hkeyed
  rw [hfree]
  exact (hslots.append_left _).append_right _

theorem insert (lba : Lba setup) {slot : Nat}
    (haccounted : engine.Accounted (slot :: lost))
    (habsent : engine.table.slotOf lba = none) {entry : CacheEntry (Lba setup)}
    (hlba : entry.lba = lba) (hslot : entry.poolIndex = slot) :
    CacheEngine.Accounted
      { engine with table := (engine.table.insert lba entry).2 } lost := by
  apply haccounted.transfer (haccounted.keyed.insert hlba)
  rw [LbaTable.slots_insert_of_absent entry habsent, hslot,
    List.perm_iff_count]
  intro other
  simp only [List.count_append, List.count_cons]
  omega

theorem remove (haccounted : engine.Accounted lost) {lba : Lba setup}
    {slot : Nat} (hslot : engine.table.slotOf lba = some slot) :
    CacheEngine.Accounted
      { engine with table := (engine.table.remove lba).2 } (slot :: lost) := by
  apply haccounted.transfer (haccounted.keyed.remove lba)
  have hperm := LbaTable.slots_remove_perm hslot
  rw [List.perm_iff_count]
  intro other
  have hcount := hperm.count_eq other
  simp only [List.count_append, List.count_cons] at hcount ⊢
  omega

/-! The slot `allocate_or_evict` returns is in nobody else's hands, and a
failing call moves no slot. -/

theorem allocateOrEvict_ok (haccounted : engine.Accounted lost)
    {env : OpEnv setup} {slot : Nat} {next : CacheEngine setup}
    (hcall : engine.allocateOrEvict env = (.ok slot, next)) :
    next.Accounted (slot :: lost) ∧
      ∀ lba, engine.table.slotOf lba = none → next.table.slotOf lba = none := by
  rcases allocateOrEvict_ok_cases hcall with
    ⟨rest, hfree, rfl⟩ | ⟨candidate, _, hselect, _, _, rfl, rfl⟩ |
    ⟨candidate, _, hselect, _, rfl, rfl⟩
  · refine ⟨haccounted.transfer haccounted.keyed ?_, fun _ habsent => habsent⟩
    rw [hfree, List.perm_iff_count]
    intro other
    simp only [List.count_append, List.count_cons]
    omega
  · have hvictim := (selectEvictionCandidate_spec haccounted.keyed hselect).1
    refine ⟨(haccounted.remove hvictim).same_slots
      (haccounted.keyed.remove _) rfl (List.Perm.refl _), ?_⟩
    intro lba habsent
    rw [LbaTable.slotOf_remove]
    split
    · rfl
    · exact habsent
  · have hvictim := (selectEvictionCandidate_spec haccounted.keyed hselect).1
    refine ⟨haccounted.remove hvictim, ?_⟩
    intro lba habsent
    rw [LbaTable.slotOf_remove]
    split
    · rfl
    · exact habsent

theorem allocateOrEvict_error (haccounted : engine.Accounted lost)
    {env : OpEnv setup} {error : CacheError} {next : CacheEngine setup}
    (hcall : engine.allocateOrEvict env = (.error error, next)) :
    next.Accounted lost := by
  obtain ⟨_, ⟨_, _, rfl⟩ | ⟨_, _, _, _, _, _, _, rfl⟩⟩ :=
    allocateOrEvict_error_cases hcall
  · exact haccounted
  · exact haccounted.same_slots haccounted.keyed rfl (List.Perm.refl _)

end Accounted

/-! The one leak of the read path: a slot was obtained and the fetch into it
failed. -/

/-- A miss finds a free slot or a victim it can give up. -/
def SlotObtained (env : OpEnv setup) (engine : CacheEngine setup) : Prop :=
  engine.freeList ≠ [] ∨
    ∃ candidate, selectEvictionCandidate env.order engine.table =
      some candidate ∧
        (candidate.needsFlush = true → env.evict.succeeds = true)

def FetchLosesSlot (engine : CacheEngine setup) : Request setup → Prop
  | .read env lba =>
      ∃ hlba : lba < setup.maxLba,
        engine.table.slotOf ⟨lba, hlba⟩ = none ∧
          engine.SlotObtained env ∧ env.fetch.succeeds = false
  | .write _ _ _ => False
  | .flush _ _ => False

theorem slotObtained_of_ok {engine next : CacheEngine setup}
    {env : OpEnv setup} {slot : Nat}
    (hcall : engine.allocateOrEvict env = (.ok slot, next)) :
    engine.SlotObtained env := by
  rcases allocateOrEvict_ok_cases hcall with
    ⟨rest, hfree, _⟩ | ⟨candidate, _, hselect, _, hevict, _⟩ |
    ⟨candidate, _, hselect, hflush, _⟩
  · left
    simp [hfree]
  · right
    exact ⟨candidate, hselect, fun _ => by rw [hevict]; rfl⟩
  · right
    exact ⟨candidate, hselect, fun htrue => by simp [hflush] at htrue⟩

theorem not_slotObtained_of_error {engine next : CacheEngine setup}
    {env : OpEnv setup} {error : CacheError}
    (hcall : engine.allocateOrEvict env = (.error error, next)) :
    ¬engine.SlotObtained env := by
  obtain ⟨hnil, hcause⟩ := allocateOrEvict_error_cases hcall
  rintro (hfree | ⟨candidate, hselect, hevict⟩)
  · exact hfree hnil
  · rcases hcause with ⟨hnone, _⟩ | ⟨other, _, _, hother, hflush, hfail, _⟩
    · rw [hselect] at hnone
      cases hnone
    · have heq : candidate = other := Option.some.inj (hselect.symm.trans hother)
      subst heq
      exact IoOutcome.ne_fail (hevict hflush) _ _ hfail

/-! What one request does to the ledger. -/

namespace Accounted

variable {engine : CacheEngine setup} {lost : List Nat}

theorem flushLoop (haccounted : engine.Accounted lost)
    (writes : Lba setup → IoOutcome setup) (snapshot : List (Lba setup × Nat))
    (flushed : Nat) :
    (CacheEngine.flushLoop writes snapshot flushed engine).2.Accounted lost := by
  induction snapshot generalizing engine flushed with
  | nil => exact haccounted
  | cons pair rest ih =>
      obtain ⟨lba, slot⟩ := pair
      cases hwrite : writes lba with
      | ok =>
          simp only [CacheEngine.flushLoop, writeBack, hwrite]
          apply ih
          exact haccounted.same_slots (haccounted.keyed.markClean lba) rfl
            LbaTable.slots_markClean_perm
      | fail error torn =>
          simp only [CacheEngine.flushLoop, writeBack, hwrite]
          apply ih
          exact haccounted.same_slots haccounted.keyed rfl (List.Perm.refl _)

theorem cachedRead_kept (haccounted : engine.Accounted lost)
    {env : OpEnv setup} {lba : Lba setup}
    (hkept : ¬(engine.table.slotOf lba = none ∧ engine.SlotObtained env ∧
      env.fetch.succeeds = false)) :
    (engine.cachedRead env lba).2.Accounted lost := by
  rcases engine.cachedRead_cases env lba with
    ⟨slot, _, heq⟩ | ⟨_, error, left, hcall, heq⟩ |
    ⟨habsent, slot, held, error, torn, hcall, hfetch, _⟩ |
    ⟨habsent, slot, held, hcall, _, heq⟩
  · rw [heq]
    exact haccounted.same_slots (haccounted.keyed.getAndTouch env.now lba) rfl
      (LbaTable.slots_getAndTouch_perm env.now)
  · rw [heq]
    exact haccounted.allocateOrEvict_error hcall
  · exact absurd ⟨habsent, slotObtained_of_ok hcall, by rw [hfetch]; rfl⟩ hkept
  · rw [heq]
    obtain ⟨hheld, hkeepsAbsent⟩ := haccounted.allocateOrEvict_ok hcall
    have hloaded : (held.fill slot (readLba held.device lba)).Accounted
        (slot :: lost) :=
      hheld.same_slots hheld.keyed rfl (List.Perm.refl _)
    exact hloaded.insert lba (hkeepsAbsent lba habsent) rfl rfl

theorem cachedRead_lost (haccounted : engine.Accounted lost)
    {env : OpEnv setup} {lba : Lba setup}
    (habsent : engine.table.slotOf lba = none)
    (hobtained : engine.SlotObtained env)
    (hfails : env.fetch.succeeds = false) :
    ∃ slot, (engine.cachedRead env lba).2.Accounted (slot :: lost) := by
  rcases engine.cachedRead_cases env lba with
    ⟨slot, hslot, _⟩ | ⟨_, error, left, hcall, _⟩ |
    ⟨_, slot, held, error, torn, hcall, _, heq⟩ |
    ⟨_, slot, held, hcall, hfetch, _⟩
  · rw [habsent] at hslot
    cases hslot
  · exact absurd hobtained (not_slotObtained_of_error hcall)
  · rw [heq]
    obtain ⟨hheld, _⟩ := haccounted.allocateOrEvict_ok hcall
    exact ⟨slot, hheld.same_slots hheld.keyed rfl (List.Perm.refl _)⟩
  · rw [hfetch] at hfails
    cases hfails

theorem cachedWrite (haccounted : engine.Accounted lost) (env : OpEnv setup)
    (lba : Lba setup) (buf : Block setup) :
    (engine.cachedWrite env lba buf).2.Accounted lost := by
  rcases engine.cachedWrite_cases env lba buf with
    ⟨_, heq⟩ | ⟨_, slot, flusher, _, heq⟩ | ⟨_, _, error, left, hcall, heq⟩ |
    ⟨_, habsent, slot, held, flusher, hcall, heq⟩
  · rw [heq]
    exact haccounted
  · rw [heq]
    exact haccounted.same_slots (haccounted.keyed.markDirty env.now lba) rfl
      (LbaTable.slots_markDirty_perm env.now)
  · rw [heq]
    exact haccounted.allocateOrEvict_error hcall
  · rw [heq]
    obtain ⟨hheld, hkeepsAbsent⟩ := haccounted.allocateOrEvict_ok hcall
    have hstored : CacheEngine.Accounted
        { held.fill slot buf with flusher := flusher } (slot :: lost) :=
      hheld.same_slots hheld.keyed rfl (List.Perm.refl _)
    exact hstored.insert lba (hkeepsAbsent lba habsent) rfl rfl

theorem perform_kept (haccounted : engine.Accounted lost)
    {request : Request setup} (hkept : ¬engine.FetchLosesSlot request) :
    (engine.perform request).2.Accounted lost := by
  cases request with
  | read env lba =>
      simp only [perform, CacheEngine.read]
      split
      · next hlba =>
        exact haccounted.cachedRead_kept fun hloses => hkept ⟨hlba, hloses⟩
      · exact haccounted
  | write env lba buf =>
      simp only [perform, CacheEngine.write]
      split
      · exact haccounted.cachedWrite env _ buf
      · exact haccounted
  | flush order writes => exact haccounted.flushLoop writes _ 0

theorem perform_lost (haccounted : engine.Accounted lost)
    {request : Request setup} (hloses : engine.FetchLosesSlot request) :
    ∃ slot, (engine.perform request).2.Accounted (slot :: lost) := by
  cases request with
  | read env lba =>
      obtain ⟨hlba, habsent, hobtained, hfails⟩ := hloses
      simp only [perform, CacheEngine.read, hlba, dif_pos]
      exact haccounted.cachedRead_lost habsent hobtained hfails
  | write env lba buf => exact hloses.elim
  | flush order writes => exact hloses.elim

theorem perform (haccounted : engine.Accounted lost) (request : Request setup) :
    ∃ lostNext, (engine.perform request).2.Accounted lostNext := by
  by_cases hloses : engine.FetchLosesSlot request
  · obtain ⟨slot, hnext⟩ := haccounted.perform_lost hloses
    exact ⟨slot :: lost, hnext⟩
  · exact ⟨lost, haccounted.perform_kept hloses⟩

theorem runAll (haccounted : engine.Accounted lost)
    (run : List (Request setup)) :
    ∃ lostNext, (engine.runAll run).Accounted lostNext := by
  induction run generalizing engine lost with
  | nil => exact ⟨lost, haccounted⟩
  | cons request rest ih =>
      obtain ⟨middle, hmiddle⟩ := haccounted.perform request
      exact ih hmiddle

end Accounted

/-! The representation invariant of table and pool. -/

structure Represented (engine : CacheEngine setup) : Prop where
  keyed : ∀ lba entry, engine.table.get lba = some entry → entry.lba = lba
  in_pool : ∀ lba entry, engine.table.get lba = some entry →
    entry.poolIndex < setup.capacity
  injective : ∀ first second firstEntry secondEntry,
    engine.table.get first = some firstEntry →
    engine.table.get second = some secondEntry →
    firstEntry.poolIndex = secondEntry.poolIndex → first = second
  free_nodup : engine.freeList.Nodup
  free_in_pool : ∀ slot ∈ engine.freeList, slot < setup.capacity
  free_unmapped : ∀ slot ∈ engine.freeList, ∀ lba entry,
    engine.table.get lba = some entry → entry.poolIndex ≠ slot

namespace Accounted

variable {engine : CacheEngine setup} {lost : List Nat}

theorem mem_pool (haccounted : engine.Accounted lost) {slot : Nat}
    (hmem : slot ∈ engine.freeList ++ engine.table.slots ++ lost) :
    slot < setup.capacity :=
  List.mem_range.mp (haccounted.ledger.mem_iff.mp hmem)

theorem represented (haccounted : engine.Accounted lost) :
    engine.Represented where
  keyed := haccounted.keyed
  in_pool := by
    intro lba entry hget
    apply haccounted.mem_pool
    have hmem : entry.poolIndex ∈ engine.table.slots :=
      LbaTable.mem_slots_iff.mpr
        ⟨lba, LbaTable.slotOf_eq_some_iff.mpr ⟨entry, hget, rfl⟩⟩
    simp [hmem]
  injective := by
    intro first second firstEntry secondEntry hfirst hsecond heq
    apply haccounted.slot_unique
      (LbaTable.slotOf_eq_some_iff.mpr ⟨firstEntry, hfirst, rfl⟩)
    rw [heq]
    exact LbaTable.slotOf_eq_some_iff.mpr ⟨secondEntry, hsecond, rfl⟩
  free_nodup := haccounted.nodup.of_append_left.of_append_left
  free_in_pool := by
    intro slot hmem
    apply haccounted.mem_pool
    simp [hmem]
  free_unmapped := by
    intro slot hfree lba entry hget heq
    have hmem : slot ∈ engine.table.slots :=
      LbaTable.mem_slots_iff.mpr
        ⟨lba, LbaTable.slotOf_eq_some_iff.mpr ⟨entry, hget, heq⟩⟩
    exact List.disjoint_of_nodup_append haccounted.nodup.of_append_left
      hfree hmem

end Accounted

theorem runAll_accounted (image : Image) (flusher : Option FlushChannel)
    (run : List (Request setup)) :
    ∃ lost, ((boot setup image flusher).runAll run).Accounted lost :=
  (Accounted.boot image flusher).runAll run

theorem runAll_represented (image : Image) (flusher : Option FlushChannel)
    (run : List (Request setup)) :
    ((boot setup image flusher).runAll run).Represented := by
  obtain ⟨lost, haccounted⟩ := runAll_accounted image flusher run
  exact haccounted.represented

/-! Full capacity: nothing is lost. -/

/-- Every slot is free or mapped, and the two counts add up. -/
def Full (engine : CacheEngine setup) : Prop :=
  (∀ slot < setup.capacity, slot ∈ engine.freeList ∨
    ∃ lba entry, engine.table.get lba = some entry ∧
      entry.poolIndex = slot) ∧
  engine.freeList.length + engine.table.stats.totalEntries = setup.capacity

namespace Accounted

variable {engine : CacheEngine setup} {lost : List Nat}

theorem full_iff (haccounted : engine.Accounted lost) :
    engine.Full ↔ lost = [] := by
  have hlength := haccounted.ledger.length_eq
  simp only [List.length_append, List.length_range,
    LbaTable.length_slots] at hlength
  constructor
  · rintro ⟨_, hcount⟩
    apply List.eq_nil_of_length_eq_zero
    omega
  · intro heq
    subst heq
    refine ⟨?_, by simpa using hlength⟩
    intro slot hslot
    have hmem := haccounted.ledger.mem_iff.mpr (List.mem_range.mpr hslot)
    rw [List.append_nil, List.mem_append] at hmem
    rcases hmem with hfree | hmapped
    · exact Or.inl hfree
    · obtain ⟨lba, hlba⟩ := LbaTable.mem_slots_iff.mp hmapped
      exact Or.inr ⟨lba, LbaTable.slotOf_eq_some_iff.mp hlba⟩

theorem selectEvictionCandidate_ne_none (haccounted : engine.Accounted [])
    (hfree : engine.freeList = [])
    (order : HashOrder (CacheEntry (Lba setup))) :
    selectEvictionCandidate order engine.table ≠ none := by
  intro hselect
  have hslots := selectEvictionCandidate_eq_none_iff.mp hselect
  have hlength := haccounted.ledger.length_eq
  have hpos := setup.capacity_pos
  simp only [hfree, hslots, List.append_nil, List.length_nil,
    List.length_range] at hlength
  omega

theorem allocateOrEvict_error_io (haccounted : engine.Accounted [])
    {env : OpEnv setup} {error : CacheError} {left : CacheEngine setup}
    (hcall : engine.allocateOrEvict env = (.error error, left)) :
    ∃ failure, error = .ofIo "pwrite" failure := by
  obtain ⟨hfree, ⟨hselect, _⟩ | ⟨_, failure, _, _, _, _, herror, _⟩⟩ :=
    allocateOrEvict_error_cases hcall
  · exact absurd hselect
      (haccounted.selectEvictionCandidate_ne_none hfree env.order)
  · exact ⟨failure, herror⟩

theorem allocateOrEvict_not_internal (haccounted : engine.Accounted [])
    {env : OpEnv setup} {error : CacheError} {next : CacheEngine setup}
    (hcall : engine.allocateOrEvict env = (.error error, next))
    (message : String) : error ≠ .internal message := by
  obtain ⟨failure, rfl⟩ := haccounted.allocateOrEvict_error_io hcall
  exact CacheError.ofIo_ne_internal "pwrite" failure message

theorem allocateOrEvict_clean_cases (haccounted : engine.Accounted [])
    (hclean : ∀ lba, engine.table.dirtyOf lba ≠ some true) (env : OpEnv setup) :
    (∃ slot rest, engine.freeList = slot :: rest ∧
      engine.allocateOrEvict env = (.ok slot, { engine with freeList := rest })) ∨
    ∃ candidate, engine.freeList = [] ∧
      selectEvictionCandidate env.order engine.table = some candidate ∧
      candidate.needsFlush = false ∧
      engine.allocateOrEvict env = (.ok candidate.poolIndex,
        { engine with table := (engine.table.remove candidate.lba).2 }) := by
  have hnever : ∀ {candidate : EvictionCandidate (Lba setup)},
      selectEvictionCandidate env.order engine.table = some candidate →
      candidate.needsFlush ≠ true := by
    intro candidate hselect hflush
    obtain ⟨_, hdirty⟩ := selectEvictionCandidate_spec haccounted.keyed hselect
    exact hclean candidate.lba (hflush ▸ hdirty)
  rcases engine.allocateOrEvict_cases env with
    hfree | ⟨hfree, hselect, _⟩ | ⟨_, _, _, _, hselect, hflush, _⟩ |
    ⟨_, _, hselect, hflush, _⟩ | hevicted
  · exact .inl hfree
  · exact absurd hselect
      (haccounted.selectEvictionCandidate_ne_none hfree env.order)
  · exact absurd hflush (hnever hselect)
  · exact absurd hflush (hnever hselect)
  · exact .inr hevicted

theorem cachedRead_not_internal (haccounted : engine.Accounted [])
    (env : OpEnv setup) (lba : Lba setup) (message : String) :
    (engine.cachedRead env lba).1 ≠ .error (.internal message) := by
  rcases engine.cachedRead_cases env lba with
    ⟨slot, _, heq⟩ | ⟨_, error, left, hcall, heq⟩ |
    ⟨_, slot, held, error, torn, _, _, heq⟩ | ⟨_, slot, held, _, _, heq⟩
  · simp [heq]
  · simpa [heq] using haccounted.allocateOrEvict_not_internal hcall message
  · simp [heq]
  · simp [heq]

theorem cachedWrite_not_internal (haccounted : engine.Accounted [])
    (env : OpEnv setup) (lba : Lba setup) (buf : Block setup)
    (message : String) :
    (engine.cachedWrite env lba buf).1 ≠ .error (.internal message) := by
  rcases engine.cachedWrite_cases env lba buf with
    ⟨_, heq⟩ | ⟨_, slot, flusher, _, heq⟩ | ⟨_, _, error, left, hcall, heq⟩ |
    ⟨_, _, slot, held, flusher, _, heq⟩
  · simp [heq]
  · simp [heq]
  · simpa [heq] using haccounted.allocateOrEvict_not_internal hcall message
  · simp [heq]

theorem perform_not_internal (haccounted : engine.Accounted [])
    (request : Request setup) : ¬(engine.perform request).1.IsInternal := by
  cases request with
  | read env lba =>
      simp only [CacheEngine.perform, CacheEngine.read]
      split
      · next hlba =>
        have hreply := haccounted.cachedRead_not_internal env ⟨lba, hlba⟩
        intro hinternal
        unfold Reply.IsInternal at hinternal
        split at hinternal <;> simp_all
      · exact id
  | write env lba buf =>
      simp only [CacheEngine.perform, CacheEngine.write]
      split
      · next hlba =>
        have hreply := haccounted.cachedWrite_not_internal env ⟨lba, hlba⟩ buf
        intro hinternal
        unfold Reply.IsInternal at hinternal
        split at hinternal <;> simp_all
      · exact id
  | flush order writes => exact id

/-- As long as no fetch fails with a slot in hand, nothing is lost. -/
theorem runAll_kept (haccounted : engine.Accounted lost)
    {run : List (Request setup)}
    (hkept : ∀ past request rest, run = past ++ request :: rest →
      ¬(engine.runAll past).FetchLosesSlot request) :
    (engine.runAll run).Accounted lost := by
  induction run generalizing engine with
  | nil => exact haccounted
  | cons request rest ih =>
      apply ih (haccounted.perform_kept (hkept [] request rest rfl))
      intro past later future heq
      exact hkept (request :: past) later future (by rw [heq]; rfl)

end Accounted

/-- The pool keeps its full capacity exactly in the runs in which no fetch
fails after its slot was obtained, and in those runs the internal error is
never reported. -/
theorem runAll_full_iff (image : Image) (flusher : Option FlushChannel)
    (run : List (Request setup)) :
    ((∀ past rest, run = past ++ rest →
        ((boot setup image flusher).runAll past).Full) ↔
      ∀ past request rest, run = past ++ request :: rest →
        ¬((boot setup image flusher).runAll past).FetchLosesSlot request) ∧
    ((∀ past request rest, run = past ++ request :: rest →
        ¬((boot setup image flusher).runAll past).FetchLosesSlot request) →
      ∀ past request rest, run = past ++ request :: rest →
        ¬(((boot setup image flusher).runAll past).perform
          request).1.IsInternal) := by
  have hboot : (boot setup image flusher).Accounted [] :=
    Accounted.boot image flusher
  have hearly : (∀ past request rest, run = past ++ request :: rest →
        ¬((boot setup image flusher).runAll past).FetchLosesSlot request) →
      ∀ past rest, run = past ++ rest →
        ((boot setup image flusher).runAll past).Accounted [] := by
    intro hkept past rest hsplit
    apply hboot.runAll_kept
    intro earlier request later hpast
    apply hkept earlier request (later ++ rest)
    rw [hsplit, hpast, List.append_assoc, List.cons_append]
  refine ⟨⟨?_, ?_⟩, ?_⟩
  · intro hfull past request rest hsplit hloses
    obtain ⟨lost, hpast⟩ := hboot.runAll past
    have hnil : lost = [] := hpast.full_iff.mp (hfull past _ hsplit)
    subst hnil
    obtain ⟨slot, hnext⟩ := hpast.perform_lost hloses
    have hfullNext := hfull (past ++ [request]) rest (by simp [hsplit])
    rw [runAll_append] at hfullNext
    exact List.cons_ne_nil slot [] (hnext.full_iff.mp hfullNext)
  · intro hkept past rest hsplit
    exact (hearly hkept past rest hsplit).full_iff.mpr rfl
  · intro hkept past request rest hsplit
    exact (hearly hkept past _ hsplit).perform_not_internal request

/-- One failed fetch on a pool of one block leaves it with no block at all. -/
theorem failed_fetch_empties_pool :
    ¬∀ (setup : Setup) (image : Image) (flusher : Option FlushChannel)
      (run : List (Request setup)),
      ((boot setup image flusher).runAll run).Full := by
  intro hfull
  have hcount := (hfull (.mini 0) (fun _ => 0) none [.read {
    now := 1
    later := 2
    order := .stored
    evict := .ok
    fetch := .fail ⟨.other, "Input/output error (os error 5)"⟩ fun _ => 0 } 0]).2
  exact absurd hcount (by decide)

end CacheEngine

end AsmCacheInject.Engine

import AsmCacheInject.Engine.Recency

namespace AsmCacheInject.Engine

open AsmCacheInject.Cache
open AsmCacheInject.Data
open AsmCacheInject.Flush

variable {setup : Setup}

/-! Read-only traffic on a healthy device.  Nothing is ever dirty, so the
engine is an LRU cache: it holds the `capacity` most recently read blocks. -/

structure BlockRead (setup : Setup) where
  env : OpEnv setup
  lba : Lba setup

def BlockRead.request (call : BlockRead setup) : Request setup :=
  .read call.env call.lba.val

namespace CacheEngine

def afterReads (engine : CacheEngine setup) (reads : List (BlockRead setup)) :
    CacheEngine setup :=
  engine.runAll (reads.map BlockRead.request)

def Hits (engine : CacheEngine setup) (call : BlockRead setup) : Prop :=
  ∃ result, (engine.read call.env call.lba.val).1 = .ok result ∧
    result.cacheHit = true

def Misses (engine : CacheEngine setup) (call : BlockRead setup) : Prop :=
  ∃ result, (engine.read call.env call.lba.val).1 = .ok result ∧
    result.cacheHit = false

/-- The cached blocks are a front part of the recency stack, and nothing is
left out while there is room. -/
structure FrontCached (engine : CacheEngine setup)
    (recency : List (Lba setup)) : Prop where
  accounted : engine.Accounted []
  clean : ∀ lba, engine.table.dirtyOf lba ≠ some true
  split : ∃ front back, recency = front ++ back ∧
    (∀ lba, engine.table.slotOf lba ≠ none ↔ lba ∈ front) ∧
    front.length = engine.table.slots.length ∧
    (back = [] ∨ front.length = setup.capacity)

namespace FrontCached

variable {engine : CacheEngine setup} {history : List (Lba setup)}
variable {readings : List Instant}

theorem boot (image : Image) (flusher : Option FlushChannel) :
    (CacheEngine.boot setup image flusher).FrontCached [] where
  accounted := Accounted.boot image flusher
  clean := by simp [CacheEngine.boot]
  split := ⟨[], [], rfl, by simp [CacheEngine.boot], rfl, .inl rfl⟩

theorem clean_iff {recency : List (Lba setup)}
    (hfront : engine.FrontCached recency) (lba : Lba setup) :
    engine.table.dirtyOf lba = some false ↔ engine.table.slotOf lba ≠ none := by
  have hclean := hfront.clean lba
  rw [Ne, ← LbaTable.dirtyOf_eq_none_iff]
  cases hdirty : engine.table.dirtyOf lba with
  | none => simp
  | some dirty =>
      cases dirty with
      | false => simp
      | true => exact absurd hdirty hclean

theorem cached_iff (hfront : engine.FrontCached (Recency.stack history))
    (lba : Lba setup) :
    engine.table.slotOf lba ≠ none ↔
      lba ∈ (Recency.stack history).take setup.capacity := by
  obtain ⟨front, back, hsplit, hcached, hlength, hback⟩ := hfront.split
  have hroom : front.length ≤ setup.capacity := by
    have := hfront.accounted.ledger.length_eq
    simp only [List.append_nil, List.length_append, List.length_range] at this
    omega
  have htake : (Recency.stack history).take setup.capacity = front := by
    rw [hsplit]
    rcases hback with hnil | hfull
    · rw [hnil, List.append_nil, List.take_of_length_le hroom]
    · exact List.take_left' hfull
  rw [htake]
  exact hcached lba

theorem touch (hfront : engine.FrontCached (Recency.stack history))
    {next : CacheEngine setup} (haccounted : next.Accounted [])
    {lba : Lba setup} (hcached : engine.table.slotOf lba ≠ none)
    (hslots : next.table.slotOf = engine.table.slotOf)
    (hlengths : next.table.slots.length = engine.table.slots.length)
    (hdirty : next.table.dirtyOf = engine.table.dirtyOf) :
    next.FrontCached (Recency.stack (history ++ [lba])) := by
  obtain ⟨front, back, hsplit, hmem, hlength, hback⟩ := hfront.split
  have hlba : lba ∈ front := (hmem lba).mp hcached
  refine ⟨haccounted, by simpa only [hdirty] using hfront.clean,
    lba :: front.erase lba, back, ?_, ?_, ?_, ?_⟩
  · rw [Recency.stack_concat, hsplit, List.erase_append_left _ hlba,
      List.cons_append]
  · intro other
    rw [hslots, hmem, (List.perm_cons_erase hlba).mem_iff]
  · rw [← (List.perm_cons_erase hlba).length_eq, hlength, hlengths]
  · rw [← (List.perm_cons_erase hlba).length_eq]
    exact hback

theorem grow (hfront : engine.FrontCached (Recency.stack history))
    {next : CacheEngine setup} (haccounted : next.Accounted [])
    {lba : Lba setup} (habsent : engine.table.slotOf lba = none)
    (hroom : engine.freeList ≠ [])
    {entry : CacheEntry (Lba setup)} (hclean : entry.dirty = false)
    (htable : next.table = (engine.table.insert lba entry).2) :
    next.FrontCached (Recency.stack (history ++ [lba])) := by
  obtain ⟨front, back, hsplit, hmem, hlength, hback⟩ := hfront.split
  have hfresh : lba ∉ front := fun hlba => (hmem lba).mpr hlba habsent
  have hnil : back = [] := by
    apply hback.resolve_right
    have hledger := hfront.accounted.ledger.length_eq
    have hpos := List.length_pos_iff.mpr hroom
    simp only [List.append_nil, List.length_append, List.length_range] at hledger
    omega
  subst hnil
  refine ⟨haccounted, ?_, lba :: front, [], ?_, ?_, ?_, .inl rfl⟩
  · intro other
    rw [htable, LbaTable.dirtyOf_insert]
    split
    · simp [hclean]
    · exact hfront.clean other
  · rw [Recency.stack_concat, hsplit, List.append_nil, List.append_nil,
      List.erase_of_not_mem hfresh]
  · intro other
    rw [htable, LbaTable.slotOf_insert, List.mem_cons, ← hmem]
    split
    · next heq => simp [heq]
    · next hne => simp [hne]
  · rw [htable, LbaTable.slots_insert_of_absent entry habsent,
      List.length_cons, List.length_cons, hlength]

theorem replace (hfront : engine.FrontCached (Recency.stack history))
    {next : CacheEngine setup} (haccounted : next.Accounted [])
    {lba victim : Lba setup} (habsent : engine.table.slotOf lba = none)
    (hfull : engine.freeList = [])
    (hvictim : ((Recency.stack history).filter fun other =>
      engine.table.dirtyOf other = some false).getLast? = some victim)
    {entry : CacheEntry (Lba setup)} (hclean : entry.dirty = false)
    (htable : next.table =
      ((engine.table.remove victim).2.insert lba entry).2) :
    next.FrontCached (Recency.stack (history ++ [lba])) := by
  obtain ⟨front, back, hsplit, hmem, hlength, hback⟩ := hfront.split
  have hnodup := Recency.nodup_stack history
  rw [hsplit] at hnodup
  have hfilter : (Recency.stack history).filter (fun other =>
      engine.table.dirtyOf other = some false) = front := by
    have hclean : ∀ other, engine.table.dirtyOf other = some false ↔
        other ∈ front := by
      intro other
      rw [← hmem]
      exact hfront.clean_iff other
    rw [hsplit, List.filter_append]
    simp only [hclean]
    rw [List.filter_eq_self.mpr (by simp), List.filter_eq_nil_iff.mpr,
      List.append_nil]
    intro other hother hin
    exact List.disjoint_of_nodup_append hnodup (by simpa using hin) hother
  rw [hfilter] at hvictim
  obtain ⟨initial, hfrontEq⟩ := List.getLast?_eq_some_iff.mp hvictim
  subst hfrontEq
  have hfresh : lba ∉ initial ++ [victim] :=
    fun hlba => (hmem lba).mpr hlba habsent
  have hvictimFresh : victim ∉ initial := by
    intro hin
    exact List.disjoint_of_nodup_append hnodup.of_append_left hin
      (List.mem_singleton_self victim)
  obtain ⟨slot, hslot⟩ :=
    Option.ne_none_iff_exists'.mp ((hmem victim).mpr (by simp))
  have hgone : (engine.table.remove victim).2.slotOf lba = none := by
    rw [LbaTable.slotOf_remove]
    split
    · rfl
    · exact habsent
  have hremoved := (LbaTable.slots_remove_perm hslot).length_eq
  have hledger := hfront.accounted.ledger.length_eq
  simp only [hfull, List.nil_append, List.append_nil,
    List.length_range] at hledger
  simp only [List.length_append, List.length_singleton] at hlength
  refine ⟨haccounted, ?_, lba :: initial, victim :: back.erase lba, ?_, ?_, ?_,
    .inr ?_⟩
  · intro other
    rw [htable, LbaTable.dirtyOf_insert, LbaTable.dirtyOf_remove]
    split
    · simp [hclean]
    · split
      · simp
      · exact hfront.clean other
  · rw [Recency.stack_concat, hsplit, List.erase_append_right _ hfresh]
    simp
  · intro other
    have hother := hmem other
    rw [List.mem_append, List.mem_singleton] at hother
    rw [htable, LbaTable.slotOf_insert, LbaTable.slotOf_remove, List.mem_cons]
    split
    · next heq => simp [heq]
    · next hne =>
      split
      · next heq =>
        subst heq
        simp [hne, hvictimFresh]
      · next hneVictim => simp [hother, hne, hneVictim]
  · rw [htable, LbaTable.slots_insert_of_absent entry hgone, List.length_cons]
    simp only [List.length_cons] at hremoved ⊢
    omega
  · rw [List.length_cons]
    omega

/-- A read succeeds, hits exactly when its block is cached, and leaves the
cache at the front of the new recency order. -/
theorem cachedRead (hfront : engine.FrontCached (Recency.stack history))
    (hrecent : engine.Recent history readings) {env : OpEnv setup}
    (hfetch : env.fetch.succeeds = true) (lba : Lba setup) :
    (engine.cachedRead env lba).2.FrontCached
        (Recency.stack (history ++ [lba])) ∧
      ∃ result, (engine.cachedRead env lba).1 = .ok result ∧
        (result.cacheHit = true ↔ engine.table.slotOf lba ≠ none) := by
  have haccounted : (engine.cachedRead env lba).2.Accounted [] :=
    hfront.accounted.cachedRead_kept fun hloses => by simp [hfetch] at hloses
  rcases engine.cachedRead_cases env lba with
    ⟨slot, hslot, heq⟩ | ⟨_, error, left, hcall, _⟩ |
    ⟨_, _, _, _, _, _, hfail, _⟩ | ⟨habsent, slot, held, hcall, _, heq⟩
  · rw [heq] at haccounted ⊢
    have hcached : engine.table.slotOf lba ≠ none := by simp [hslot]
    refine ⟨hfront.touch haccounted hcached (LbaTable.slotOf_getAndTouch ..)
      (LbaTable.slots_getAndTouch_perm env.now).length_eq
      (LbaTable.dirtyOf_getAndTouch ..), _, rfl, ?_⟩
    simp [hslot]
  · rcases hfront.accounted.allocateOrEvict_clean_cases hfront.clean env with
      ⟨_, _, _, hok⟩ | ⟨_, _, _, _, hok⟩ <;>
      rw [hcall] at hok <;> cases hok
  · exact absurd hfail (IoOutcome.ne_fail hfetch _ _)
  · rw [heq] at haccounted ⊢
    refine ⟨?_, _, rfl, by simp [habsent]⟩
    rcases hfront.accounted.allocateOrEvict_clean_cases hfront.clean env with
      ⟨_, _, hfree, hok⟩ | ⟨candidate, hfull, hselect, hflush, hok⟩
    · rw [hcall] at hok
      cases hok
      exact hfront.grow haccounted habsent (by simp [hfree]) rfl rfl
    · have hvictim := hrecent.victim hfront.accounted.keyed hselect
      rw [hflush] at hvictim
      rw [hcall] at hok
      cases hok
      exact hfront.replace haccounted habsent hfull hvictim rfl rfl

end FrontCached

theorem afterReads_concat (engine : CacheEngine setup)
    (past : List (BlockRead setup)) (call : BlockRead setup) :
    engine.afterReads (past ++ [call]) =
      ((engine.afterReads past).cachedRead call.env call.lba).2 := by
  simp [afterReads, BlockRead.request, runAll, perform, CacheEngine.read]

theorem afterReads_frontCached (image : Image) (flusher : Option FlushChannel)
    {reads : List (BlockRead setup)}
    (hclock : (reads.map (·.env.now)).Pairwise (· < ·))
    (hfaultless : ∀ call ∈ reads, call.env.fetch.succeeds = true) :
    ((boot setup image flusher).afterReads reads).FrontCached
        (Recency.stack (reads.map (·.lba))) ∧
      ((boot setup image flusher).afterReads reads).Recent
        (reads.map (·.lba)) (reads.map (·.env.now)) := by
  induction reads using List.reverseRecOn with
  | nil => exact ⟨FrontCached.boot image flusher, Recent.boot image flusher⟩
  | append_singleton past call ih =>
      rw [List.map_append, List.pairwise_append] at hclock
      obtain ⟨hpast, hlast⟩ := List.forall_mem_append.mp hfaultless
      obtain ⟨hfront, hrecent⟩ := ih hclock.1 hpast
      obtain ⟨hnext, result, hresult, _⟩ := hfront.cachedRead hrecent
        (hlast call (List.mem_singleton_self call)) call.lba
      have haccessed : ((boot setup image flusher).afterReads past).accessed
          call.request = [call.lba] := by
        simp [accessed, BlockRead.request, perform, CacheEngine.read,
          Request.acknowledged, hresult, BlockEvent.lba]
      have hstamped : (((boot setup image flusher).afterReads past).perform
          call.request).2.Recent _ (past.map (·.env.now) ++ call.request.readings) :=
        hrecent.perform hclock.2.2
      rw [haccessed] at hstamped
      rw [afterReads_concat, List.map_append, List.map_append]
      refine ⟨hnext, ?_⟩
      simpa [BlockRead.request, perform, CacheEngine.read, Request.readings]
        using hstamped

/-- `lba` was read before, and fewer than `capacity` other blocks since. -/
def ReusedWithin (capacity : Nat) (past : List (Lba setup)) (lba : Lba setup) :
    Prop :=
  ∃ before after, past = before ++ lba :: after ∧ lba ∉ after ∧
    after.toFinset.card < capacity

theorem mem_take_iff_reusedWithin {capacity : Nat} {past : List (Lba setup)}
    {lba : Lba setup} :
    lba ∈ (Recency.stack past).take capacity ↔
      ReusedWithin capacity past lba := by
  constructor
  · intro hmem
    obtain ⟨before, after, hsplit, hlast⟩ := Recency.exists_last_use
      (Recency.mem_stack.mp (List.mem_of_mem_take hmem))
    rw [hsplit, Recency.mem_take_stack_iff hlast] at hmem
    exact ⟨before, after, hsplit, hlast, hmem⟩
  · rintro ⟨before, after, hsplit, hlast, hdistance⟩
    rw [hsplit]
    exact (Recency.mem_take_stack_iff hlast).mpr hdistance

theorem read_hit_iff (image : Image) (flusher : Option FlushChannel)
    {past : List (BlockRead setup)} {call : BlockRead setup}
    (hclock : (past.map (·.env.now)).Pairwise (· < ·))
    (hfaultless : ∀ earlier ∈ past ++ [call],
      earlier.env.fetch.succeeds = true) :
    ∃ result, (((boot setup image flusher).afterReads past).read call.env
        call.lba.val).1 = .ok result ∧
      (result.cacheHit = true ↔
        ReusedWithin setup.capacity (past.map (·.lba)) call.lba) := by
  obtain ⟨hpast, hlast⟩ := List.forall_mem_append.mp hfaultless
  obtain ⟨hfront, hrecent⟩ :=
    afterReads_frontCached image flusher hclock hpast
  obtain ⟨_, result, hresult, hhit⟩ := hfront.cachedRead hrecent
    (hlast call (List.mem_singleton_self call)) call.lba
  refine ⟨result, by simpa [CacheEngine.read] using hresult, ?_⟩
  rw [hhit, hfront.cached_iff, mem_take_iff_reusedWithin]

theorem reusedWithin_of_replay {capacity : Nat} {first before : List (Lba setup)}
    {lba : Lba setup} {rest : List (Lba setup)}
    (hreplay : first = before ++ lba :: rest)
    (hfits : first.toFinset.card ≤ capacity) :
    ReusedWithin capacity (first ++ before) lba := by
  have hmem : lba ∈ first := by simp [hreplay]
  obtain ⟨older, after, hsplit, hlast⟩ := Recency.exists_last_use
    (List.mem_append_left before hmem)
  refine ⟨older, after, hsplit, hlast, ?_⟩
  have hsubset : after.toFinset ⊆ first.toFinset.erase lba := by
    intro other hother
    rw [List.mem_toFinset] at hother
    have hne : other ≠ lba := fun heq => hlast (heq ▸ hother)
    have hcopy : other ∈ first ++ before := by simp [hsplit, hother]
    rw [Finset.mem_erase, List.mem_toFinset]
    refine ⟨hne, ?_⟩
    rcases List.mem_append.mp hcopy with hfirst | hbefore
    · exact hfirst
    · simp [hreplay, hbefore]
  calc after.toFinset.card
      ≤ (first.toFinset.erase lba).card := Finset.card_le_card hsubset
    _ < first.toFinset.card :=
        Finset.card_erase_lt_of_mem (List.mem_toFinset.mpr hmem)
    _ ≤ capacity := hfits

/-- Reads alone, on a healthy device and a strictly increasing clock, see an
exact LRU cache: a read hits exactly when its block is among the `capacity`
most recently read ones.  Replaying reads of at most `capacity` blocks hits
every time; repeating a scan of more blocks never does. -/
theorem reads_exact_lru (image : Image) (flusher : Option FlushChannel)
    (reads : List (BlockRead setup))
    (hclock : (reads.map (·.env.now)).Pairwise (· < ·))
    (hfaultless : ∀ call ∈ reads, call.env.fetch.succeeds = true) :
    (∀ past call rest, reads = past ++ call :: rest →
      ∃ result, (((boot setup image flusher).afterReads past).read call.env
          call.lba.val).1 = .ok result ∧
        (result.cacheHit = true ↔
          ReusedWithin setup.capacity (past.map (·.lba)) call.lba)) ∧
    (∀ first second, reads = first ++ second →
      second.map (·.lba) = first.map (·.lba) →
      (first.map (·.lba)).toFinset.card ≤ setup.capacity →
      ∀ past call rest, second = past ++ call :: rest →
        ((boot setup image flusher).afterReads (first ++ past)).Hits call) ∧
    (∀ (scan : List (Lba setup)) (count : Nat), scan.Nodup →
      setup.capacity < scan.length →
      reads.map (·.lba) = (List.replicate count scan).flatten →
      ∀ past call rest, reads = past ++ call :: rest →
        ((boot setup image flusher).afterReads past).Misses call) := by
  have hexact : ∀ past call rest, reads = past ++ call :: rest →
      ∃ result, (((boot setup image flusher).afterReads past).read call.env
          call.lba.val).1 = .ok result ∧
        (result.cacheHit = true ↔
          ReusedWithin setup.capacity (past.map (·.lba)) call.lba) := by
    intro past call rest hsplit
    subst hsplit
    rw [List.map_append] at hclock
    apply read_hit_iff image flusher (List.pairwise_append.mp hclock).1
    intro earlier hearlier
    apply hfaultless
    simp only [List.mem_append, List.mem_singleton] at hearlier
    simp only [List.mem_append, List.mem_cons]
    tauto
  refine ⟨hexact, ?_, ?_⟩
  · intro first second hreads hreplay hfits past call rest hsecond
    obtain ⟨result, hresult, hhit⟩ := hexact (first ++ past) call rest (by
      rw [hreads, hsecond, List.append_assoc])
    refine ⟨result, hresult, hhit.mpr ?_⟩
    rw [List.map_append]
    apply reusedWithin_of_replay _ hfits
    · exact rest.map (·.lba)
    · rw [← hreplay, hsecond, List.map_append, List.map_cons]
  · intro scan count hnodup hlarge hscan past call rest hsplit
    obtain ⟨result, hresult, hhit⟩ := hexact past call rest hsplit
    refine ⟨result, hresult, ?_⟩
    by_contra hmiss
    obtain ⟨before, after, hpast, hlast, hdistance⟩ :=
      hhit.mp (by simpa using hmiss)
    rw [hsplit, List.map_append, List.map_cons, hpast, List.append_assoc,
      List.cons_append] at hscan
    have hbetween := Recency.scan_between hnodup hlast hscan.symm
    omega

def twoPasses (spare : Nat) : List (BlockRead (.mini spare)) :=
  [⟨⟨1, 1, .stored, .ok, .ok⟩, 0⟩, ⟨⟨2, 2, .stored, .ok, .ok⟩, 1⟩,
    ⟨⟨3, 3, .stored, .ok, .ok⟩, 2⟩, ⟨⟨4, 4, .stored, .ok, .ok⟩, 0⟩,
    ⟨⟨5, 5, .stored, .ok, .ok⟩, 1⟩, ⟨⟨6, 6, .stored, .ok, .ok⟩, 2⟩]

/-- With three blocks the second pass starts with a hit, with two it does
not. -/
theorem twoPasses_second_pass :
    ((boot (.mini 2) (fun _ => 0) none).afterReads ((twoPasses 2).take 3)).Hits
        ⟨⟨4, 4, .stored, .ok, .ok⟩, 0⟩ ∧
      ((boot (.mini 1) (fun _ => 0) none).afterReads
        ((twoPasses 1).take 3)).Misses ⟨⟨4, 4, .stored, .ok, .ok⟩, 0⟩ := by
  constructor
  · exact (reads_exact_lru (fun _ => 0) none (twoPasses 2) (by decide)
      (by simp [twoPasses, IoOutcome.succeeds])).2.1 ((twoPasses 2).take 3)
      ((twoPasses 2).drop 3) rfl rfl (by decide) [] _ _ rfl
  · exact (reads_exact_lru (fun _ => 0) none (twoPasses 1) (by decide)
      (by simp [twoPasses, IoOutcome.succeeds])).2.2 [0, 1, 2] 2 (by decide)
      (by decide) rfl ((twoPasses 1).take 3) _ ((twoPasses 1).drop 4) rfl

end CacheEngine

end AsmCacheInject.Engine

import AsmCacheInject.Concurrent.Ownership
import AsmCacheInject.Data.Shares

namespace AsmCacheInject.Concurrent

open AsmCacheInject.Cache
open AsmCacheInject.Data
open AsmCacheInject.Engine
open AsmCacheInject.Flush

variable {setup : Setup} {n : Nat}

/-! The slot ledger under interleaving.  Every slot is free, mapped or in a
client's hands, up to the slips of the table calls whose results are ignored:
an `insert` that replaces an entry drops its slot, and a `remove` that does not
find the selected entry lets a slot be freed that it did not take out. -/

inductive Slip
  | replaced (slot : Nat)
  | swapped (taken freed : Nat)
  | missed (freed : Nat)
  deriving DecidableEq, Repr

namespace Slip

/-- The slot nobody has any more. -/
def dropped : Slip → List Nat
  | .replaced slot => [slot]
  | .swapped taken _ => [taken]
  | .missed _ => []

/-- The slot that is in a client's hands without having been taken out. -/
def forged : Slip → List Nat
  | .replaced _ => []
  | .swapped _ freed => [freed]
  | .missed freed => [freed]

def isReplaced : Slip → Bool
  | .replaced _ => true
  | _ => false

def isMissed : Slip → Bool
  | .missed _ => true
  | _ => false

theorem length_dropped (slips : List Slip) :
    (slips.flatMap dropped).length + slips.countP isMissed = slips.length := by
  induction slips with
  | nil => rfl
  | cons slip rest ih =>
      have hslip : slip.dropped.length + (if slip.isMissed then 1 else 0) = 1 := by
        cases slip <;> rfl
      rw [List.flatMap_cons, List.length_append, List.countP_cons,
        List.length_cons]
      omega

theorem length_forged (slips : List Slip) :
    (slips.flatMap forged).length + slips.countP isReplaced = slips.length := by
  induction slips with
  | nil => rfl
  | cons slip rest ih =>
      have hslip : slip.forged.length + (if slip.isReplaced then 1 else 0) = 1 := by
        cases slip <;> rfl
      rw [List.flatMap_cons, List.length_append, List.countP_cons,
        List.length_cons]
      omega

theorem dropped_replaced (slots : List Nat) :
    (slots.map replaced).flatMap dropped = slots := by
  simp [List.flatMap_map, dropped]

theorem forged_replaced (slots : List Nat) :
    (slots.map replaced).flatMap forged = [] := by
  simp [List.flatMap_map, forged]

end Slip

/-- The slips of one step, seen in the table it acts on. -/
def Pc.slips (table : LbaTable (Lba setup)) : Pc setup → List Slip
  | .insertRead lba _ => (table.slotOf lba).toList.map .replaced
  | .insertWrite lba _ _ => (table.slotOf lba).toList.map .replaced
  | .removeVictim _ victim =>
      match table.slotOf victim.lba with
      | none => [.missed victim.poolIndex]
      | some slot =>
          if slot = victim.poolIndex then []
          else [.swapped slot victim.poolIndex]
  | _ => []

def Pc.hand (pc : Pc setup) : Multiset Nat :=
  pc.held.toList

theorem Pc.hand_of_held {pc : Pc setup} {slot : Nat} (hheld : pc.held = some slot) :
    pc.hand = ([slot] : List Nat) := by
  simp [Pc.hand, hheld]

theorem Pc.hand_of_none {pc : Pc setup} (hheld : pc.held = none) : pc.hand = 0 := by
  simp [Pc.hand, hheld]

def stock (engine : CacheEngine setup) : Multiset Nat :=
  engine.freeList + engine.table.slots

/-- The books of one step: what is dropped balances what was there, what is
forged balances what is there now. -/
def Balances (before : Multiset Nat) (slips : List Slip)
    (after : Multiset Nat) : Prop :=
  after + (slips.flatMap Slip.dropped : List Nat) =
    before + (slips.flatMap Slip.forged : List Nat)

theorem balances_of_eq {before after : Multiset Nat} (heq : after = before) :
    Balances before [] after := by
  subst heq
  rfl

theorem Balances.trans {first second third : Multiset Nat} {slips more : List Slip}
    (hfirst : Balances first slips second) (hsecond : Balances second more third) :
    Balances first (slips ++ more) third := by
  unfold Balances at *
  ext slot
  have hfirstCount := congrArg (Multiset.count slot) hfirst
  have hsecondCount := congrArg (Multiset.count slot) hsecond
  simp only [Multiset.count_add, Multiset.coe_count, List.flatMap_append,
    List.count_append] at hfirstCount hsecondCount ⊢
  omega

theorem Balances.card {before after : Multiset Nat} {slips : List Slip}
    (hbalances : Balances before slips after) :
    after.card + slips.countP Slip.isReplaced =
      before.card + slips.countP Slip.isMissed := by
  have hcard := congrArg Multiset.card hbalances
  have hdropped := Slip.length_dropped slips
  have hforged := Slip.length_forged slips
  simp only [Multiset.card_add, Multiset.coe_card] at hcard
  omega

section Step

variable {choice : Choice setup} {engine nextEngine : CacheEngine setup}
variable {pc next : Pc setup} {lba : Lba setup} {slot : Nat}

theorem balances_insert (lba : Lba setup) {entry : CacheEntry (Lba setup)}
    (hslot : entry.poolIndex = slot) :
    Balances (stock engine + ([slot] : List Nat))
      ((engine.table.slotOf lba).toList.map .replaced)
      (stock { engine with table := (engine.table.insert lba entry).2 }) := by
  have hperm : ((engine.table.slotOf lba).toList ++
      (engine.table.remove lba).2.slots).Perm engine.table.slots :=
    LbaTable.slots_remove_toList_perm
  unfold Balances stock
  rw [Slip.dropped_replaced, Slip.forged_replaced, LbaTable.slots_insert, hslot]
  ext other
  have hcount := hperm.count_eq other
  simp only [Multiset.count_add, Multiset.coe_count, List.count_append,
    List.count_cons, List.count_nil] at hcount ⊢
  omega

theorem balances_remove (victim : EvictionCandidate (Lba setup))
    (miss : Miss setup) :
    Balances (stock engine) ((Pc.removeVictim miss victim).slips engine.table)
      (stock { engine with table := (engine.table.remove victim.lba).2 } +
        ([victim.poolIndex] : List Nat)) := by
  have hperm : ((engine.table.slotOf victim.lba).toList ++
      (engine.table.remove victim.lba).2.slots).Perm engine.table.slots :=
    LbaTable.slots_remove_toList_perm
  unfold Balances stock
  ext other
  have hcount := hperm.count_eq other
  simp only [Pc.slips]
  cases hslot : engine.table.slotOf victim.lba with
  | none =>
      simp only [hslot, Multiset.count_add, Multiset.coe_count,
        List.count_append, List.count_cons, List.count_nil, Slip.dropped,
        Slip.forged, List.flatMap_cons, List.flatMap_nil,
        Option.toList_none] at hcount ⊢
      omega
  | some taken =>
      by_cases heq : taken = victim.poolIndex
      · subst heq
        simp only [hslot, if_true, Multiset.count_add, Multiset.coe_count,
          List.count_append, List.count_cons, List.count_nil, List.flatMap_nil,
          Option.toList_some] at hcount ⊢
        omega
      · simp only [hslot, if_neg heq, Multiset.count_add, Multiset.coe_count,
          List.count_append, List.count_cons, List.count_nil, Slip.dropped,
          Slip.forged, List.flatMap_cons, List.flatMap_nil,
          Option.toList_some] at hcount ⊢
        omega

theorem stock_same_slots {table : LbaTable (Lba setup)}
    (hperm : table.slots.Perm engine.table.slots) :
    stock { engine with table := table } = stock engine := by
  unfold stock
  rw [Multiset.coe_eq_coe.mpr hperm]

theorem stock_take {rest : List Nat} (hfree : engine.freeList = slot :: rest) :
    stock { engine with freeList := rest } + ([slot] : List Nat) =
      stock engine := by
  unfold stock
  rw [hfree]
  ext other
  simp only [Multiset.count_add, Multiset.coe_count, List.count_cons,
    List.count_nil]
  omega

theorem ClientStep.balances (hstep : ClientStep choice engine pc next nextEngine)
    (hio : choice.io.succeeds = true) :
    Balances (stock engine + pc.hand) (pc.slips engine.table)
      (stock nextEngine + next.hand) := by
  cases hstep with
  | lookupHit hslot =>
      apply balances_of_eq
      rw [stock_same_slots (LbaTable.slots_getAndTouch_perm choice.now)]
      rfl
  | @takeFree miss slot rest hfree =>
      apply balances_of_eq
      rw [Pc.hand_of_held (Miss.held_filling miss slot), stock_take hfree,
        Pc.hand_of_none rfl, add_zero]
  | @retake miss slot rest hfree =>
      apply balances_of_eq
      rw [Pc.hand_of_held (Miss.held_filling miss slot), stock_take hfree,
        Pc.hand_of_none rfl, add_zero]
  | @removeVictim miss victim =>
      rw [Pc.hand_of_none rfl, add_zero]
      exact balances_remove victim miss
  | @freeVictim miss victim =>
      apply balances_of_eq
      rw [Pc.hand_of_none rfl, add_zero]
      exact (stock_take rfl).symm
  | fetchTorn hfail => exact absurd hfail (IoOutcome.ne_fail hio _ _)
  | @insertRead lba slot =>
      have hempty : (Pc.copyRead lba slot).hand = 0 := rfl
      rw [hempty, add_zero]
      exact balances_insert lba rfl
  | @insertWrite lba buf slot =>
      have hempty : (Pc.stats lba buf false).hand = 0 := rfl
      rw [hempty, add_zero]
      exact balances_insert lba rfl
  | markDirty =>
      apply balances_of_eq
      rw [stock_same_slots (LbaTable.slots_markDirty_perm choice.now)]
      rfl
  | _ => exact balances_of_eq rfl

theorem FlusherStep.stock_eq {flusherPc nextPc : FlusherPc setup}
    (hstep : FlusherStep choice engine flusherPc nextPc nextEngine) :
    stock nextEngine = stock engine := by
  cases hstep with
  | cleaned => exact stock_same_slots LbaTable.slots_markClean_perm
  | _ => rfl

end Step

namespace Machine

variable {machine next : Machine setup n} {action : Action setup n}

def slips (machine : Machine setup n) : Action setup n → List Slip
  | .client thread _ => (machine.client thread).slips machine.engine.table
  | _ => []

/-- All slots that the engine and the clients have. -/
def holdings (machine : Machine setup n) : Multiset Nat :=
  stock machine.engine + Shares.total Pc.hand machine.client

theorem holdings_update {thread : Fin n} {pc : Pc setup}
    (hsame : pc.hand = (machine.client thread).hand) :
    holdings { machine with
      client := Function.update machine.client thread pc } =
      machine.holdings := by
  have htotal := Shares.total_update Pc.hand machine.client thread pc
  rw [hsame] at htotal
  unfold holdings
  rw [add_right_cancel htotal]

theorem holdings_step (hio : action.faultless = true)
    (hstep : machine.step action = some next) :
    Balances machine.holdings (machine.slips action) next.holdings := by
  cases step_cases hstep with
  | @invoke thread call howner hidle =>
      apply balances_of_eq
      apply holdings_update
      rw [hidle, Pc.hand_of_none call.held_enter]
      rfl
  | @client thread choice pc engine hclient =>
      have hbalances := hclient.balances hio
      have htotal := Shares.total_update Pc.hand machine.client thread pc
      unfold Balances holdings at *
      ext slot
      have hcount := congrArg (Multiset.count slot) hbalances
      have htotalCount := congrArg (Multiset.count slot) htotal
      simp only [Multiset.count_add, Machine.slips] at hcount htotalCount ⊢
      omega
  | @respond thread outcome hdone =>
      apply balances_of_eq
      apply holdings_update
      rw [hdone]
      rfl
  | flush hflush =>
      apply balances_of_eq
      unfold holdings
      rw [hflush.stock_eq]
  | owner howner => cases howner <;> exact balances_of_eq rfl

theorem holdings_init (setup : Setup) (n : Nat) (image : Image) :
    (init setup n image).holdings = Multiset.range setup.capacity := by
  have hhands : Shares.total Pc.hand (init setup n image).client = 0 :=
    Shares.total_eq_zero fun _ => rfl
  have hslots : (init setup n image).engine.table.slots = [] := rfl
  have hfree : (((init setup n image).engine.freeList : List Nat) : Multiset Nat) =
      Multiset.range setup.capacity :=
    Multiset.coe_eq_coe.mpr (List.reverse_perm _)
  rw [holdings, stock, hhands, hslots, hfree]
  simp

theorem holdings_run {image : Image} {run : List (Action setup n)}
    (hfaultless : ∀ action ∈ run, action.faultless = true)
    (hrun : Run.exec step (init setup n image) run = some machine) :
    Balances (Multiset.range setup.capacity)
      (Run.trace step slips (init setup n image) run) machine.holdings := by
  apply Run.invariant_trace
    (I := fun past machine =>
      Balances (Multiset.range setup.capacity) past machine.holdings)
    (balances_of_eq (holdings_init setup n image)) ?_
    (Run.along_of_forall hfaultless) hrun
  intro past machine action next hbalances hio hstep
  exact hbalances.trans (holdings_step hio hstep)

theorem Quiet.holdings_eq (hquiet : machine.Quiet) :
    machine.holdings = stock machine.engine := by
  have hhands : Shares.total Pc.hand machine.client = 0 := by
    apply Shares.total_eq_zero
    intro thread
    rw [Pc.isIdle_iff.mp (hquiet thread)]
    rfl
  rw [holdings, hhands, add_zero]

theorem card_stock (engine : CacheEngine setup) :
    (stock engine).card =
      engine.freeList.length + engine.table.stats.totalEntries := by
  simp only [stock, Multiset.card_add, Multiset.coe_card, LbaTable.length_slots]

/-- When no call is in progress, the free slots and the entries make up the
pool exactly when as many inserts replaced an entry as removes found nothing;
and in a run without slips every slot is still on the free list or in the
table. -/
theorem quiet_slots_iff {image : Image} (run : List (Action setup n))
    (hfaultless : ∀ action ∈ run, action.faultless = true)
    (hrun : Run.exec step (init setup n image) run = some machine)
    (hquiet : machine.Quiet) :
    (machine.engine.freeList.length + machine.engine.table.stats.totalEntries =
        setup.capacity ↔
      (Run.trace step slips (init setup n image) run).countP Slip.isReplaced =
        (Run.trace step slips (init setup n image) run).countP Slip.isMissed) ∧
    (Run.trace step slips (init setup n image) run = [] →
      ∀ slot < setup.capacity, slot ∈ machine.engine.freeList ∨
        ∃ lba, machine.engine.table.slotOf lba = some slot) := by
  have hbalances := holdings_run hfaultless hrun
  rw [hquiet.holdings_eq] at hbalances
  constructor
  · have hcard := hbalances.card
    rw [card_stock, Multiset.card_range] at hcard
    omega
  · intro hnone slot hslot
    rw [hnone] at hbalances
    have hmem : slot ∈ stock machine.engine := by
      have hstock : stock machine.engine = Multiset.range setup.capacity := by
        simpa [Balances] using hbalances
      rw [hstock]
      exact Multiset.mem_range.mpr hslot
    rcases Multiset.mem_add.mp hmem with hfree | hmapped
    · exact .inl hfree
    · exact .inr (LbaTable.mem_slots_iff.mp hmapped)

def separateMisses : List (Action (.mini 1) 2) :=
  List.flatten [
    [.invoke clientA (.read 0), .invoke clientB (.write 1 fun _ => 5)],
    advance clientA 3 1, advance clientB 6 2, advance clientA 2 3,
    [.respond clientA, .respond clientB, .invoke clientA (.read 2)],
    advance clientA 9 4, [.respond clientA]]

theorem separateMisses_keep_slots :
    ∃ machine, Run.exec step (init (.mini 1) 2 stripes) separateMisses =
        some machine ∧ machine.Quiet ∧
      machine.engine.freeList.length + machine.engine.table.stats.totalEntries =
        (Setup.mini 1).capacity := by
  have hquiet : (Run.exec step (init (.mini 1) 2 stripes) separateMisses).map
      (fun machine => decide machine.Quiet) = some true := by
    decide +kernel
  obtain ⟨machine, hrun, hquiet⟩ := Option.map_eq_some_iff.mp hquiet
  have hnone : Run.trace step slips (init (.mini 1) 2 stripes) separateMisses =
      [] := by
    decide +kernel
  have hslots := (quiet_slots_iff separateMisses (by decide +kernel) hrun
    (of_decide_eq_true hquiet)).1
  rw [hnone] at hslots
  exact ⟨machine, hrun, of_decide_eq_true hquiet, hslots.mpr rfl⟩

/-- Both clients miss on block 0; the second insert replaces the first entry
and its slot is never seen again. -/
def twinMisses : List (Action (.mini 1) 2) :=
  List.flatten [
    [.invoke clientA (.read 0), .invoke clientB (.read 0)],
    advance clientA 2 1, advance clientB 5 2, advance clientA 3 3,
    [.respond clientA, .respond clientB]]

theorem twinMisses_lose_slot :
    ¬∀ (setup : Setup) (n : Nat) (image : Image) (run : List (Action setup n))
      (machine : Machine setup n),
      (∀ action ∈ run, action.faultless = true) →
      Run.exec step (init setup n image) run = some machine → machine.Quiet →
      machine.engine.freeList.length + machine.engine.table.stats.totalEntries =
        setup.capacity := by
  intro hkeeps
  have hlost : (Run.exec step (init (.mini 1) 2 stripes) twinMisses).map
      (fun machine => (decide machine.Quiet, machine.engine.freeList.length +
        machine.engine.table.stats.totalEntries)) = some (true, 1) := by
    decide +kernel
  obtain ⟨machine, hrun, hfinal⟩ := Option.map_eq_some_iff.mp hlost
  obtain ⟨hquiet, hcount⟩ := Prod.mk.inj hfinal
  have hcapacity := hkeeps (.mini 1) 2 stripes twinMisses machine
    (by decide +kernel) hrun (of_decide_eq_true hquiet)
  rw [hcount] at hcapacity
  exact absurd hcapacity (by decide)

end Machine

end AsmCacheInject.Concurrent

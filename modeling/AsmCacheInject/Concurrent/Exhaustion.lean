import AsmCacheInject.Concurrent.Ledger

namespace AsmCacheInject.Concurrent

open AsmCacheInject.Cache
open AsmCacheInject.Data
open AsmCacheInject.Engine
open AsmCacheInject.Flush

variable {setup : Setup} {n : Nat}

/-! When `allocate_or_evict` fails.  A client that has freed its victim's slot
has nothing in hand until its second `allocate`; what it counts on is that the
free list is at least as long as there are such clients. -/

def Pc.reclaims : Pc setup → Nat
  | .reallocate _ => 1
  | _ => 0

def Pc.allocates : Pc setup → Bool
  | .allocate _ => true
  | _ => false

def Pc.selects : Pc setup → Bool
  | .select _ => true
  | _ => false

/-- The client keeps a slot from the others: it is in its hands, or freed for
its second `allocate`. -/
def Pc.busy (pc : Pc setup) : Nat :=
  pc.hand.card + pc.reclaims

def Pc.Served : Pc setup → Prop
  | .done (.failed (.poolExhausted _ _)) => False
  | .done (.failed (.internal _)) => False
  | _ => True

def Pc.failure : Pc setup → Option CacheError
  | .done (.failed error) => some error
  | _ => none

theorem Pc.failure_eq_some_iff {pc : Pc setup} {error : CacheError} :
    pc.failure = some error ↔ pc = .done (.failed error) := by
  cases pc with
  | done outcome => cases outcome <;> simp [Pc.failure]
  | _ => simp [Pc.failure]

theorem Miss.reclaims_filling (miss : Miss setup) (slot : Nat) :
    (miss.filling slot).reclaims = 0 := by
  cases miss <;> rfl

theorem Miss.served_filling (miss : Miss setup) (slot : Nat) :
    (miss.filling slot).Served := by
  cases miss <;> trivial

theorem Call.reclaims_enter (call : Call setup) : call.enter.reclaims = 0 :=
  call.enter_induction (fun _ => rfl) (fun _ => rfl) fun _ _ => rfl

theorem Call.served_enter (call : Call setup) : call.enter.Served := by
  cases call with
  | read lba =>
      simp only [Call.enter]
      split <;> trivial
  | write lba buf =>
      simp only [Call.enter]
      split
      · split <;> trivial
      · trivial

theorem Call.enter_ne_select (call : Call setup) (miss : Miss setup) :
    call.enter ≠ .select miss :=
  call.enter_induction (fun _ => by simp) (fun _ => by simp) fun _ _ => by simp

theorem Miss.filling_ne_select (miss other : Miss setup) (slot : Nat) :
    miss.filling slot ≠ .select other := by
  cases miss <;> simp [Miss.filling]

section Step

variable {choice : Choice setup} {engine nextEngine : CacheEngine setup}
variable {pc next : Pc setup}

/-- The free list and the client's claim to it move together, except when a
first `allocate` takes a slot or a second one finds none. -/
theorem ClientStep.reserve (hstep : ClientStep choice engine pc next nextEngine) :
    (nextEngine.freeList.length + pc.reclaims =
        engine.freeList.length + next.reclaims) ∨
      (∃ miss, pc = .allocate miss) ∧ next.reclaims = 0 ∧
        nextEngine.freeList.length + 1 = engine.freeList.length ∨
      (∃ miss, pc = .reallocate miss) ∧ engine.freeList = [] := by
  cases hstep with
  | @takeFree miss slot rest hfree =>
      refine .inr (.inl ⟨⟨miss, rfl⟩, miss.reclaims_filling slot, ?_⟩)
      rw [hfree]
      rfl
  | @freeVictim miss victim => exact .inl rfl
  | @retake miss slot rest hfree =>
      refine .inl ?_
      rw [miss.reclaims_filling, hfree]
      rfl
  | @exhausted miss hfree => exact .inr (.inr ⟨⟨miss, rfl⟩, hfree⟩)
  | _ => exact .inl rfl

theorem ClientStep.select_free {miss : Miss setup}
    (hstep : ClientStep choice engine pc (.select miss) nextEngine) :
    nextEngine.freeList = [] := by
  generalize hnext : Pc.select miss = next at hstep
  cases hstep with
  | @takeFree other slot rest hfree =>
      exact absurd hnext.symm (other.filling_ne_select miss slot)
  | @retake other slot rest hfree =>
      exact absurd hnext.symm (other.filling_ne_select miss slot)
  | poolEmpty hfree => exact hfree
  | _ => cases hnext

theorem ClientStep.served (hstep : ClientStep choice engine pc next nextEngine)
    (hio : choice.io.succeeds = true)
    (hfree : ∀ miss, pc = .reallocate miss → engine.freeList ≠ [])
    (hslots : ∀ miss, pc = .select miss → engine.table.slots ≠ []) :
    next.Served := by
  cases hstep with
  | @takeFree miss slot rest hfree => exact miss.served_filling slot
  | @retake miss slot rest hfree => exact miss.served_filling slot
  | @nothingToEvict miss hselect =>
      exact absurd (selectEvictionCandidate_eq_none_iff.mp hselect)
        (hslots miss rfl)
  | victimTorn hfail => exact absurd hfail (IoOutcome.ne_fail hio _ _)
  | @exhausted miss hempty => exact absurd hempty (hfree miss rfl)
  | fetchTorn hfail => exact absurd hfail (IoOutcome.ne_fail hio _ _)
  | _ => trivial

theorem FlusherStep.freeList_eq {flusherPc nextPc : FlusherPc setup}
    (hstep : FlusherStep choice engine flusherPc nextPc nextEngine) :
    nextEngine.freeList = engine.freeList := by
  cases hstep <;> rfl

end Step

namespace Machine

variable {machine next : Machine setup n} {action : Action setup n}
variable {leaks : Nat}

/-- Clients that wait for the slot they have freed. -/
def reclaiming (machine : Machine setup n) : Nat :=
  Shares.total Pc.reclaims machine.client

def busy (machine : Machine setup n) : Nat :=
  Shares.total Pc.busy machine.client

/-- A first `allocate` leaves the freed slots to those who freed them, and a
client that has to evict finds slots that no other client is busy with. -/
def SparesOthers (leaks : Nat) (machine : Machine setup n) :
    Action setup n → Prop
  | .client thread _ =>
      ((machine.client thread).allocates = true →
        machine.engine.freeList ≠ [] →
          machine.reclaiming < machine.engine.freeList.length) ∧
      ((machine.client thread).selects = true →
        machine.busy + leaks < setup.capacity)
  | _ => True

instance (leaks : Nat) (machine : Machine setup n) : (action : Action setup n) →
    Decidable (machine.SparesOthers leaks action)
  | .client _ _ => inferInstanceAs (Decidable ((_ → _ → _ < _) ∧ (_ → _ < _)))
  | .invoke _ _ | .respond _ | .flush _ | .start | .stop => isTrue trivial

structure Provisioned (machine : Machine setup n) : Prop where
  reserve : machine.reclaiming ≤ machine.engine.freeList.length
  selecting : ∀ thread miss, machine.client thread = .select miss →
    machine.engine.freeList.length ≤ machine.reclaiming
  served : ∀ thread, (machine.client thread).Served

theorem provisioned_init (setup : Setup) (n : Nat) (image : Image) :
    (init setup n image).Provisioned where
  reserve := by
    have hnone : (init setup n image).reclaiming = 0 :=
      Shares.total_eq_zero fun _ => rfl
    rw [hnone]
    exact Nat.zero_le _
  selecting := fun thread miss hselect => by cases hselect
  served := fun _ => trivial

theorem busy_eq (machine : Machine setup n) :
    machine.busy =
      (Shares.total Pc.hand machine.client).card + machine.reclaiming := by
  unfold busy reclaiming Shares.total Pc.busy
  rw [Finset.sum_add_distrib, Multiset.card_sum]

theorem Provisioned.retakes (hprovisioned : machine.Provisioned) (thread : Fin n)
    (miss : Miss setup) (hpc : machine.client thread = .reallocate miss) :
    machine.engine.freeList ≠ [] := by
  intro hfree
  have htotal := Shares.total_update Pc.reclaims machine.client thread .idle
  have hreserve := hprovisioned.reserve
  rw [hpc] at htotal
  rw [hfree] at hreserve
  simp only [Pc.reclaims, reclaiming, List.length_nil] at htotal hreserve
  omega

/-- A client about to evict finds an entry: all slots but those of busy
clients and the leaked ones are mapped. -/
theorem Provisioned.evicts (hprovisioned : machine.Provisioned)
    {slips : List Slip}
    (hledger : Balances (Multiset.range setup.capacity) slips machine.holdings)
    (hleaks : slips.countP Slip.isReplaced ≤ leaks) {thread : Fin n}
    {miss : Miss setup} (hpc : machine.client thread = .select miss)
    (hspares : machine.busy + leaks < setup.capacity) :
    machine.engine.table.slots ≠ [] := by
  intro hempty
  have hcard := hledger.card
  have hselecting := hprovisioned.selecting thread miss hpc
  have hbusy := machine.busy_eq
  have hentries : machine.engine.table.stats.totalEntries = 0 := by
    rw [← LbaTable.length_slots, hempty]
    rfl
  rw [holdings, Multiset.card_add, card_stock, Multiset.card_range,
    hentries] at hcard
  omega

theorem Provisioned.reserve_client (hprovisioned : machine.Provisioned)
    {thread : Fin n} {choice : Choice setup} {pc : Pc setup}
    {engine : CacheEngine setup}
    (hclient : ClientStep choice machine.engine (machine.client thread) pc engine)
    (hspares : machine.SparesOthers leaks (.client thread choice)) :
    (engine.freeList.length + machine.reclaiming =
        machine.engine.freeList.length +
          Shares.total Pc.reclaims (Function.update machine.client thread pc)) ∨
      machine.reclaiming < machine.engine.freeList.length ∧
        engine.freeList.length + 1 = machine.engine.freeList.length ∧
        Shares.total Pc.reclaims (Function.update machine.client thread pc) =
          machine.reclaiming := by
  have htotal := Shares.total_update Pc.reclaims machine.client thread pc
  rcases hclient.reserve with hmoves | ⟨⟨miss, hpc⟩, hnone, hfree⟩ |
    ⟨⟨miss, hpc⟩, hempty⟩
  · left
    unfold reclaiming
    omega
  · right
    have hspare : machine.engine.freeList ≠ [] →
        machine.reclaiming < machine.engine.freeList.length :=
      hspares.1 (by rw [hpc]; rfl)
    have hnonempty : machine.engine.freeList ≠ [] := by
      intro hempty
      rw [hempty] at hfree
      simp at hfree
    rw [hpc, hnone] at htotal
    exact ⟨hspare hnonempty, hfree, htotal⟩
  · exact absurd hempty (hprovisioned.retakes thread miss hpc)

theorem Provisioned.client (hprovisioned : machine.Provisioned)
    {slips : List Slip}
    (hledger : Balances (Multiset.range setup.capacity) slips machine.holdings)
    (hleaks : slips.countP Slip.isReplaced ≤ leaks) {thread : Fin n}
    {choice : Choice setup} {pc : Pc setup} {engine : CacheEngine setup}
    (hclient : ClientStep choice machine.engine (machine.client thread) pc engine)
    (hspares : machine.SparesOthers leaks (.client thread choice))
    (hio : choice.io.succeeds = true) :
    Provisioned { machine with
      engine := engine
      client := Function.update machine.client thread pc } := by
  have hreserve := hprovisioned.reserve
  have hmoves := hprovisioned.reserve_client hclient hspares
  refine ⟨?_, ?_, ?_⟩
  · simp only [reclaiming] at hmoves hreserve ⊢
    omega
  · intro other miss hselect
    by_cases heq : other = thread
    · subst heq
      simp only [Function.update_self] at hselect
      subst hselect
      simp only [hclient.select_free, List.length_nil]
      exact Nat.zero_le _
    · simp only [Function.update_of_ne heq] at hselect
      have hselecting := hprovisioned.selecting other miss hselect
      simp only [reclaiming] at hmoves hselecting ⊢
      omega
  · refine (Function.forall_update_iff _ fun _ (pc : Pc setup) => pc.Served).mpr
      ⟨?_, fun other _ => hprovisioned.served other⟩
    apply hclient.served hio (hprovisioned.retakes thread)
    intro miss hpc
    exact hprovisioned.evicts hledger hleaks hpc
      (hspares.2 (by rw [hpc]; rfl))

theorem Provisioned.update (hprovisioned : machine.Provisioned) {thread : Fin n}
    {pc : Pc setup} (hbefore : (machine.client thread).reclaims = 0)
    (hafter : pc.reclaims = 0) (hselect : ∀ miss, pc ≠ .select miss)
    (hserved : pc.Served) :
    Provisioned { machine with
      client := Function.update machine.client thread pc } := by
  have htotal := Shares.total_update Pc.reclaims machine.client thread pc
  rw [hbefore, hafter, add_zero, add_zero] at htotal
  refine ⟨?_, ?_, ?_⟩
  · simp only [reclaiming, htotal]
    exact hprovisioned.reserve
  · intro other miss hother
    by_cases heq : other = thread
    · subst heq
      simp only [Function.update_self] at hother
      exact absurd hother (hselect miss)
    · simp only [Function.update_of_ne heq] at hother
      simp only [reclaiming, htotal]
      exact hprovisioned.selecting other miss hother
  · exact (Function.forall_update_iff _ fun _ (pc : Pc setup) => pc.Served).mpr
      ⟨hserved, fun other _ => hprovisioned.served other⟩

theorem Provisioned.step (hprovisioned : machine.Provisioned)
    {slips : List Slip}
    (hledger : Balances (Multiset.range setup.capacity) slips machine.holdings)
    (hleaks : slips.countP Slip.isReplaced ≤ leaks)
    (hspares : machine.SparesOthers leaks action)
    (hio : action.faultless = true)
    (hstep : machine.step action = some next) : next.Provisioned := by
  cases step_cases hstep with
  | @invoke thread call howner hidle =>
      apply hprovisioned.update _ call.reclaims_enter call.enter_ne_select
        call.served_enter
      rw [hidle]
      rfl
  | client hclient => exact hprovisioned.client hledger hleaks hclient hspares hio
  | @respond thread outcome hdone =>
      exact hprovisioned.update (by rw [hdone]; rfl) rfl (by simp) trivial
  | flush hflush =>
      have hfree := hflush.freeList_eq
      refine ⟨?_, ?_, hprovisioned.served⟩
      · simp only [hfree]
        exact hprovisioned.reserve
      · simp only [hfree]
        exact hprovisioned.selecting
  | owner howner =>
      exact ⟨hprovisioned.reserve, hprovisioned.selecting, hprovisioned.served⟩

theorem provisioned_run {image : Image} {run : List (Action setup n)}
    (hfaultless : ∀ action ∈ run, action.faultless = true)
    (hspares : Run.Along (Run.logged step slips)
      (fun reached => reached.1.SparesOthers (reached.2.countP Slip.isReplaced))
      (init setup n image, []) run)
    (hrun : Run.exec step (init setup n image) run = some machine) :
    machine.Provisioned := by
  have hinvariant : Balances (Multiset.range setup.capacity)
        (Run.trace step slips (init setup n image) run) machine.holdings ∧
      machine.Provisioned := by
    apply Run.invariant_state
      (I := fun reached : Machine setup n × List Slip =>
        Balances (Multiset.range setup.capacity) reached.2 reached.1.holdings ∧
          reached.1.Provisioned)
      ⟨balances_of_eq (holdings_init setup n image), provisioned_init setup n image⟩
      ?_ (Run.along_and (Run.along_of_forall hfaultless) hspares)
      (Run.exec_logged hrun [])
    rintro ⟨state, past⟩ action ⟨after, later⟩ ⟨hledger, hprovisioned⟩
      ⟨hio, hspare⟩ hlogged
    obtain ⟨reached, hstep, heq⟩ := Option.map_eq_some_iff.mp hlogged
    cases heq
    exact ⟨hledger.trans (holdings_step hio hstep),
      hprovisioned.step hledger le_rfl hspare hio hstep⟩
  exact hinvariant.2

/-- No call ends for want of a slot, and whoever frees a slot gets one, when
freed slots are left to those who freed them and fewer clients are busy than
there are slots that have not been leaked so far. -/
theorem no_spurious_exhaustion {image : Image} (run : List (Action setup n))
    (hfaultless : ∀ action ∈ run, action.faultless = true)
    (hspares : Run.Along (Run.logged step slips)
      (fun reached => reached.1.SparesOthers (reached.2.countP Slip.isReplaced))
      (init setup n image, []) run)
    (hrun : Run.exec step (init setup n image) run = some machine) :
    (∀ thread error, machine.client thread = .done (.failed error) →
      (∀ inUse capacity, error ≠ .poolExhausted inUse capacity) ∧
        ∀ message, error ≠ .internal message) ∧
    ∀ thread miss, machine.client thread = .reallocate miss →
      machine.engine.freeList ≠ [] := by
  have hprovisioned := provisioned_run hfaultless hspares hrun
  refine ⟨?_, hprovisioned.retakes⟩
  intro thread error hfailed
  have hserved := hprovisioned.served thread
  rw [hfailed] at hserved
  constructor
  · intro inUse capacity heq
    subst heq
    exact hserved
  · intro message heq
    subst heq
    exact hserved

def politeMisses : List (Action (.mini 1) 2) :=
  List.flatten [
    [.invoke clientA (.read 0), .invoke clientB (.write 1 fun _ => 5)],
    advance clientA 5 1, advance clientB 5 2,
    [.respond clientA, .respond clientB, .invoke clientA (.read 2),
      .invoke clientB (.read 3)],
    advance clientA 4 3, advance clientB 2 4, advance clientA 5 5,
    advance clientB 7 6]

theorem politeMisses_served :
    ∃ machine, Run.exec step (init (.mini 1) 2 stripes) politeMisses =
        some machine ∧
      ∀ thread error, machine.client thread = .done (.failed error) →
        (∀ inUse capacity, error ≠ .poolExhausted inUse capacity) ∧
          ∀ message, error ≠ .internal message := by
  have hruns : (Run.exec step (init (.mini 1) 2 stripes)
      politeMisses).isSome = true := by
    decide +kernel
  obtain ⟨machine, hrun⟩ := Option.isSome_iff_exists.mp hruns
  exact ⟨machine, hrun, (no_spurious_exhaustion politeMisses (by decide +kernel)
    (by decide +kernel) hrun).1⟩

/-- The slot that one client frees for itself is taken by the other before it
comes back. -/
def stolenSlot : List (Action (.mini 0) 2) :=
  List.flatten [
    [.invoke clientA (.read 0)], advance clientA 5 1,
    [.respond clientA, .invoke clientA (.read 1)], advance clientA 5 2,
    [.invoke clientB (.read 2)], advance clientB 2 3, advance clientA 1 4]

theorem stolenSlot_exhausts :
    ¬∀ (setup : Setup) (n : Nat) (image : Image) (run : List (Action setup n))
      (machine : Machine setup n), setup.readOnly = false →
      1 ≤ setup.capacity → (∀ action ∈ run, action.faultless = true) →
      Run.exec step (init setup n image) run = some machine →
      ∀ thread error, machine.client thread = .done (.failed error) →
        (∀ inUse capacity, error ≠ .poolExhausted inUse capacity) ∧
          ∀ message, error ≠ .internal message := by
  intro hserves
  have hfails : (Run.exec step (init (.mini 0) 2 stripes) stolenSlot).map
      (fun machine => (machine.client clientA).failure) =
      some (some (.poolExhausted 1 1)) := by
    decide +kernel
  obtain ⟨machine, hrun, hfailed⟩ := Option.map_eq_some_iff.mp hfails
  exact (hserves (.mini 0) 2 stripes stolenSlot machine rfl le_rfl
    (by decide +kernel) hrun clientA _ (Pc.failure_eq_some_iff.mp hfailed)).1 1 1
    rfl

end Machine

end AsmCacheInject.Concurrent

import AsmCacheInject.Concurrent.Alone

namespace AsmCacheInject.Concurrent

open AsmCacheInject.Cache
open AsmCacheInject.Data
open AsmCacheInject.Engine
open AsmCacheInject.Flush

variable {setup : Setup} {n : Nat}

/-! Where data comes from.  Lookups and snapshots hand out pairs of an LBA and
a slot, and the pool block at the slot is accessed later, without the table
lock.  As long as every such pair is still in the table when it is used, a
block never travels to another LBA. -/

/-- The pair a client step accesses the pool block of. -/
def Pc.accesses : Pc setup → Option (Lba setup × Nat)
  | .readHit lba slot => some (lba, slot)
  | .copyRead lba slot => some (lba, slot)
  | .writeHit lba _ slot => some (lba, slot)
  | .flushVictim _ victim => some (victim.lba, victim.poolIndex)
  | _ => none

def FlusherPc.accesses : FlusherPc setup → Option (Lba setup × Nat)
  | .writing _ lba slot _ _ => some (lba, slot)
  | _ => none

def Pc.readReturned : Pc setup → Option (Lba setup × ReadResult setup)
  | .done (.readOk lba result) => some (lba, result)
  | _ => none

theorem Pc.eq_done_of_readReturned {pc : Pc setup} {lba : Lba setup}
    {result : ReadResult setup} (hread : pc.readReturned = some (lba, result)) :
    pc = .done (.readOk lba result) := by
  cases pc with
  | done outcome =>
      cases outcome with
      | readOk target data =>
          cases hread
          rfl
      | _ => cases hread
  | _ => cases hread

section Traced

variable (belongs : Lba setup → Block setup → Prop)

structure EngineTraced (engine : CacheEngine setup) : Prop where
  cached : ∀ lba slot, engine.table.slotOf lba = some slot →
    belongs lba (engine.blocks slot)
  device : ∀ lba, belongs lba (readLba engine.device lba)

def Miss.Traced : Miss setup → Prop
  | .read _ => True
  | .write lba buf => belongs lba buf

/-- Every block a client carries or has in hand belongs to its LBA. -/
def Pc.Traced (blocks : Nat → Block setup) : Pc setup → Prop
  | .allocate miss => miss.Traced belongs
  | .select miss => miss.Traced belongs
  | .flushVictim miss _ => miss.Traced belongs
  | .wakeForVictim miss _ => miss.Traced belongs
  | .removeVictim miss _ => miss.Traced belongs
  | .freeVictim miss _ => miss.Traced belongs
  | .reallocate miss => miss.Traced belongs
  | .insertRead lba slot => belongs lba (blocks slot)
  | .writeLookup lba buf => belongs lba buf
  | .writeHit lba buf _ => belongs lba buf
  | .fill lba buf _ => belongs lba buf
  | .insertWrite lba _ slot => belongs lba (blocks slot)
  | .done (.readOk lba result) => belongs lba result.data
  | _ => True

variable {belongs}

theorem Miss.traced_filling {blocks : Nat → Block setup} {miss : Miss setup}
    (htraced : miss.Traced belongs) (slot : Nat) :
    (miss.filling slot).Traced belongs blocks := by
  cases miss with
  | read lba => trivial
  | write lba buf => exact htraced

theorem Pc.Traced.congr {blocks other : Nat → Block setup} {pc : Pc setup}
    (htraced : pc.Traced belongs blocks)
    (hheld : ∀ slot, pc.held = some slot → other slot = blocks slot) :
    pc.Traced belongs other := by
  cases pc with
  | insertRead lba slot =>
      simp only [Pc.Traced, hheld slot rfl]
      exact htraced
  | insertWrite lba buf slot =>
      simp only [Pc.Traced, hheld slot rfl]
      exact htraced
  | done outcome => cases outcome <;> exact htraced
  | _ => exact htraced

variable {wider : Lba setup → Block setup → Prop}

theorem EngineTraced.mono {engine : CacheEngine setup}
    (htraced : EngineTraced belongs engine)
    (hwider : ∀ lba block, belongs lba block → wider lba block) :
    EngineTraced wider engine where
  cached := fun lba slot hslot => hwider lba _ (htraced.cached lba slot hslot)
  device := fun lba => hwider lba _ (htraced.device lba)

theorem Miss.Traced.mono {miss : Miss setup} (htraced : miss.Traced belongs)
    (hwider : ∀ lba block, belongs lba block → wider lba block) :
    miss.Traced wider := by
  cases miss with
  | read lba => trivial
  | write lba buf => exact hwider lba buf htraced

theorem Pc.Traced.mono {blocks : Nat → Block setup} {pc : Pc setup}
    (htraced : pc.Traced belongs blocks)
    (hwider : ∀ lba block, belongs lba block → wider lba block) :
    pc.Traced wider blocks := by
  cases pc with
  | allocate miss => exact Miss.Traced.mono htraced hwider
  | select miss => exact Miss.Traced.mono htraced hwider
  | flushVictim miss victim => exact Miss.Traced.mono htraced hwider
  | wakeForVictim miss victim => exact Miss.Traced.mono htraced hwider
  | removeVictim miss victim => exact Miss.Traced.mono htraced hwider
  | freeVictim miss victim => exact Miss.Traced.mono htraced hwider
  | reallocate miss => exact Miss.Traced.mono htraced hwider
  | insertRead lba slot => exact hwider lba _ htraced
  | writeLookup lba buf => exact hwider lba _ htraced
  | writeHit lba buf slot => exact hwider lba _ htraced
  | fill lba buf slot => exact hwider lba _ htraced
  | insertWrite lba buf slot => exact hwider lba _ htraced
  | done outcome =>
      cases outcome with
      | readOk lba result => exact hwider lba _ htraced
      | writeOk lba buf result => trivial
      | failed error => trivial
  | _ => trivial

end Traced

section Step

variable {belongs : Lba setup → Block setup → Prop}
variable {choice : Choice setup} {engine nextEngine : CacheEngine setup}
variable {pc next : Pc setup}

theorem EngineTraced.write_device (htraced : EngineTraced belongs engine)
    {lba : Lba setup} {block : Block setup} (hblock : belongs lba block) :
    EngineTraced belongs
      { engine with device := writeLba engine.device lba block } := by
  refine ⟨htraced.cached, ?_⟩
  intro other
  simp only [readLba_writeLba]
  split
  · next heq =>
    subst heq
    exact hblock
  · exact htraced.device other

theorem EngineTraced.fill_unmapped (htraced : EngineTraced belongs engine)
    {slot : Nat} (hunmapped : ∀ lba, engine.table.slotOf lba ≠ some slot)
    (block : Block setup) :
    EngineTraced belongs (engine.fill slot block) := by
  refine ⟨?_, htraced.device⟩
  intro lba mapped hmapped
  rw [CacheEngine.fill_blocks_of_ne]
  · exact htraced.cached lba mapped hmapped
  · intro heq
    subst heq
    exact hunmapped lba hmapped

theorem EngineTraced.insert (htraced : EngineTraced belongs engine)
    {lba : Lba setup} {entry : CacheEntry (Lba setup)}
    (hblock : belongs lba (engine.blocks entry.poolIndex)) :
    EngineTraced belongs
      { engine with table := (engine.table.insert lba entry).2 } := by
  refine ⟨?_, htraced.device⟩
  intro other slot hslot
  simp only [LbaTable.slotOf_insert] at hslot
  split at hslot
  · next heq =>
    subst heq
    cases hslot
    exact hblock
  · exact htraced.cached other slot hslot

theorem EngineTraced.fill_mapped (htraced : EngineTraced belongs engine)
    {lba : Lba setup} {slot : Nat} {block : Block setup}
    (hunique : ∀ other, engine.table.slotOf other = some slot → other = lba)
    (hblock : belongs lba block) : EngineTraced belongs (engine.fill slot block) := by
  refine ⟨?_, htraced.device⟩
  intro other mapped hmapped
  by_cases heq : mapped = slot
  · subst heq
    rw [CacheEngine.fill_blocks_self, hunique other hmapped]
    exact hblock
  · rw [CacheEngine.fill_blocks_of_ne heq]
    exact htraced.cached other mapped hmapped

theorem EngineTraced.remove (htraced : EngineTraced belongs engine)
    (lba : Lba setup) :
    EngineTraced belongs { engine with table := (engine.table.remove lba).2 } := by
  refine ⟨?_, htraced.device⟩
  intro other slot hslot
  simp only [LbaTable.slotOf_remove] at hslot
  split at hslot
  · cases hslot
  · exact htraced.cached other slot hslot

theorem EngineTraced.same_slots {table : LbaTable (Lba setup)}
    (htraced : EngineTraced belongs engine)
    (hslots : table.slotOf = engine.table.slotOf) :
    EngineTraced belongs { engine with table := table } := by
  refine ⟨?_, htraced.device⟩
  simp only [hslots]
  exact htraced.cached

variable {held : Fin n → Option Nat} {thread : Fin n}

theorem ClientStep.traced (hstep : ClientStep choice engine pc next nextEngine)
    (howned : Exclusive engine.freeList engine.table.slotOf held)
    (hheld : held thread = pc.held)
    (hpairs : ∀ pair ∈ pc.accesses, PairCurrent engine pair)
    (hio : choice.io.succeeds = true)
    (hengine : EngineTraced belongs engine)
    (hpc : pc.Traced belongs engine.blocks) :
    EngineTraced belongs nextEngine ∧ next.Traced belongs nextEngine.blocks := by
  have hunmapped : ∀ slot, pc.held = some slot →
      ∀ lba, engine.table.slotOf lba ≠ some slot :=
    fun slot hslot => howned.held_unmapped thread slot (hheld.trans hslot)
  cases hstep with
  | lookupHit hslot =>
      exact ⟨hengine.same_slots (LbaTable.slotOf_getAndTouch _ _ _), trivial⟩
  | lookupMiss habsent => exact ⟨hengine, trivial⟩
  | readHit => exact ⟨hengine, hengine.cached _ _ (hpairs _ rfl)⟩
  | takeFree hfree =>
      exact ⟨⟨hengine.cached, hengine.device⟩, Miss.traced_filling hpc _⟩
  | poolEmpty hfree => exact ⟨hengine, hpc⟩
  | nothingToEvict hselect => exact ⟨hengine, trivial⟩
  | chooseDirty hselect hflush => exact ⟨hengine, hpc⟩
  | chooseClean hselect hflush => exact ⟨hengine, hpc⟩
  | victimWritten hok =>
      exact ⟨hengine.write_device (hengine.cached _ _ (hpairs _ rfl)), hpc⟩
  | victimTorn hfail => exact absurd hfail (IoOutcome.ne_fail hio _ _)
  | wakeForVictim => exact ⟨⟨hengine.cached, hengine.device⟩, hpc⟩
  | removeVictim => exact ⟨hengine.remove _, hpc⟩
  | freeVictim => exact ⟨⟨hengine.cached, hengine.device⟩, hpc⟩
  | retake hfree =>
      exact ⟨⟨hengine.cached, hengine.device⟩, Miss.traced_filling hpc _⟩
  | exhausted hfree => exact ⟨hengine, trivial⟩
  | @fetched lba slot hok =>
      refine ⟨hengine.fill_unmapped (hunmapped slot rfl) _, ?_⟩
      simp only [Pc.Traced, CacheEngine.fill_blocks_self]
      exact hengine.device lba
  | fetchTorn hfail => exact absurd hfail (IoOutcome.ne_fail hio _ _)
  | insertRead => exact ⟨hengine.insert hpc, trivial⟩
  | copyRead => exact ⟨hengine, hengine.cached _ _ (hpairs _ rfl)⟩
  | writeLookupHit hslot => exact ⟨hengine, hpc⟩
  | writeLookupMiss habsent => exact ⟨hengine, hpc⟩
  | @writeHit lba buf slot =>
      have hcurrent : engine.table.slotOf lba = some slot := hpairs _ rfl
      refine ⟨hengine.fill_mapped ?_ hpc, trivial⟩
      intro other hother
      exact howned.mapped_unique other lba slot hother hcurrent
  | markDirty =>
      exact ⟨hengine.same_slots (LbaTable.slotOf_markDirty _ _ _), trivial⟩
  | @fill lba buf slot =>
      refine ⟨hengine.fill_unmapped (hunmapped slot rfl) _, ?_⟩
      simp only [Pc.Traced, CacheEngine.fill_blocks_self]
      exact hpc
  | insertWrite => exact ⟨hengine.insert hpc, trivial⟩
  | statsAbove => exact ⟨hengine, trivial⟩
  | statsBelow => exact ⟨hengine, trivial⟩
  | wakeForWrite => exact ⟨⟨hengine.cached, hengine.device⟩, trivial⟩

theorem FlusherStep.traced {flusherPc nextPc : FlusherPc setup}
    (hstep : FlusherStep choice engine flusherPc nextPc nextEngine)
    (hpairs : ∀ pair ∈ flusherPc.accesses, PairCurrent engine pair)
    (hio : choice.io.succeeds = true)
    (hengine : EngineTraced belongs engine) : EngineTraced belongs nextEngine := by
  cases hstep with
  | received hchannel => exact ⟨hengine.cached, hengine.device⟩
  | written hok => exact hengine.write_device (hengine.cached _ _ (hpairs _ rfl))
  | torn hfail => exact absurd hfail (IoOutcome.ne_fail hio _ _)
  | cleaned => exact hengine.same_slots (LbaTable.slotOf_markClean _ _)
  | _ => exact hengine

end Step

namespace Machine

/-- Every pair is still in the table when its block is accessed and when it is
evicted. -/
def UsesCurrentPairs (machine : Machine setup n) : Action setup n → Prop
  | .client thread choice =>
      (∀ pair ∈ (machine.client thread).accesses,
        PairCurrent machine.engine pair) ∧
      machine.EvictsOwnSlot (.client thread choice)
  | .flush _ =>
      ∀ pair ∈ machine.flusher.accesses, PairCurrent machine.engine pair
  | _ => True

instance (machine : Machine setup n) : (action : Action setup n) →
    Decidable (machine.UsesCurrentPairs action)
  | .client _ _ => inferInstanceAs (Decidable ((∀ pair ∈ Pc.accesses _, _) ∧ _))
  | .flush _ => inferInstanceAs (Decidable (∀ pair ∈ FlusherPc.accesses _, _))
  | .invoke _ _ | .respond _ | .start | .stop => isTrue trivial

theorem UsesCurrentPairs.evictsOwnSlot {machine : Machine setup n}
    {action : Action setup n} (hpairs : machine.UsesCurrentPairs action) :
    machine.EvictsOwnSlot action := by
  cases action with
  | client thread choice => exact hpairs.2
  | _ => trivial

structure Traced (belongs : Lba setup → Block setup → Prop)
    (machine : Machine setup n) : Prop where
  engine : EngineTraced belongs machine.engine
  client : ∀ thread,
    (machine.client thread).Traced belongs machine.engine.blocks

variable {machine next : Machine setup n} {action : Action setup n}
variable {belongs : Lba setup → Block setup → Prop}

theorem Traced.set_client (htraced : machine.Traced belongs) {thread : Fin n}
    {pc : Pc setup} (hpc : pc.Traced belongs machine.engine.blocks) :
    Traced belongs
      { machine with client := Function.update machine.client thread pc } := by
  refine ⟨htraced.engine, (Function.forall_update_iff _
    fun _ (pc : Pc setup) => pc.Traced belongs _).mpr ?_⟩
  exact ⟨hpc, fun other _ => htraced.client other⟩

theorem Traced.step (htraced : machine.Traced belongs) (howned : machine.Owned)
    (hinvoke : ∀ thread lba buf,
      action = .invoke thread (.write (Fin.val lba) buf) → belongs lba buf)
    (hpairs : machine.UsesCurrentPairs action) (hio : action.faultless = true)
    (hstep : machine.step action = some next) : next.Traced belongs := by
  cases step_cases hstep with
  | @invoke thread call howner hidle =>
      apply htraced.set_client
      rcases call.enter_cases with
        ⟨error, henter⟩ | ⟨lba, _, henter⟩ | ⟨lba, buf, hcall, henter⟩
      · rw [henter]
        trivial
      · rw [henter]
        trivial
      · rw [henter]
        exact hinvoke thread lba buf (by rw [hcall])
  | @client thread choice pc engine hclient =>
      obtain ⟨haccess, -⟩ := hpairs
      obtain ⟨hengine, hpc⟩ := hclient.traced howned rfl haccess hio
        htraced.engine (htraced.client thread)
      refine ⟨hengine, (Function.forall_update_iff _
        fun _ (pc : Pc setup) => pc.Traced belongs _).mpr ?_⟩
      refine ⟨hpc, fun other hother => ?_⟩
      apply (htraced.client other).congr
      intro slot hheld
      apply howned.blocks_held_elsewhere hclient ?_ hother hheld
      intro lba buf hit hwrite
      apply haccess (lba, hit)
      rw [hwrite]
      rfl
  | respond hdone =>
      apply htraced.set_client
      trivial
  | flush hflush =>
      refine ⟨hflush.traced hpairs hio htraced.engine, ?_⟩
      simp only [hflush.blocks_eq]
      exact htraced.client
  | owner howner =>
      exact ⟨⟨htraced.engine.cached, htraced.engine.device⟩, htraced.client⟩

theorem Traced.mono {wider : Lba setup → Block setup → Prop}
    (htraced : machine.Traced belongs)
    (hwider : ∀ lba block, belongs lba block → wider lba block) :
    machine.Traced wider where
  engine := htraced.engine.mono hwider
  client := fun thread => (htraced.client thread).mono hwider

/-- The block was on the device at the beginning, or a client asked for it to
be written to the LBA. -/
def Belongs (image : Image) (past : List (Action setup n)) (lba : Lba setup)
    (block : Block setup) : Prop :=
  block = readLba image lba ∨
    ∃ thread, .invoke thread (.write lba.val block) ∈ past

theorem traced_init (setup : Setup) (n : Nat) (image : Image) :
    (init setup n image).Traced (Belongs image ([] : List (Action setup n))) where
  engine := {
    cached := by simp [init, CacheEngine.boot]
    device := fun _ => .inl rfl }
  client := fun _ => trivial

theorem Traced.extend {image : Image} {past : List (Action setup n)}
    (htraced : machine.Traced (Belongs image past)) (howned : machine.Owned)
    (hpairs : machine.UsesCurrentPairs action) (hio : action.faultless = true)
    (hstep : machine.step action = some next) :
    next.Traced (Belongs image (past ++ [action])) := by
  have hwider : ∀ lba block, Belongs image past lba block →
      Belongs image (past ++ [action]) lba block := by
    intro lba block hbelongs
    rcases hbelongs with himage | ⟨thread, hpast⟩
    · exact .inl himage
    · exact .inr ⟨thread, List.mem_append_left _ hpast⟩
  apply (htraced.mono hwider).step howned ?_ hpairs hio hstep
  intro thread lba buf haction
  exact .inr ⟨thread, by simp [haction]⟩

/-! Reads. -/

/-- Whatever the interleaving of any number of clients, a read of `lba`
returns a block of `lba`. -/
theorem read_isolated {image : Image} {run : List (Action setup n)}
    {thread : Fin n} {lba : Lba setup} {result : ReadResult setup}
    (hfaultless : ∀ action ∈ run, action.faultless = true)
    (hguard : Run.Along step UsesCurrentPairs (init setup n image) run)
    (hrun : Run.exec step (init setup n image) run = some machine)
    (hdone : machine.client thread = .done (.readOk lba result)) :
    Belongs image run lba result.data := by
  have htraced : machine.Owned ∧ machine.Traced (Belongs image run) := by
    apply Run.invariant
      (I := fun past machine => Owned machine ∧ Traced (Belongs image past) machine)
      ⟨owned_init setup n image, traced_init setup n image⟩ ?_
      (Run.along_and (Run.along_of_forall hfaultless) hguard) hrun
    intro past state action next hinv hallowed hstep
    obtain ⟨howned, htraced⟩ := hinv
    obtain ⟨hio, hpairs⟩ := hallowed
    exact ⟨howned.step hpairs.evictsOwnSlot hstep,
      htraced.extend howned hpairs hio hstep⟩
  have hclient := htraced.2.client thread
  rw [hdone] at hclient
  exact hclient

def readAfterEviction : List (Action (.mini 0) 2) :=
  List.flatten [
    [.invoke clientA (.read 0)], advance clientA 5 1,
    [.invoke clientB (.read 1)], advance clientB 9 2]

theorem read_isolated_after_eviction :
    ∃ machine result,
      Run.exec step (init (.mini 0) 2 stripes) readAfterEviction = some machine ∧
      machine.client 1 = .done (.readOk 1 result) ∧
      Belongs stripes readAfterEviction 1 result.data := by
  have hreads : ((Run.exec step (init (.mini 0) 2 stripes) readAfterEviction).map
      fun machine => (machine.client 1).readReturned.map Prod.fst) =
      some (some 1) := by
    decide +kernel
  obtain ⟨machine, hrun, hread⟩ := Option.map_eq_some_iff.mp hreads
  obtain ⟨⟨lba, result⟩, hread, hlba⟩ := Option.map_eq_some_iff.mp hread
  obtain rfl : lba = 1 := hlba
  have hdone := Pc.eq_done_of_readReturned hread
  exact ⟨machine, result, hrun, hdone,
    read_isolated (by decide +kernel) (by decide +kernel) hrun hdone⟩

/-- Between the lookup and the copy of a read hit on block 0, the other client
evicts block 0 and fetches block 1 into its slot. -/
def readOvertaken : List (Action (.mini 0) 2) :=
  List.flatten [
    [.invoke clientA (.read 0)], advance clientA 5 1, [.respond clientA],
    [.invoke clientA (.read 0)], advance clientA 1 2,
    [.invoke clientB (.read 1)], advance clientB 7 3, advance clientA 1 4]

theorem readOvertaken_returns_other_block :
    ¬∀ (setup : Setup) (image : Image) (run : List (Action setup 2))
      (machine : Machine setup 2) (thread : Fin 2) (lba : Lba setup)
      (result : ReadResult setup),
      (∀ action ∈ run, action.faultless = true) → .start ∉ run →
      Run.exec step (init setup 2 image) run = some machine →
      machine.client thread = .done (.readOk lba result) →
      Belongs image run lba result.data := by
  intro hisolated
  have hreads : ((Run.exec step (init (.mini 0) 2 stripes) readOvertaken).map
      fun machine => (machine.client 0).readReturned.map fun read =>
        (read.1, read.2.data 0)) = some (some (0, 1)) := by
    decide +kernel
  obtain ⟨machine, hrun, hread⟩ := Option.map_eq_some_iff.mp hreads
  obtain ⟨⟨lba, result⟩, hread, hpair⟩ := Option.map_eq_some_iff.mp hread
  obtain ⟨rfl, hbyte⟩ : lba = 0 ∧ result.data 0 = 1 := Prod.mk.inj hpair
  rcases hisolated (.mini 0) stripes readOvertaken machine 0 0 result
      (by decide +kernel) (by simp [readOvertaken, advance]) hrun
      (Pc.eq_done_of_readReturned hread) with himage | ⟨thread, hwrite⟩
  · rw [himage] at hbyte
    exact absurd hbyte (by decide +kernel)
  · simp [readOvertaken, advance] at hwrite

/-! Write-backs of the flush thread. -/

/-- The pwrite the flush thread issues next: an LBA and the bytes for it. -/
def flusherPwrite (machine : Machine setup n) : Option (Lba setup × Block setup) :=
  machine.flusher.accesses.map fun pair =>
    (pair.1, machine.engine.blocks pair.2)

/-- The bytes were on the device for the LBA at some earlier point of the run,
or a client asked for them to be written there. -/
def OwnData (image : Image) (past : List (Action setup n)) (lba : Lba setup)
    (block : Block setup) : Prop :=
  (∃ earlier later middle, past = earlier ++ later ∧
      Run.exec step (init setup n image) earlier = some middle ∧
      block = readLba middle.engine.device lba) ∨
    ∃ thread, .invoke thread (.write lba.val block) ∈ past

theorem Belongs.ownData {image : Image} {past : List (Action setup n)}
    {lba : Lba setup} {block : Block setup}
    (hbelongs : Belongs image past lba block) : OwnData image past lba block := by
  rcases hbelongs with himage | hwrite
  · exact .inl ⟨[], past, init setup n image, rfl, rfl, himage⟩
  · exact .inr hwrite

/-- The flush thread writes a block back only while the pair from its snapshot
is still in the table. -/
def FlushesCurrentPair (machine : Machine setup n) : Action setup n → Prop
  | .flush _ =>
      ∀ pair ∈ machine.flusher.accesses, PairCurrent machine.engine pair
  | _ => True

instance (machine : Machine setup n) : (action : Action setup n) →
    Decidable (machine.FlushesCurrentPair action)
  | .flush _ => inferInstanceAs (Decidable (∀ pair ∈ FlusherPc.accesses _, _))
  | .invoke _ _ | .client _ _ | .respond _ | .start | .stop => isTrue trivial

theorem Alone.usesCurrentPairs {machine : Machine setup 1} {action : Action setup 1}
    (halone : machine.Alone) (hflush : machine.FlushesCurrentPair action) :
    machine.UsesCurrentPairs action := by
  cases action with
  | client thread choice =>
      refine ⟨?_, halone.evictsOwnSlot _⟩
      obtain rfl : thread = 0 := Subsingleton.elim thread 0
      intro pair haccess
      have hcurrent := halone.current
      cases hpc : machine.client 0 with
      | readHit lba slot =>
          rw [hpc] at haccess hcurrent
          cases haccess
          exact hcurrent
      | copyRead lba slot =>
          rw [hpc] at haccess hcurrent
          cases haccess
          exact hcurrent
      | writeHit lba buf slot =>
          rw [hpc] at haccess hcurrent
          cases haccess
          exact hcurrent
      | flushVictim miss victim =>
          rw [hpc] at haccess hcurrent
          cases haccess
          exact hcurrent.2
      | _ =>
          rw [hpc] at haccess
          cases haccess
  | flush choice => exact hflush
  | _ => trivial

theorem flusher_writes_own_data {image : Image} {past : List (Action setup 1)}
    {machine : Machine setup 1} {choice : Choice setup} {lba : Lba setup}
    {block : Block setup}
    (hfaultless : ∀ action ∈ past, action.faultless = true)
    (hguard : Run.Along step FlushesCurrentPair (init setup 1 image)
      (past ++ [.flush choice]))
    (hrun : Run.exec step (init setup 1 image) past = some machine)
    (hpwrite : machine.flusherPwrite = some (lba, block)) :
    OwnData image past lba block := by
  obtain ⟨hguardPast, hguardLast⟩ := (Run.along_append hrun).mp hguard
  have hinv : machine.Alone ∧ machine.Traced (Belongs image past) := by
    apply Run.invariant
      (I := fun past machine => Alone machine ∧ Traced (Belongs image past) machine)
      ⟨alone_init setup image, traced_init setup 1 image⟩ ?_
      (Run.along_and (Run.along_of_forall hfaultless) hguardPast) hrun
    intro past state action next hinv hallowed hstep
    obtain ⟨halone, htraced⟩ := hinv
    obtain ⟨hio, hflush⟩ := hallowed
    exact ⟨halone.step hstep, htraced.extend halone.owned
      (halone.usesCurrentPairs hflush) hio hstep⟩
  obtain ⟨⟨target, slot⟩, haccess, hpair⟩ := Option.map_eq_some_iff.mp hpwrite
  cases hpair
  exact (hinv.2.engine.cached target slot (hguardLast.1 _ haccess)).ownData

def flushAfterWrite : List (Action (.mini 0) 1) :=
  List.flatten [
    [.start, .invoke lone (.write 0 fun _ => 5)], advance lone 6 1,
    [.respond lone, .flush (.calm 2), .flush (.calm 2)]]

theorem flushAfterWrite_writes_own_data :
    ∃ machine block,
      Run.exec step (init (.mini 0) 1 stripes) flushAfterWrite = some machine ∧
      machine.flusherPwrite = some (0, block) ∧
      OwnData stripes flushAfterWrite 0 block := by
  have hwrites : ((Run.exec step (init (.mini 0) 1 stripes) flushAfterWrite).map
      fun machine => machine.flusherPwrite.map Prod.fst) = some (some 0) := by
    decide +kernel
  obtain ⟨machine, hrun, hfst⟩ := Option.map_eq_some_iff.mp hwrites
  obtain ⟨⟨_, block⟩, hpwrite, rfl⟩ := Option.map_eq_some_iff.mp hfst
  have hguard : Run.Along step FlushesCurrentPair (init (.mini 0) 1 stripes)
      (flushAfterWrite ++ [.flush (.calm 2)]) := by
    decide +kernel
  exact ⟨machine, block, hrun, hpwrite,
    flusher_writes_own_data (by decide +kernel) hguard hrun hpwrite⟩

/-- After the snapshot the client evicts block 0 and fetches block 1 into the
slot that the snapshot still pairs with block 0. -/
def staleFlush : List (Action (.mini 0) 1) :=
  List.flatten [flushAfterWrite, [.invoke lone (.read 1)], advance lone 9 3]

theorem staleFlush_writes_other_block :
    ¬∀ (setup : Setup) (image : Image) (past : List (Action setup 1))
      (machine : Machine setup 1) (lba : Lba setup) (block : Block setup),
      (∀ action ∈ past, action.faultless = true) →
      Run.exec step (init setup 1 image) past = some machine →
      machine.flusherPwrite = some (lba, block) →
      OwnData image past lba block := by
  intro hown
  have hwrites : ((Run.exec step (init (.mini 0) 1 stripes) staleFlush).map
      fun machine => machine.flusherPwrite.map fun pwrite =>
        (pwrite.1, pwrite.2 0)) = some (some (0, 1)) := by
    decide +kernel
  have hdevice : ∀ count < staleFlush.length + 1,
      ((Run.exec step (init (.mini 0) 1 stripes) (staleFlush.take count)).map
        fun machine => readLba machine.engine.device (0 : Lba (.mini 0)) 0) ≠
        some 1 := by
    decide +kernel
  obtain ⟨machine, hrun, hpwrite⟩ := Option.map_eq_some_iff.mp hwrites
  obtain ⟨⟨lba, block⟩, hpwrite, hpair⟩ := Option.map_eq_some_iff.mp hpwrite
  obtain ⟨rfl, hbyte⟩ : lba = 0 ∧ block 0 = 1 := Prod.mk.inj hpair
  rcases hown (.mini 0) stripes staleFlush machine 0 block (by decide +kernel)
      hrun hpwrite with ⟨earlier, later, middle, hsplit, hearlier, hblock⟩ |
      ⟨thread, hwrite⟩
  · apply hdevice earlier.length
    · rw [hsplit, List.length_append]
      omega
    · rw [hsplit, List.take_left, hearlier, Option.map_some, ← hblock, hbyte]
  · simp [staleFlush, flushAfterWrite, advance] at hwrite
    rw [hwrite.2] at hbyte
    exact absurd hbyte (by decide)

end Machine

end AsmCacheInject.Concurrent

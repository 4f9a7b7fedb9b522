import AsmCacheInject.Concurrent.Ownership

namespace AsmCacheInject.Concurrent

open AsmCacheInject.Cache
open AsmCacheInject.Data
open AsmCacheInject.Engine
open AsmCacheInject.Flush

variable {setup : Setup}

/-! One client beside the flush thread.  The flush thread never maps or unmaps
an LBA, so whatever the client once saw in the table is still there when it
comes back to it. -/

def Miss.lba : Miss setup → Lba setup
  | .read lba => lba
  | .write lba _ => lba

def Pc.Current (mapped : Lba setup → Option Nat) : Pc setup → Prop
  | .readHit lba slot => mapped lba = some slot
  | .allocate miss => mapped miss.lba = none
  | .select miss => mapped miss.lba = none
  | .flushVictim miss victim =>
      mapped miss.lba = none ∧ mapped victim.lba = some victim.poolIndex
  | .wakeForVictim miss victim =>
      mapped miss.lba = none ∧ mapped victim.lba = some victim.poolIndex
  | .removeVictim miss victim =>
      mapped miss.lba = none ∧ mapped victim.lba = some victim.poolIndex
  | .freeVictim miss _ => mapped miss.lba = none
  | .reallocate miss => mapped miss.lba = none
  | .fetch lba _ => mapped lba = none
  | .insertRead lba _ => mapped lba = none
  | .copyRead lba slot => mapped lba = some slot
  | .writeHit lba _ slot => mapped lba = some slot
  | .fill lba _ _ => mapped lba = none
  | .insertWrite lba _ _ => mapped lba = none
  | _ => True

theorem Miss.current_filling {mapped : Lba setup → Option Nat} {miss : Miss setup}
    (habsent : mapped miss.lba = none) (slot : Nat) :
    (miss.filling slot).Current mapped := by
  cases miss with
  | read lba => exact habsent
  | write lba buf => exact habsent

theorem Call.current_enter (call : Call setup)
    (mapped : Lba setup → Option Nat) : call.enter.Current mapped :=
  call.enter_induction (fun _ => trivial) (fun _ => trivial) fun _ _ => trivial

section Step

variable {choice : Choice setup} {engine nextEngine : CacheEngine setup}
variable {pc next : Pc setup}

theorem ClientStep.selfKeyed (hstep : ClientStep choice engine pc next nextEngine)
    (hkeyed : engine.table.SelfKeyed) : nextEngine.table.SelfKeyed := by
  cases hstep with
  | lookupHit hslot => exact hkeyed.getAndTouch _ _
  | removeVictim => exact hkeyed.remove _
  | insertRead => exact hkeyed.insert rfl
  | markDirty => exact hkeyed.markDirty _ _
  | insertWrite => exact hkeyed.insert rfl
  | _ => exact hkeyed

theorem ClientStep.current (hstep : ClientStep choice engine pc next nextEngine)
    (hkeyed : engine.table.SelfKeyed) (hcurrent : pc.Current engine.table.slotOf) :
    next.Current nextEngine.table.slotOf := by
  cases hstep with
  | lookupHit hslot =>
      simp only [Pc.Current, LbaTable.slotOf_getAndTouch]
      exact hslot
  | lookupMiss habsent => exact habsent
  | takeFree hfree => exact Miss.current_filling hcurrent _
  | poolEmpty hfree => exact hcurrent
  | chooseDirty hselect hflush =>
      exact ⟨hcurrent, (selectEvictionCandidate_spec hkeyed hselect).1⟩
  | chooseClean hselect hflush =>
      exact ⟨hcurrent, (selectEvictionCandidate_spec hkeyed hselect).1⟩
  | victimWritten hio => exact hcurrent
  | wakeForVictim => exact hcurrent
  | removeVictim =>
      simp only [Pc.Current, LbaTable.slotOf_remove, hcurrent.1, ite_self]
  | freeVictim => exact hcurrent
  | retake hfree => exact Miss.current_filling hcurrent _
  | fetched hio => exact hcurrent
  | insertRead => simp [Pc.Current, LbaTable.slotOf_insert, CacheEntry.new]
  | writeLookupHit hslot => exact hslot
  | writeLookupMiss habsent => exact habsent
  | fill => exact hcurrent
  | _ => trivial

theorem FlusherStep.slotOf {flusherPc nextPc : FlusherPc setup}
    (hstep : FlusherStep choice engine flusherPc nextPc nextEngine) :
    nextEngine.table.slotOf = engine.table.slotOf := by
  cases hstep with
  | cleaned => exact LbaTable.slotOf_markClean _ _
  | _ => rfl

theorem FlusherStep.selfKeyed {flusherPc nextPc : FlusherPc setup}
    (hstep : FlusherStep choice engine flusherPc nextPc nextEngine)
    (hkeyed : engine.table.SelfKeyed) : nextEngine.table.SelfKeyed := by
  cases hstep with
  | cleaned => exact hkeyed.markClean _
  | _ => exact hkeyed

end Step

namespace Machine

structure Alone (machine : Machine setup 1) : Prop where
  keyed : machine.engine.table.SelfKeyed
  current : (machine.client 0).Current machine.engine.table.slotOf
  owned : machine.Owned

variable {machine next : Machine setup 1} {action : Action setup 1}

theorem Alone.evictsOwnSlot (halone : machine.Alone) (action : Action setup 1) :
    machine.EvictsOwnSlot action := by
  cases action with
  | client thread choice =>
      obtain rfl : thread = 0 := Subsingleton.elim thread 0
      intro pair hremoves
      have hcurrent := halone.current
      cases hpc : machine.client 0 with
      | removeVictim miss victim =>
          rw [hpc] at hremoves hcurrent
          cases hremoves
          exact hcurrent.2
      | _ =>
          rw [hpc] at hremoves
          cases hremoves
  | _ => trivial

theorem alone_init (setup : Setup) (image : Image) :
    (init setup 1 image).Alone where
  keyed := LbaTable.selfKeyed_new
  current := trivial
  owned := owned_init setup 1 image

theorem Alone.step (halone : machine.Alone)
    (hstep : machine.step action = some next) : next.Alone := by
  have howned := halone.owned.step (halone.evictsOwnSlot action) hstep
  cases step_cases hstep with
  | @invoke thread call howner hidle =>
      obtain rfl : thread = 0 := Subsingleton.elim thread 0
      refine ⟨halone.keyed, ?_, howned⟩
      simp only [Function.update_self]
      exact call.current_enter _
  | @client thread choice pc engine hclient =>
      obtain rfl : thread = 0 := Subsingleton.elim thread 0
      refine ⟨hclient.selfKeyed halone.keyed, ?_, howned⟩
      simp only [Function.update_self]
      exact hclient.current halone.keyed halone.current
  | @respond thread outcome hdone =>
      obtain rfl : thread = 0 := Subsingleton.elim thread 0
      refine ⟨halone.keyed, ?_, howned⟩
      simp only [Function.update_self]
      trivial
  | flush hflush =>
      refine ⟨hflush.selfKeyed halone.keyed, ?_, howned⟩
      simp only [hflush.slotOf]
      exact halone.current
  | owner howner => exact ⟨halone.keyed, halone.current, howned⟩

end Machine

end AsmCacheInject.Concurrent

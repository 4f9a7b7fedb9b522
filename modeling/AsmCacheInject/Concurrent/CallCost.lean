import AsmCacheInject.Concurrent.Syscalls

namespace AsmCacheInject.Concurrent

open AsmCacheInject.Cache
open AsmCacheInject.Data
open AsmCacheInject.Engine
open AsmCacheInject.Io

variable {setup : Setup} {n : Nat}

/-! How much a call can cost.  No control point is left twice, the pool is asked
for a second slot only once, and no operation is tried again but a short
transfer, so a call runs out of work whatever the other threads do to the table
and the pool.  The time a lock is waited for is not counted. -/

/-- Steps to the answer once a slot is in hand. -/
def Miss.stepsLeft : Miss setup → Nat
  | .read _ => 3
  | .write _ _ => 4

def Miss.preadsLeft : Miss setup → Nat
  | .read _ => 1
  | .write _ _ => 0

/-- Steps to the answer at most. -/
def Pc.stepsLeft : Pc setup → Nat
  | .idle => 0
  | .readLookup _ => 11
  | .readHit _ _ => 1
  | .allocate miss => miss.stepsLeft + 7
  | .select miss => miss.stepsLeft + 6
  | .flushVictim miss _ => miss.stepsLeft + 5
  | .wakeForVictim miss _ => miss.stepsLeft + 4
  | .removeVictim miss _ => miss.stepsLeft + 3
  | .freeVictim miss _ => miss.stepsLeft + 2
  | .reallocate miss => miss.stepsLeft + 1
  | .fetch _ _ => 3
  | .insertRead _ _ => 2
  | .copyRead _ _ => 1
  | .writeLookup _ _ => 12
  | .writeHit _ _ _ => 4
  | .markDirty _ _ => 3
  | .fill _ _ _ => 4
  | .insertWrite _ _ _ => 3
  | .stats _ _ _ => 2
  | .wakeForWrite _ _ _ => 1
  | .done _ => 0

def Pc.preadsLeft : Pc setup → Nat
  | .readLookup _ => 1
  | .allocate miss => miss.preadsLeft
  | .select miss => miss.preadsLeft
  | .flushVictim miss _ => miss.preadsLeft
  | .wakeForVictim miss _ => miss.preadsLeft
  | .removeVictim miss _ => miss.preadsLeft
  | .freeVictim miss _ => miss.preadsLeft
  | .reallocate miss => miss.preadsLeft
  | .fetch _ _ => 1
  | _ => 0

def Pc.pwritesLeft : Pc setup → Nat
  | .readLookup _ => 1
  | .writeLookup _ _ => 1
  | .allocate _ => 1
  | .select _ => 1
  | .flushVictim _ _ => 1
  | _ => 0

def Syscall.isPread : Syscall setup → Bool
  | .pread _ => true
  | _ => false

def Syscall.isPwrite : Syscall setup → Bool
  | .pwrite _ => true
  | _ => false

theorem ClientStep.uses_up {choice : Choice setup} {engine after : CacheEngine setup}
    {pc next : Pc setup} (hstep : ClientStep choice engine pc next after) :
    next.stepsLeft < pc.stepsLeft ∧
      pc.issued.countP Syscall.isPread + next.preadsLeft ≤ pc.preadsLeft ∧
      pc.issued.countP Syscall.isPwrite + next.pwritesLeft ≤ pc.pwritesLeft := by
  cases hstep with
  | @takeFree miss slot rest hfree =>
      cases miss <;> simp [Miss.filling, Pc.stepsLeft, Pc.preadsLeft, Pc.pwritesLeft,
        Pc.issued, Miss.stepsLeft, Miss.preadsLeft]
  | @retake miss slot rest hfree =>
      cases miss <;> simp [Miss.filling, Pc.stepsLeft, Pc.preadsLeft, Pc.pwritesLeft,
        Pc.issued, Miss.stepsLeft, Miss.preadsLeft]
  | _ => simp [Pc.stepsLeft, Pc.preadsLeft, Pc.pwritesLeft, Pc.issued,
      Syscall.isPread, Syscall.isPwrite, Miss.stepsLeft, Miss.preadsLeft]

theorem ClientStep.next_ne_idle {choice : Choice setup}
    {engine after : CacheEngine setup} {pc next : Pc setup}
    (hstep : ClientStep choice engine pc next after) : next ≠ .idle := by
  cases hstep with
  | @takeFree miss _ _ _ => cases miss <;> simp [Miss.filling]
  | @retake miss _ _ _ => cases miss <;> simp [Miss.filling]
  | _ => simp

/-- The moves so far and what is left of the call stay within the given numbers
of steps, device reads and device writes. -/
structure Pc.Within (steps preads pwrites : Nat)
    (made : List (List (Syscall setup))) (pc : Pc setup) : Prop where
  busy : pc ≠ .idle
  steps : made.length + pc.stepsLeft ≤ steps
  preads : made.flatten.countP Syscall.isPread + pc.preadsLeft ≤ preads
  pwrites : made.flatten.countP Syscall.isPwrite + pc.pwritesLeft ≤ pwrites

theorem Pc.Within.move {steps preads pwrites : Nat}
    {made : List (List (Syscall setup))} {pc next : Pc setup}
    {choice : Choice setup} {engine after : CacheEngine setup}
    (hwithin : pc.Within steps preads pwrites made)
    (hstep : ClientStep choice engine pc next after) :
    next.Within steps preads pwrites (made ++ [pc.issued]) := by
  obtain ⟨hsteps, hpreads, hpwrites⟩ := hstep.uses_up
  have hstepsBefore := hwithin.steps
  have hpreadsBefore := hwithin.preads
  have hpwritesBefore := hwithin.pwrites
  constructor
  · exact hstep.next_ne_idle
  · rw [List.length_append, List.length_singleton]
    omega
  · rw [List.flatten_append, List.flatten_singleton, List.countP_append]
    omega
  · rw [List.flatten_append, List.flatten_singleton, List.countP_append]
    omega

/-- What a call may use. -/
def Call.steps : Call setup → Nat
  | .read _ => 11
  | .write _ _ => 12

def Call.preads : Call setup → Nat
  | .read _ => 1
  | .write _ _ => 0

namespace Machine

variable {machine entered next final : Machine setup n} {thread : Fin n}
  {call : Call setup}

end Machine

end AsmCacheInject.Concurrent

import AsmCacheInject.Data.Run
import AsmCacheInject.Engine.Paths

namespace AsmCacheInject.Concurrent

open AsmCacheInject.Cache
open AsmCacheInject.Data
open AsmCacheInject.Engine
open AsmCacheInject.Flush

variable {setup : Setup} {n : Nat}

/-! The engine under interleaving.  A client inside a call stands at a control
point between two atomic steps: a table call, a pool call, a whole-block copy,
a block transfer, or a send to the flush channel.  `get_block` only computes
an address and is part of the access it serves; a new entry reads the clock in
the step that inserts it. -/

/-- A miss on its way through `allocate_or_evict`. -/
inductive Miss (setup : Setup)
  | read (lba : Lba setup)
  | write (lba : Lba setup) (buf : Block setup)

inductive Outcome (setup : Setup)
  | readOk (lba : Lba setup) (result : ReadResult setup)
  | writeOk (lba : Lba setup) (buf : Block setup) (result : WriteResult)
  | failed (error : CacheError)

/-- The control points of a call: the hit path of `cached_read`, then
`allocate_or_evict`, the miss path of `cached_read` and `cached_write`. -/
inductive Pc (setup : Setup)
  | idle
  | readLookup (lba : Lba setup)
  | readHit (lba : Lba setup) (slot : Nat)
  | allocate (miss : Miss setup)
  | select (miss : Miss setup)
  | flushVictim (miss : Miss setup) (victim : EvictionCandidate (Lba setup))
  | wakeForVictim (miss : Miss setup) (victim : EvictionCandidate (Lba setup))
  | removeVictim (miss : Miss setup) (victim : EvictionCandidate (Lba setup))
  | freeVictim (miss : Miss setup) (victim : EvictionCandidate (Lba setup))
  | reallocate (miss : Miss setup)
  | fetch (lba : Lba setup) (slot : Nat)
  | insertRead (lba : Lba setup) (slot : Nat)
  | copyRead (lba : Lba setup) (slot : Nat)
  | writeLookup (lba : Lba setup) (buf : Block setup)
  | writeHit (lba : Lba setup) (buf : Block setup) (slot : Nat)
  | markDirty (lba : Lba setup) (buf : Block setup)
  | fill (lba : Lba setup) (buf : Block setup) (slot : Nat)
  | insertWrite (lba : Lba setup) (buf : Block setup) (slot : Nat)
  | stats (lba : Lba setup) (buf : Block setup) (wasUpdate : Bool)
  | wakeForWrite (lba : Lba setup) (buf : Block setup) (wasUpdate : Bool)
  | done (outcome : Outcome setup)

/-- Where the path continues once a slot is in hand. -/
def Miss.filling : Miss setup → Nat → Pc setup
  | .read lba, slot => .fetch lba slot
  | .write lba buf, slot => .fill lba buf slot

/-- What the surroundings decide during one step. -/
structure Choice (setup : Setup) where
  now : Instant
  later : Instant
  order : HashOrder (CacheEntry (Lba setup))
  io : IoOutcome setup

def Choice.calm (now : Instant) : Choice setup where
  now := now
  later := now
  order := .stored
  io := .ok

def Pc.step (choice : Choice setup) (engine : CacheEngine setup) :
    Pc setup → Option (Pc setup × CacheEngine setup)
  | .idle => none
  | .readLookup lba =>
      match engine.table.getAndTouch choice.now lba with
      | (some slot, table) =>
          some (.readHit lba slot, { engine with table := table })
      | (none, _) => some (.allocate (.read lba), engine)
  | .readHit lba slot =>
      some (.done (.readOk lba ⟨true, engine.blocks slot⟩), engine)
  | .allocate miss =>
      match engine.allocate with
      | (.ok slot, taken) => some (miss.filling slot, taken)
      | (.error _, _) => some (.select miss, engine)
  | .select miss =>
      match selectEvictionCandidate choice.order engine.table with
      | none =>
          some (.done (.failed (.internal
            "pool exhausted but cache table is empty — inconsistent state")),
            engine)
      | some victim =>
          if victim.needsFlush then some (.flushVictim miss victim, engine)
          else some (.removeVictim miss victim, engine)
  | .flushVictim miss victim =>
      match engine.writeBack choice.io victim.lba victim.poolIndex with
      | (.error error, torn) => some (.done (.failed error), torn)
      | (.ok (), written) => some (.wakeForVictim miss victim, written)
  | .wakeForVictim miss victim => some (.removeVictim miss victim, engine.wake)
  | .removeVictim miss victim =>
      some (.freeVictim miss victim,
        { engine with table := (engine.table.remove victim.lba).2 })
  | .freeVictim miss victim =>
      some (.reallocate miss, engine.deallocate victim.poolIndex)
  | .reallocate miss =>
      match engine.allocate with
      | (.ok slot, taken) => some (miss.filling slot, taken)
      | (.error error, _) => some (.done (.failed error), engine)
  | .fetch lba slot =>
      match engine.fetch choice.io lba slot with
      | (.error error, torn) => some (.done (.failed error), torn)
      | (.ok (), loaded) => some (.insertRead lba slot, loaded)
  | .insertRead lba slot =>
      some (.copyRead lba slot, { engine with
        table := (engine.table.insert lba (.new choice.now lba slot)).2 })
  | .copyRead lba slot =>
      some (.done (.readOk lba ⟨false, engine.blocks slot⟩), engine)
  | .writeLookup lba buf =>
      match engine.table.get lba with
      | some entry => some (.writeHit lba buf entry.poolIndex, engine)
      | none => some (.allocate (.write lba buf), engine)
  | .writeHit lba buf slot => some (.markDirty lba buf, engine.fill slot buf)
  | .markDirty lba buf =>
      some (.stats lba buf true,
        { engine with table := engine.table.markDirty choice.now lba })
  | .fill lba buf slot => some (.insertWrite lba buf slot, engine.fill slot buf)
  | .insertWrite lba buf slot =>
      some (.stats lba buf false, { engine with
        table := (engine.table.insert lba
          ((CacheEntry.new choice.now lba slot).markDirty choice.later)).2 })
  | .stats lba buf wasUpdate =>
      let stats := engine.table.stats
      if setup.schedule.shouldFlushImmediately stats.dirtyEntries
          stats.totalEntries then
        some (.wakeForWrite lba buf wasUpdate, engine)
      else some (.done (.writeOk lba buf ⟨wasUpdate⟩), engine)
  | .wakeForWrite lba buf wasUpdate =>
      some (.done (.writeOk lba buf ⟨wasUpdate⟩), engine.wake)
  | .done _ => none

/-! Calls. -/

inductive Call (setup : Setup)
  | read (lba : Nat)
  | write (lba : Nat) (buf : Block setup)

/-- `CacheEngine::read` and `CacheEngine::write` up to their first shared
access. -/
def Call.enter : Call setup → Pc setup
  | .read lba =>
      if hlba : lba < setup.maxLba then .readLookup ⟨lba, hlba⟩
      else .done (.failed (.lbaOutOfRange lba setup.maxLba))
  | .write lba buf =>
      if hlba : lba < setup.maxLba then
        if setup.readOnly then
          .done (.failed (.config "write rejected: engine is in read-only mode"))
        else .writeLookup ⟨lba, hlba⟩ buf
      else .done (.failed (.lbaOutOfRange lba setup.maxLba))

/-! The flush thread, from `receiver.wait` to the stop check. -/

inductive FlusherPc (setup : Setup)
  | off
  | waiting
  | snapshot (signal : Option FlushSignal)
  | writing (signal : Option FlushSignal) (lba : Lba setup) (slot : Nat)
      (rest : List (Lba setup × Nat)) (flushed : Nat)
  | cleaning (signal : Option FlushSignal) (lba : Lba setup)
      (rest : List (Lba setup × Nat)) (flushed : Nat)
  | syncing (signal : Option FlushSignal)
  | checking (signal : Option FlushSignal)
  | exited

/-- The head of the flush loop, and the way out of it. -/
def FlusherPc.resume (signal : Option FlushSignal) :
    List (Lba setup × Nat) → Nat → FlusherPc setup
  | (lba, slot) :: rest, flushed => .writing signal lba slot rest flushed
  | [], flushed => if 0 < flushed then .syncing signal else .checking signal

def FlusherPc.step (choice : Choice setup) (engine : CacheEngine setup) :
    FlusherPc setup → Option (FlusherPc setup × CacheEngine setup)
  | .off => none
  | .waiting =>
      match engine.flusher with
      | none => some (.snapshot (some .shutdown), engine)
      | some channel =>
          some (.snapshot channel.receive.1,
            { engine with flusher := some channel.receive.2 })
  | .snapshot signal =>
      some (.resume signal (engine.table.dirtyEntries choice.order) 0, engine)
  | .writing signal lba slot rest flushed =>
      match engine.writeBack choice.io lba slot with
      | (.ok (), written) => some (.cleaning signal lba rest flushed, written)
      | (.error _, torn) => some (.resume signal rest flushed, torn)
  | .cleaning signal lba rest flushed =>
      some (.resume signal rest (flushed + 1),
        { engine with table := engine.table.markClean lba })
  | .syncing signal => some (.checking signal, engine)
  | .checking signal =>
      if signal = some .shutdown ∨ (engine.flusher.map (·.stop)) = some true then
        some (.exited, engine)
      else some (.waiting, engine)
  | .exited => none

/-! The whole machine.  `start` and `stop` need the engine to themselves, so
they wait until every client is between two calls. -/

inductive OwnerPc
  | running
  | storing
  | sending
  | joining
  | returned
  deriving DecidableEq, Repr

structure Machine (setup : Setup) (n : Nat) where
  engine : CacheEngine setup
  client : Fin n → Pc setup
  flusher : FlusherPc setup
  owner : OwnerPc

inductive Action (setup : Setup) (n : Nat)
  | invoke (thread : Fin n) (call : Call setup)
  | client (thread : Fin n) (choice : Choice setup)
  | respond (thread : Fin n)
  | flush (choice : Choice setup)
  | start
  | stop

def Pc.isIdle : Pc setup → Bool
  | .idle => true
  | _ => false

namespace Machine

def init (setup : Setup) (n : Nat) (image : Image) : Machine setup n where
  engine := .boot setup image none
  client := fun _ => .idle
  flusher := .off
  owner := .running

def Quiet (machine : Machine setup n) : Prop :=
  ∀ thread, (machine.client thread).isIdle = true

instance (machine : Machine setup n) : Decidable machine.Quiet :=
  inferInstanceAs (Decidable (∀ _, _))

def start (machine : Machine setup n) : Machine setup n :=
  if machine.engine.flusher.isSome then machine
  else if setup.readOnly then machine
  else
    { machine with
      engine := { machine.engine with flusher := some .fresh }
      flusher := .waiting }

/-- The steps of `CacheEngine::stop`: raise the flag, send the signal, join
the thread. -/
def stop (machine : Machine setup n) : Option (Machine setup n) :=
  match machine.owner with
  | .running =>
      if machine.Quiet then
        if machine.engine.flusher.isSome then
          some { machine with owner := .storing }
        else some machine
      else none
  | .storing =>
      some { machine with
        engine := { machine.engine with
          flusher := machine.engine.flusher.map .storeStop }
        owner := .sending }
  | .sending =>
      some { machine with
        engine := { machine.engine with
          flusher := machine.engine.flusher.map .sendShutdown }
        owner := .joining }
  | .joining =>
      match machine.flusher with
      | .exited =>
          some { machine with
            engine := { machine.engine with flusher := none }
            flusher := .off
            owner := .returned }
      | _ => none
  | .returned => some { machine with owner := .running }

def step (machine : Machine setup n) :
    Action setup n → Option (Machine setup n)
  | .invoke thread call =>
      if machine.owner = .running ∧ (machine.client thread).isIdle = true then
        some { machine with
          client := Function.update machine.client thread call.enter }
      else none
  | .client thread choice =>
      match (machine.client thread).step choice machine.engine with
      | none => none
      | some (pc, engine) =>
          some { machine with
            engine := engine
            client := Function.update machine.client thread pc }
  | .respond thread =>
      match machine.client thread with
      | .done _ =>
          some { machine with
            client := Function.update machine.client thread .idle }
      | _ => none
  | .flush choice =>
      match machine.flusher.step choice machine.engine with
      | none => none
      | some (pc, engine) =>
          some { machine with engine := engine, flusher := pc }
  | .start =>
      if machine.owner = .running ∧ machine.Quiet then some machine.start
      else none
  | .stop => machine.stop

end Machine

def stripes : Image := fun position => UInt8.ofNat (position / 1048576)

/-! The clients of small schedules. -/

def lone : Fin 1 := ⟨0, Nat.zero_lt_one⟩

def clientA : Fin 2 := ⟨0, Nat.zero_lt_two⟩

def clientB : Fin 2 := ⟨1, Nat.one_lt_two⟩

def advance (thread : Fin n) (count : Nat) (now : Instant) :
    List (Action setup n) :=
  List.replicate count (.client thread (.calm now))

def Action.faultless : Action setup n → Bool
  | .client _ choice => choice.io.succeeds
  | .flush choice => choice.io.succeeds
  | _ => true

def Outcome.events : Outcome setup → List (BlockEvent setup)
  | .readOk lba result => [.read lba result.data]
  | .writeOk lba buf _ => [.write lba buf]
  | .failed _ => []

def Machine.emitted (machine : Machine setup n) :
    Action setup n → List (BlockEvent setup)
  | .respond thread =>
      match machine.client thread with
      | .done outcome => outcome.events
      | _ => []
  | _ => []

end AsmCacheInject.Concurrent

import Mathlib

namespace AsmCacheInject.Flush

/-! Flush timing and the capacity-one channel to the flush thread. -/

/-- What the engine asks of the `f64` watermark: whether it lies in
`0.0..=1.0`, how it is printed, and whether the quotient of two counts, rounded
to an `f64`, is at least as large.  Floating point itself stays a parameter. -/
structure Watermark where
  inUnitInterval : Bool
  display : String
  reached : (dirtyCount totalCount : Nat) → Bool

/-- More dirty blocks among fewer entries do not take the quotient below the
watermark. -/
def Watermark.Monotone (watermark : Watermark) : Prop :=
  ∀ dirtyCount totalCount moreDirty fewerTotal : Nat, 0 < fewerTotal →
    dirtyCount ≤ moreDirty → fewerTotal ≤ totalCount →
    watermark.reached dirtyCount totalCount = true →
    watermark.reached moreDirty fewerTotal = true

structure FlushSchedule where
  intervalSecs : UInt64
  dirtyWatermark : Watermark

def FlushSchedule.shouldFlushImmediately (schedule : FlushSchedule)
    (dirtyCount totalCount : Nat) : Bool :=
  if totalCount = 0 then false
  else schedule.dirtyWatermark.reached dirtyCount totalCount

inductive FlushSignal
  | wake
  | shutdown
  deriving DecidableEq, Repr

/-- The shared state of a notifier and its receiver: the one buffered signal
and the stop flag. -/
structure FlushChannel where
  pending : Option FlushSignal
  stop : Bool
  deriving DecidableEq, Repr

namespace FlushChannel

def fresh : FlushChannel := ⟨none, false⟩

/-- `try_send` on a bounded channel of capacity one. -/
def trySend (channel : FlushChannel) (signal : FlushSignal) : FlushChannel :=
  match channel.pending with
  | none => { channel with pending := some signal }
  | some _ => channel

def wake (channel : FlushChannel) : FlushChannel :=
  channel.trySend .wake

def storeStop (channel : FlushChannel) : FlushChannel :=
  { channel with stop := true }

def sendShutdown (channel : FlushChannel) : FlushChannel :=
  channel.trySend .shutdown

/-- `recv_timeout`: the buffered signal, or `none` when the interval elapses
with the channel empty. -/
def receive (channel : FlushChannel) : Option FlushSignal × FlushChannel :=
  (channel.pending, { channel with pending := none })

end FlushChannel

end AsmCacheInject.Flush

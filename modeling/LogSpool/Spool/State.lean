import LogSpool.Diagnostic
import LogSpool.Error
import LogSpool.Spool.Calls
import LogSpool.Spool.Channel
set_option autoImplicit false

/-!
# Spools: the state

A spool stands between many producers and one slow sink.  A producer's record takes
one of a fixed number of slots and is queued in a channel; a single worker takes the
records from the channel in order and hands each to the sink; its slot is free again
when the sink has dealt with it.  Whoever drains the spool waits until no slot is
taken.

`Spool` is all of that at one instant, with every call that is under way and how far
it has come.  `Spool.step` in `LogSpool.Spool.Step` is what happens next.
-/

namespace LogSpool

/-- How far a call that writes a record has come.  From its first phase to its last
it keeps the spool from being closed. -/
inductive WritePhase where
  /-- It found the spool open and is about to take a slot. -/
  | entered
  /-- It has a slot and is about to queue its record. -/
  | reserved
  /-- Nothing takes the record any more; the slot is to be given back. -/
  | refused
  /-- It gave the last taken slot back and is about to wake who drains. -/
  | waking
  /-- Its record is lost and about to be counted. -/
  | losing
  deriving DecidableEq, Repr, Inhabited

/-- A call in this phase holds a slot. -/
def WritePhase.holdsSlot : WritePhase → Bool
  | reserved | refused => true
  | entered | waking | losing => false

/-- A call that writes a record. -/
structure WriteCall where
  record : Bytes
  phase : WritePhase
  deriving DecidableEq, Repr, Inhabited

/-- A call that waits until no slot is taken.  It is armed before it looks, so that
it cannot miss being woken between looking and parking. -/
structure Waiter where
  /-- It looked, found a slot taken, and sleeps until it is woken. -/
  parked : Bool := false
  /-- It was woken since it was armed. -/
  notified : Bool := false
  deriving DecidableEq, Repr, Inhabited

/-- How far a call that shuts the spool down has come.  While it drains the spool it
also stands among the calls that wait, under the same number. -/
inductive ShutdownPhase where
  /-- It is about to close the spool. -/
  | closing
  /-- The spool is closed, and it is about to wait until no slot is taken. -/
  | arming
  /-- It waits until no slot is taken. -/
  | draining
  /-- No slot is taken, and it asks for the right to wait for the worker's end. -/
  | claiming
  /-- It has that right and waits for the worker's end. -/
  | joining
  deriving DecidableEq, Repr, Inhabited

/-- A call that drained the spool goes on to the worker. -/
def ShutdownPhase.drained : ShutdownPhase → ShutdownPhase
  | draining => claiming
  | phase => phase

/-- What the worker is doing.  A call on the sink has two parts: making the call, where
nothing holds a panic up, and waiting for its end, where every panic is caught. -/
inductive Worker where
  /-- It looks for the next record. -/
  | idle
  /-- It calls the sink with the record. -/
  | calling (record : Bytes)
  /-- The sink has the record. -/
  | attempting (record : Bytes)
  /-- The sink is done with the record, which is about to be counted. -/
  | judging (record : Bytes) (outcome : Outcome)
  /-- The record is counted and its slot about to be given back. -/
  | releasing
  /-- It gave the last taken slot back and is about to wake who drains. -/
  | waking
  /-- There will be no more records and it calls the sink to flush it. -/
  | callingFlush
  /-- The sink is being flushed. -/
  | flushing
  /-- Its work is done and the sink let go. -/
  | done
  /-- It was lost before its work was done, and the channel with it. -/
  | lost (loss : Loss)
  deriving DecidableEq, Repr, Inhabited

/-- The worker still takes records from the channel. -/
def Worker.isAlive : Worker → Bool
  | done | lost _ => false
  | _ => true

/-- The record that is out of the channel while its slot is still taken. -/
def Worker.inFlight : Worker → Nat
  | calling _ | attempting _ | judging _ _ | releasing => 1
  | _ => 0

/-- The worker waits, for a record or for the sink.  Only then can it be stopped from
outside. -/
def Worker.isWaiting : Worker → Bool
  | idle | attempting _ | flushing => true
  | _ => false

/-- The worker makes a call on the sink, where nothing holds a panic up. -/
def Worker.isCalling : Worker → Bool
  | calling _ | callingFlush => true
  | _ => false

/-- The worker is lost from this phase in this way. -/
def Worker.canLose (worker : Worker) : Loss → Bool
  | .panicked _ => worker.isCalling
  | .cancelled => worker.isWaiting

/-- A spool and the calls under way. -/
structure Spool where
  /-- The number of slots. -/
  capacity : Nat
  /-- The number of slots taken. -/
  pending : Nat := 0
  /-- The records that wait for the worker. -/
  channel : Channel := .empty
  /-- No more records are taken. -/
  closed : Bool := false
  /-- The closing is still to be reported. -/
  announcing : Bool := false
  /-- The handles through which the spool can be used. -/
  handles : Nat := 1
  /-- The latest attempt to write succeeded, or there was none. -/
  healthy : Bool := true
  worker : Worker := .idle
  /-- The right to wait for the worker's end has not been taken. -/
  unclaimed : Bool := true
  /-- The calls that write. -/
  writes : Calls WriteCall := {}
  /-- The calls that wait until no slot is taken. -/
  waiters : Calls Waiter := {}
  /-- The calls that shut the spool down. -/
  shutdowns : Calls ShutdownPhase := {}
  deriving Inhabited

namespace Spool

/-- A fresh spool with the given number of slots. -/
def start (capacity : Nat) : Spool := { capacity := capacity }

/-- No record can come any more: the spool is closed, or nobody can use it. -/
def isSealed (s : Spool) : Bool := s.closed || s.handles == 0

/-- The number of slots that calls hold. -/
def held (s : Spool) : Nat := s.writes.count (·.phase.holdsSlot)

/-- No call is under way. -/
def isQuiet (s : Spool) : Bool :=
  s.writes.isEmpty && s.waiters.isEmpty && s.shutdowns.isEmpty

/-- No call that waits has the number. -/
def isFresh (s : Spool) (call : Nat) : Bool :=
  (s.waiters.find? call).isNone && (s.shutdowns.find? call).isNone

/-- A number is fresh for a call that is to wait or to shut the spool down if no such call
has it. -/
theorem isFresh_iff {s : Spool} {call : Nat} : s.isFresh call = true ↔
    s.waiters.find? call = none ∧ s.shutdowns.find? call = none := by
  simp [isFresh]

/-- Wake every call that waits. -/
def wakeAll (s : Spool) : Spool :=
  { s with waiters := s.waiters.mapAll fun _ w => { w with notified := true } }

/-- Every call that waits is woken, and stands where it stood. -/
theorem find?_wakeAll (s : Spool) (call : Nat) : s.wakeAll.waiters.find? call =
    (s.waiters.find? call).map fun w => { w with notified := true } :=
  Calls.find?_mapAll _ _ _

/-- Put a call that writes into a new phase. -/
def putWrite (s : Spool) (call : Nat) (w : WriteCall) : Spool :=
  { s with writes := s.writes.put call w }

/-- Take a call that writes off the list. -/
def endWrite (s : Spool) (call : Nat) : Spool :=
  { s with writes := s.writes.remove call }

/-- Put a call that waits into a new phase. -/
def putWaiter (s : Spool) (call : Nat) (w : Waiter) : Spool :=
  { s with waiters := s.waiters.put call w }

/-- Take a call that waits off the list. -/
def endWaiter (s : Spool) (call : Nat) : Spool :=
  { s with waiters := s.waiters.remove call }

/-- Put a call that shuts the spool down into a new phase. -/
def putShutdown (s : Spool) (call : Nat) (phase : ShutdownPhase) : Spool :=
  { s with shutdowns := s.shutdowns.put call phase }

/-- Take a call that shuts the spool down off the list. -/
def endShutdown (s : Spool) (call : Nat) : Spool :=
  { s with shutdowns := s.shutdowns.remove call }

/-- No record is taken from now on. -/
def close (s : Spool) : Spool :=
  { s with closed := true, announcing := s.announcing || !s.closed }

end Spool

end LogSpool

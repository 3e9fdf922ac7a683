import LogSpool.Diagnostic
import LogSpool.Event.Collect
set_option autoImplicit false

/-!
# Recorders

A recorder turns events into lines for one spool.  It leaves out events less severe
than its threshold and everything the spool itself reports, and keeps count.  The
lines are built in a buffer that is used again for every event.
-/

namespace LogSpool

/-- The counters of a recorder, which wrap around. -/
structure Tally where
  /-- Events seen, whether left out or not. -/
  totalEvents : UInt64 := 0
  /-- Lines that the spool took care of. -/
  encodedEvents : UInt64 := 0
  /-- Lines that the closed spool refused. -/
  rejectedEvents : UInt64 := 0
  deriving DecidableEq, Repr, Inhabited

namespace Tally

/-- What the counter of all events says. -/
def total (t : Tally) : Nat := t.totalEvents.toNat

/-- What the counter of lines that were taken care of says. -/
def encoded (t : Tally) : Nat := t.encodedEvents.toNat

/-- What the counter of lines that were refused says. -/
def rejected (t : Tally) : Nat := t.rejectedEvents.toNat

end Tally

/-- What turns events into lines. -/
structure Recorder where
  threshold : Severity := .info
  serviceName : Option String := none
  tally : Tally := {}
  deriving DecidableEq, Repr, Inhabited

/-- The buffer in which lines are built. -/
structure LineBuffer where
  bytes : Bytes := []
  deriving DecidableEq, Repr, Inhabited

/-- Forget what was built before. -/
def LineBuffer.clear (b : LineBuffer) : LineBuffer := { b with bytes := [] }

/-- Clear the buffer and build a record's line in it. -/
def LineBuffer.fill (b : LineBuffer) (r : Record) : LineBuffer :=
  { b with bytes := r.appendTo b.clear.bytes }

namespace Recorder

/-- The event is left out. -/
def ignores (r : Recorder) (e : Event) : Bool :=
  !e.severity.passes r.threshold || isOwnTarget e.target

/-- One more event was seen. -/
def see (r : Recorder) : Recorder :=
  { r with tally := { r.tally with totalEvents := r.tally.totalEvents + 1 } }

/-- A line was offered to the spool, which took care of it or refused it. -/
def offer (r : Recorder) (taken : Bool) : Recorder :=
  if taken then { r with tally := { r.tally with encodedEvents := r.tally.encodedEvents + 1 } }
  else { r with tally := { r.tally with rejectedEvents := r.tally.rejectedEvents + 1 } }

end Recorder

end LogSpool

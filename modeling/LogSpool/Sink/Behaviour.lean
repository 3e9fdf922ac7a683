import LogSpool.Sink.Outcome
set_option autoImplicit false

/-!
# Sinks: scripted behaviour

What a sink does in one call, as data: it may sleep or wait for a permit first, and
then hands the record on, fails, panics, reports a count of its own, or never
returns.  A `Script` says what each call of a sink does.
-/

namespace LogSpool

/-- What a sink does in one call. -/
inductive Behaviour where
  /-- Hand the record to what stands behind the sink. -/
  | forward
  | fail (error : String)
  /-- Panic while the call is under way. -/
  | panic (payload : Payload)
  /-- Panic in the call itself, before it is under way. -/
  | panicAtOnce (payload : Payload)
  /-- Report so many bytes and store nothing. -/
  | count (n : Nat)
  /-- Report so many bytes fewer than the record has and store nothing. -/
  | short (n : Nat)
  /-- Sleep so many milliseconds first. -/
  | delay (ms : Nat) (next : Behaviour)
  /-- Take a permit of the sink's gate first. -/
  | gate (next : Behaviour)
  /-- Never return. -/
  | block
  deriving DecidableEq, Repr, Inhabited

/-- What the calls of a sink do. -/
structure Script where
  /-- The first writes, one each. -/
  writes : List Behaviour := []
  /-- All later writes. -/
  otherwise : Behaviour := .forward
  /-- Every flush. -/
  flush : Behaviour := .forward
  /-- What is handed on is kept. -/
  keeps : Bool := true
  deriving DecidableEq, Repr, Inhabited

/-- What the write call with the given number does, counting from zero. -/
def Script.write (script : Script) (k : Nat) : Behaviour :=
  (script.writes[k]?).getD script.otherwise

/-- The permits of a sink's gate. -/
structure Gate where
  permits : Nat := 0
  closed : Bool := false
  deriving DecidableEq, Repr, Inhabited

/-- The error of waiting for a permit of a closed gate. -/
def Gate.closedError : String := "semaphore closed"

/-- How far a call has come: what is left of it, and what it waits for. -/
inductive Progress where
  /-- No call is under way. -/
  | none
  /-- The call goes on with the behaviour. -/
  | ready (next : Behaviour)
  /-- The call sleeps until the given time. -/
  | sleeping (wake : Nat) (next : Behaviour)
  /-- The call waits for a permit. -/
  | atGate (next : Behaviour)
  /-- The call never goes on. -/
  | stuck
  deriving DecidableEq, Repr, Inhabited

/-- The end that a call comes to once it waits for nothing more. -/
inductive Ending where
  | forward
  | fail (error : String)
  | panic (payload : Payload)
  | count (n : Nat)
  | short (n : Nat)
  deriving DecidableEq, Repr, Inhabited

/-- Run a call as far as it goes at the given time: to an end, or to where it waits.
Permits are taken on the way. -/
def Behaviour.run (now : Nat) (gate : Gate) : Behaviour → (Ending ⊕ Progress) × Gate
  | .forward => (.inl .forward, gate)
  | .fail error => (.inl (.fail error), gate)
  | .panic payload => (.inl (.panic payload), gate)
  | .panicAtOnce payload => (.inl (.panic payload), gate)
  | .count n => (.inl (.count n), gate)
  | .short n => (.inl (.short n), gate)
  | .delay 0 next => next.run now gate
  | .delay ms next => (.inr (.sleeping (now + ms) next), gate)
  | .gate next =>
    if gate.closed then (.inl (.fail Gate.closedError), gate)
    else if 0 < gate.permits then next.run now { gate with permits := gate.permits - 1 }
    else (.inr (.atGate next), gate)
  | .block => (.inr .stuck, gate)

/-- Run a call that may have been waiting. -/
def Progress.run (now : Nat) (gate : Gate) : Progress → (Ending ⊕ Progress) × Gate
  | .none => (.inr .none, gate)
  | .ready next => next.run now gate
  | .sleeping wake next =>
    if wake ≤ now then next.run now gate else (.inr (.sleeping wake next), gate)
  | .atGate next => (Behaviour.gate next).run now gate
  | .stuck => (.inr .stuck, gate)

/-- The time at which a sleeping call goes on. -/
def Progress.wake? : Progress → Option Nat
  | .sleeping wake _ => some wake
  | _ => .none

end LogSpool

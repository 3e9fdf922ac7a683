import LogSpool.Spool.Poll
set_option autoImplicit false

/-!
# Timed spools

A spool with a clock, and the calls that wait there for a limited time.  Everybody else
takes steps in any order and whenever it likes; the clock moves when it likes too, but
passes no deadline before the call whose deadline it is was polled and has its answer.
A time is a number of the smallest units that the timer tells apart.
-/

namespace LogSpool

/-- What the calls on a spool run on. -/
structure Runtime where
  /-- The last instant that can be told. -/
  latest : Nat
  /-- How long a call waits if the end of its time is no instant that can be told. -/
  horizon : Nat
  /-- There is one thread only, so that no call is polled between the instant when somebody
  gave the last slot back and the instant when it wakes who waits. -/
  oneThread : Bool

/-- Somebody gave the last taken slot back and has still to wake who waits. -/
def Spool.isWaking (s : Spool) : Bool :=
  s.worker == .waking || s.writes.count (·.phase == .waking) != 0

/-- A spool at an instant, with the calls that wait. -/
structure Timed where
  spool : Spool
  now : Nat := 0
  /-- The instant at which the time of each call that waits is up. -/
  deadlines : Calls Nat := {}
  deriving Inhabited

namespace Timed

/-- What can happen to a timed spool. -/
inductive Move where
  /-- Somebody who does not wait takes a step. -/
  | other (a : Action)
  /-- The spool is closed, and that is reported if it is news. -/
  | close
  /-- A call starts to drain the spool, and is polled. -/
  | drain (call timeout : Nat)
  /-- A call starts to shut the spool down, and is polled. -/
  | shutdown (call timeout : Nat)
  /-- A call that waits is polled. -/
  | poll (call : Nat)
  /-- Nobody wants a call that waits any more. -/
  | giveUp (call : Nat)
  /-- Time passes. -/
  | pass (later : Nat)
  deriving DecidableEq, Repr, Inhabited

/-- What a move does beyond the timed spool itself. -/
inductive Notice where
  | spool (effect : Effect)
  /-- A call that waits is answered. -/
  | answered (call : Nat) (result : WaitResult)
  /-- A call fails, for an instant that cannot be told. -/
  | panicked (call : Nat)
  deriving Inhabited

/-- A fresh timed spool. -/
def start (capacity : Nat) : Timed := { spool := .start capacity }

/-- The instant at which the time of a call that starts now to drain is up. -/
def deadline (r : Runtime) (t : Timed) (timeout : Nat) : Nat :=
  if t.now + timeout ≤ r.latest then t.now + timeout else t.now + r.horizon

/-- A call was polled. -/
def settle (t : Timed) (call : Nat) (polled : Polled) : Timed × List Notice :=
  match polled.result? with
  | none => ({ t with spool := polled.spool }, polled.effects.map .spool)
  | some result =>
    ({ t with spool := polled.spool, deadlines := t.deadlines.remove call },
      polled.effects.map .spool ++ [.answered call result])

/-- Poll a call whose time is up at an instant. -/
def pollUntil (t : Timed) (call deadline : Nat) : Timed × List Notice :=
  t.settle call (t.spool.poll call (deadline ≤ t.now))

/-- A call starts to wait, and is polled at once. -/
def await (t : Timed) (call deadline : Nat) : Timed × List Notice :=
  { t with deadlines := t.deadlines.add call deadline }.pollUntil call deadline

/-- A call starts to shut the spool down, which it can unless somebody is in the middle of
a write.  The end of its time has to be an instant that can be told. -/
def shutdown (r : Runtime) (t : Timed) (call timeout : Nat) : Option (Timed × List Notice) :=
  if r.latest < t.now + timeout then some (t, [.panicked call])
  else if t.spool.writes.isEmpty then
    let (spool, effects) := t.spool.tryAll (Spool.shutdownSteps call)
    let (t, notices) := { t with spool }.await call (t.now + timeout)
    some (t, effects.map .spool ++ notices)
  else none

/-- One move, if it is possible. -/
def step (r : Runtime) (t : Timed) : Move → Option (Timed × List Notice)
  | .other a =>
    if a.waiting? = none then
      (t.spool.step a).map fun r => ({ t with spool := r.1 }, r.2.map .spool)
    else none
  | .close =>
    if 0 < t.spool.handles ∧ t.spool.writes.isEmpty then
      let (spool, effects) := t.spool.tryAll Spool.closeSteps
      some ({ t with spool }, effects.map .spool)
    else none
  | .drain call timeout =>
    (t.spool.step (.arm call)).map fun s =>
      { t with spool := s.1 }.await call (t.deadline r timeout)
  | .shutdown call timeout =>
    if 0 < t.spool.handles ∧ t.spool.isFresh call then t.shutdown r call timeout else none
  | .poll call =>
    if r.oneThread && t.spool.isWaking then none
    else (t.deadlines.find? call).map fun deadline => t.pollUntil call deadline
  | .giveUp call =>
    if (t.deadlines.find? call).isSome then
      (t.spool.step (.abandon call)).map fun s =>
        ({ t with spool := s.1, deadlines := t.deadlines.remove call }, s.2.map .spool)
    else none
  | .pass later =>
    if t.now ≤ later ∧ later ≤ r.latest ∧ t.deadlines.all (later ≤ ·) then
      some ({ t with now := later }, [])
    else none

/-- A run of moves, all of them possible, with what they do in order. -/
def run (r : Runtime) (t : Timed) : List Move → Option (Timed × List Notice)
  | [] => some (t, [])
  | m :: rest => do
    let (t, notices) ← t.step r m
    let (t, more) ← t.run r rest
    return (t, notices ++ more)

end Timed

end LogSpool

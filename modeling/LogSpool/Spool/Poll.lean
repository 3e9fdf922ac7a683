import LogSpool.Spool.Step
set_option autoImplicit false

/-!
# Spools: polls of the calls that wait

A call that drains a spool or shuts it down is polled: first when it starts, then whenever
it was woken, and at last when its time is up.  A poll takes the call's steps as far as
they go at that instant.  It looks before it asks whether it is too late, so that a call
that finds the spool drained at the last instant is not told otherwise.
-/

namespace LogSpool

/-- The answer of a call that waits. -/
abbrev WaitResult := Except SpoolError Unit

/-- A spool after a poll of a call that waits. -/
structure Polled where
  spool : Spool
  effects : List Effect := []
  /-- The answer of the call, if it has come to one. -/
  result? : Option WaitResult := none

namespace Spool

/-- Take a step, if it is possible. -/
def tryStep (s : Spool) (a : Action) : Spool × List Effect := (s.step a).getD (s, [])

/-- Take those of some steps that are possible, one after another. -/
def tryAll (s : Spool) : List Action → Spool × List Effect
  | [] => (s, [])
  | a :: rest =>
    let (s, effects) := s.tryStep a
    let (s, more) := s.tryAll rest
    (s, effects ++ more)

/-- A number for a call that is going to wait. -/
def newCall (s : Spool) : Nat := max s.waiters.unused s.shutdowns.unused

/-- No call that waits has that number. -/
theorem isFresh_newCall (s : Spool) : s.isFresh s.newCall = true :=
  isFresh_iff.mpr ⟨Calls.find?_of_unused_le (Nat.le_max_left _ _),
    Calls.find?_of_unused_le (Nat.le_max_right _ _)⟩

/-- The steps that close a spool, and report it if that is news. -/
def closeSteps : List Action := [.close, .announce]

/-- The steps that start to shut a spool down: it is closed, that is reported if it is
news, and the call gets ready to wait. -/
def shutdownSteps (call : Nat) : List Action :=
  [.shutdown call, .pursue call, .announce, .pursue call]

/-- A call whose time is up stops, and says how many slots are taken. -/
def expire (s : Spool) (call : Nat) : Polled :=
  let (t, effects) := s.tryStep (.abandon call)
  ⟨t, effects, some (.error (.drainTimeout s.pending))⟩

/-- Poll a call that waits until no slot is taken.  If it was woken it looks again, and
does not remember that there was a reason to wake it. -/
def pollDrain (s : Spool) (call : Nat) (late : Bool) : Polled :=
  let (s, effects) := s.tryAll [.rearm call, .look call]
  if effects.contains (.drained call) then ⟨s, effects, some (.ok ())⟩
  else if late then s.expire call
  else ⟨s, effects, none⟩

/-- Poll a call that waits for the worker's end. -/
def pollWorker (s : Spool) (call : Nat) (late : Bool) : Polled :=
  let (s, effects) := s.tryStep (.pursue call)
  if effects.contains (.shutDown call) then ⟨s, effects, some (.ok ())⟩
  else if late then s.expire call
  else ⟨s, effects, none⟩

/-- A call that has found no slot taken asks for the right to wait for the worker's end,
and waits for it if it gets that. -/
def joinWorker (s : Spool) (call : Nat) (late : Bool) : Polled :=
  let (s, effects) := s.tryStep (.pursue call)
  if effects.contains (.shutDown call) then ⟨s, effects, some (.ok ())⟩
  else
    let polled := s.pollWorker call late
    { polled with effects := effects ++ polled.effects }

/-- Poll a call that shuts a spool down and still drains it. -/
def pollShutdown (s : Spool) (call : Nat) (late : Bool) : Polled :=
  let drained := s.pollDrain call late
  match drained.result? with
  | some (.ok ()) =>
    let polled := drained.spool.joinWorker call late
    { polled with effects := drained.effects ++ polled.effects }
  | _ => drained

/-- Poll a call that waits, at an instant that may be too late for it. -/
def poll (s : Spool) (call : Nat) (late : Bool) : Polled :=
  match s.shutdowns.find? call with
  | some .draining => s.pollShutdown call late
  | some .joining => s.pollWorker call late
  | some _ => ⟨s, [], none⟩
  | none => s.pollDrain call late

end Spool

end LogSpool

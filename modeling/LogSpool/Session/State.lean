import LogSpool.Counter
import LogSpool.Files
import LogSpool.Recorder
import LogSpool.Settings
import LogSpool.Sink.Behaviour
import LogSpool.Sink.Stream
import LogSpool.Spool.Step
set_option autoImplicit false

/-!
# Sessions: the state

A session is a whole program that logs: its spools with their sinks and counters, the
handles to them, who records events, files, console and environment, and a clock that
moves only when everything waits.  One thread runs everything: the worker of each
spool and each deferred action is a task, and tasks take turns.
-/

namespace LogSpool

/-- A sink. -/
inductive SinkKind where
  /-- A sink that does as its script says. -/
  | scripted (script : Script)
  /-- A sink that keeps every record in memory. -/
  | memory
  /-- A sink that takes every record and keeps none. -/
  | noop
  /-- A sink over a stream. -/
  | stream (throttle : Throttle)
  /-- Standard output. -/
  | stdout
  /-- Standard error. -/
  | stderr
  /-- An open file. -/
  | file (place : Place)
  /-- A collector that numbers the records and prints them under its name. -/
  | collector (name : String)
  deriving DecidableEq, Repr, Inhabited

/-- A sink and what has happened to it. -/
structure SinkState where
  kind : SinkKind
  /-- The write calls so far. -/
  attempts : Nat := 0
  /-- The flush calls so far. -/
  flushes : Nat := 0
  /-- The sink was let go. -/
  gone : Bool := false
  gate : Gate := {}
  /-- What a sink in memory or over a stream has taken, in order. -/
  kept : Array Bytes := #[]
  throttle : ThrottleState := {}
  deriving Inhabited

/-- A spool with everything around it. -/
structure Station where
  spool : Spool
  sink : Nat
  droppedCounter : CounterId
  writtenCounter : CounterId
  /-- The sink is called through a wrapper that holds up a panic in the call itself. -/
  boxed : Bool
  /-- How far the worker's call on the sink has come. -/
  progress : Progress := .none
  deriving Inhabited

/-- Something to be done at a later time. -/
inductive DeferredAction where
  | write (station : Nat) (record : Bytes)
  | close (station : Nat)
  | permits (sink : Nat) (count : Nat)
  /-- It was asked of a handle that does not exist. -/
  | impossible
  deriving DecidableEq, Repr, Inhabited

/-- The station that a deferred action holds a handle to until it is done. -/
def DeferredAction.station? : DeferredAction → Option Nat
  | write station _ | close station => some station
  | permits _ _ | impossible => none

/-- What came of a deferred action. -/
inductive DeferredResult where
  | done
  | written (count : Nat)
  | closed
  | impossible
  deriving DecidableEq, Repr, Inhabited

/-- A deferred action and its time. -/
structure Deferred where
  due : Nat
  action : DeferredAction
  deriving DecidableEq, Repr, Inhabited

/-- What takes turns. -/
inductive Task where
  /-- The worker of a station. -/
  | worker (station : Nat)
  /-- A deferred action, by number. -/
  | deferred (number : Nat)
  deriving DecidableEq, Repr, Inhabited

/-- The tasks that wait for their turn.  Those that were woken while a step waits go
before all that were woken by a step that does not wait. -/
structure Turns where
  inner : List Task := []
  outer : List Task := []
  deriving DecidableEq, Repr, Inhabited

namespace Turns

/-- The task waits for its turn. -/
def contains (t : Turns) (task : Task) : Bool := t.inner.contains task || t.outer.contains task

/-- Put a task at the end of its line, unless it stands in one already. -/
def add (t : Turns) (inside : Bool) (task : Task) : Turns :=
  if t.contains task then t
  else if inside then { t with inner := t.inner ++ [task] }
  else { t with outer := t.outer ++ [task] }

/-- The task whose turn it is, and those that still wait. -/
def next? (t : Turns) : Option (Task × Turns) :=
  match t.inner, t.outer with
  | task :: rest, _ => some (task, { t with inner := rest })
  | [], task :: rest => some (task, { t with outer := rest })
  | [], [] => none

end Turns

/-- Who records the events of the program. -/
structure Observers where
  /-- A recorder, and the station whose spool takes its lines. -/
  recorder : Option (Nat × Recorder) := none
  /-- A station whose spool takes the plain lines of all events. -/
  plain : Option Nat := none
  /-- Plain lines of all events are printed to standard output. -/
  console : Bool := false
  deriving DecidableEq, Repr, Inhabited

/-- A program that logs. -/
structure Session where
  /-- Milliseconds since the session began. -/
  now : Nat := 0
  registry : Registry := {}
  stations : Array Station := #[]
  /-- The station of each handle; none once the handle is dropped. -/
  handles : Array (Option Nat) := #[]
  sinks : Array SinkState := #[]
  /-- The sink of each number that sinks are known by. -/
  sinkNumbers : Array Nat := #[]
  /-- The sinks used directly; none once used up. -/
  direct : Array (Option Nat) := #[]
  ready : Turns := {}
  /-- A step is under way that waits, so that tasks can take their turns. -/
  inside : Bool := false
  /-- The deferred actions that are not done, by number. -/
  deferred : List (Nat × Deferred) := []
  /-- The number of the next deferred action. -/
  nextNumber : Nat := 0
  observers : Observers := {}
  /-- A pipeline for the whole program is installed. -/
  installed : Bool := false
  /-- The counts of the latest recorder that was set up by hand. -/
  tally : Option Tally := none
  /-- The buffer that all recorders share. -/
  buffer : LineBuffer := {}
  files : Files := .empty
  stdout : Array Bytes := #[]
  stderr : Array Bytes := #[]
  environment : Environment := .empty
  /-- Diagnostics since the step began, the latest first. -/
  diagnostics : List Diagnostic := []
  /-- Results of deferred actions since the step began, the latest first. -/
  late : List DeferredResult := []

namespace Session

/-- The instant at which a session begins; the clock of events starts there. -/
def epoch : Time.Stamp := ⟨1714564800, 123456789⟩

/-- The time of an event that happens now. -/
def stamp (s : Session) : Time.Stamp :=
  ⟨epoch.seconds + (s.now / 1000 : Nat), epoch.nanos + s.now % 1000 * 1000000⟩

/-- Let a task have a turn. -/
def enqueue (s : Session) (task : Task) : Session :=
  { s with ready := s.ready.add s.inside task }

/-- Change a station. -/
def modifyStation (s : Session) (i : Nat) (f : Station → Station) : Session :=
  { s with stations := s.stations.modify i f }

/-- The spool of a station is in another state. -/
def putSpool (s : Session) (i : Nat) (spool : Spool) : Session :=
  s.modifyStation i fun station => { station with spool }

/-- Change a sink. -/
def modifySink (s : Session) (j : Nat) (f : SinkState → SinkState) : Session :=
  { s with sinks := s.sinks.modify j f }

/-- The station of a handle. -/
def station? (s : Session) (handle : Nat) : Option Nat := (s.handles[handle]?).join

/-- The worker looks for work and would find some. -/
def hasWork (s : Session) (i : Nat) : Bool :=
  match s.stations[i]? with
  | some station =>
    station.spool.worker == .idle && (station.spool.channel.size != 0 || station.spool.isSealed)
  | none => false

/-- Let the worker of a station have a turn if there is something for it to do. -/
def wakeWorker (s : Session) (i : Nat) : Session :=
  if s.hasWork i then s.enqueue (.worker i) else s

end Session

end LogSpool

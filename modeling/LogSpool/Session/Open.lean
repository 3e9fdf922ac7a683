import LogSpool.Address
import LogSpool.Session.Clock
set_option autoImplicit false

/-!
# Sessions: opening sinks and starting pipelines

Sinks are opened from a description or a backend, spools are started over them, and a
whole pipeline (a spool, a recorder and perhaps the console) is installed once for the
program.
-/

namespace LogSpool.Session

/-- A sink to be opened. -/
inductive SinkSpec where
  | scripted (script : Script)
  | memory
  | noop
  | stream (throttle : Throttle)
  /-- The sink of a backend. -/
  | dsn (dsn : String)
  /-- A collector with a name. -/
  | collector (name : String)
  deriving DecidableEq, Repr, Inhabited

/-- Why a sink could not be opened from a description. -/
inductive SinkError where
  | dsn (cause : DsnError)
  | backend (cause : OpenError)
  deriving DecidableEq, Repr, Inhabited

/-- Open the sink of a backend. -/
def openBackend (s : Session) (backend : Backend) : Session × Except OpenError SinkKind :=
  match backend.kind with
  | .stdout => (s, .ok .stdout)
  | .stderr => (s, .ok .stderr)
  | .noop => (s, .ok .noop)
  | .tcp =>
    match Address.connect backend.target with
    | .ok () => (s, .ok .noop)
    | .error e => (s, .error (.io e))
  | .file =>
    match s.files.openAppend backend.target with
    | .ok (place, files) => ({ s with files }, .ok (.file place))
    | .error e => (s, .error (.io e))

/-- The sink of a description. -/
def openSpec (s : Session) : SinkSpec → Session × Except SinkError SinkKind
  | .scripted script => (s, .ok (.scripted script))
  | .memory => (s, .ok .memory)
  | .noop => (s, .ok .noop)
  | .stream throttle => (s, .ok (.stream throttle))
  | .collector name => (s, .ok (.collector name))
  | .dsn dsn =>
    match Backend.parse dsn with
    | .error e => (s, .error (.dsn e))
    | .ok backend =>
      match s.openBackend backend with
      | (s, .error e) => (s, .error (.backend e))
      | (s, .ok kind) => (s, .ok kind)

/-- Add a sink. -/
def addSink (s : Session) (kind : SinkKind) : Session × Nat :=
  ({ s with sinks := s.sinks.push { kind } }, s.sinks.size)

/-- Give a sink the next number. -/
def numberSink (s : Session) (j : Nat) : Session × Nat :=
  ({ s with sinkNumbers := s.sinkNumbers.push j }, s.sinkNumbers.size)

/-- Open a sink from a description and give it a number.  A number is used up also when
the sink cannot be opened; a sink that holds nothing has it then. -/
def openNumbered (s : Session) (spec : SinkSpec) : Session × Nat × Except SinkError Nat :=
  let (s, result) := s.openSpec spec
  let (s, j) := s.addSink (match result with
    | .ok kind => kind
    | .error _ => .noop)
  let (s, number) := s.numberSink j
  (s, number, result.map fun _ => j)

/-- Find or create the counters of a spool. -/
def resolveCounters (s : Session) (settings : SpoolSettings) : Session × CounterId × CounterId :=
  let (dropped, registry) := s.registry.getOrCreate settings.droppedCounter
  let (written, registry) := registry.getOrCreate settings.writtenCounter
  ({ s with registry }, dropped, written)

/-- Start a spool over a sink. -/
def startStation (s : Session) (j : Nat) (settings : SpoolSettings) (boxed : Bool) :
    Session × Nat :=
  let (s, droppedCounter, writtenCounter) := s.resolveCounters settings
  let i := s.stations.size
  let station : Station :=
    { spool := Spool.start settings.slots, sink := j, droppedCounter, writtenCounter, boxed }
  ({ s with stations := s.stations.push station }.enqueue (.worker i), i)

/-- Give a station a handle. -/
def addHandle (s : Session) (i : Nat) : Session × Nat :=
  ({ s with handles := s.handles.push (some i) }, s.handles.size)

/-! ## Observers -/

/-- Let go of the handle that the present recorder or plain writer holds. -/
def releaseObservers (s : Session) : Session :=
  let held := (s.observers.recorder.map (·.1)).toList ++ s.observers.plain.toList
  let s := { s with
    tally := match s.observers.recorder with
      | some (_, recorder) => some recorder.tally
      | none => s.tally
    observers := {} }
  held.foldl release s

/-- Record events through the spool of a station. -/
def observe (s : Session) (i : Nat) (recorder : Recorder) : Session :=
  let s := (s.retain i).releaseObservers
  { s with observers := { recorder := some (i, recorder) }, tally := none }

/-- Write plain lines of events to the spool of a station. -/
def observePlainly (s : Session) (i : Nat) : Session :=
  let s := (s.retain i).releaseObservers
  { s with observers := { plain := some i } }

/-- The counts of the latest recorder that was set up. -/
def currentTally (s : Session) : Option Tally :=
  if s.installed then s.tally
  else match s.observers.recorder with
    | some (_, recorder) => some recorder.tally
    | none => s.tally

/-! ## The pipeline of the program -/

/-- The recorder of a pipeline. -/
def recorderOf (settings : Settings) : Recorder :=
  { threshold := settings.threshold, serviceName := settings.serviceName }

/-- Start a pipeline over a sink and install it, once for the program.  Where one is
installed already the new spool is let go again at once. -/
def install (s : Session) (j : Nat) (settings : Settings) : Session × Except InitError Nat :=
  let (s, i) := s.startStation j settings.spool true
  if s.installed then (s.release i, .error .alreadyInstalled)
  else
    let s := s.retain i
    ({ s with
      installed := true
      observers := { recorder := some (i, recorderOf settings), console := settings.console } }, .ok i)

/-- Start and install the pipeline that the environment asks for. -/
def installFromEnvironment (s : Session) : Session × Except InitError Nat :=
  match Backend.parse (s.environment.textOr Settings.dsnKey Settings.defaultDsn) with
  | .error e => (s, .error (.dsn e))
  | .ok backend =>
    match s.openBackend backend with
    | (s, .error e) => (s, .error (.backend e))
    | (s, .ok kind) =>
      let (s, j) := s.addSink kind
      s.install j (Settings.forBackend backend.kind s.environment)

end LogSpool.Session

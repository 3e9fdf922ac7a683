import LogSpool.Session.Step
import LogSpool.Text.Line
import LogSpool.Time.Reader
set_option autoImplicit false

/-!
# Sessions: reports

What can be seen of a session without changing it: the state of a spool, the calls made
to a sink, and the bytes and lines that it has kept.
-/

namespace LogSpool

/-- What a sink keeps in memory. -/
def SinkState.memory (sink : SinkState) : Bytes :=
  match sink.kind with
  | .scripted _ | .memory => sink.kept.toList.flatten
  | _ => []

end LogSpool

namespace LogSpool.Session

/-- What can be seen of a station. -/
def stationReport (s : Session) (i : Nat) : Option StationReport :=
  (s.stations[i]?).map fun station =>
    { pending := station.spool.pending
      dropped := s.registry.value station.droppedCounter
      written := s.registry.value station.writtenCounter
      closed := station.spool.closed
      healthy := station.spool.healthy }

/-- The capacity of a station. -/
def capacity (s : Session) (i : Nat) : Nat :=
  match s.stations[i]? with
  | some station => station.spool.capacity
  | none => 0

/-- The structure of a handle as text, on one line or spread over several. -/
def inspectStation (s : Session) (i : Nat) (spread : Bool) : String :=
  match s.stations[i]?, s.stationReport i with
  | some station, some report =>
    let fields :=
      [("capacity", toString station.spool.capacity), ("pending", toString report.pending),
        ("dropped", toString report.dropped),
        ("closed", if report.closed then "true" else "false")].map fun f => f.1 ++ ": " ++ f.2
    if spread then
      "AsyncWriter \x7b\n" ++ String.join (fields.map fun f => "    " ++ f ++ ",\n") ++ "\x7d"
    else "AsyncWriter \x7b " ++ ", ".intercalate fields ++ " \x7d"
  | _, _ => ""

/-- The sink of a number. -/
def sinkOf (s : Session) (number : Nat) : SinkState :=
  ((s.sinkNumbers[number]?).bind (s.sinks[·]?)).getD { kind := .noop }

/-- What can be seen of a sink; only scripted ones tell of the calls made to them. -/
def sinkReport (sink : SinkState) (brief : Bool) : Result :=
  let memory := sink.memory
  let size := if brief then none else some memory.length
  match sink.kind with
  | .scripted _ => .sink sink.attempts sink.flushes sink.gone size memory.isEmpty
  | _ => .sink 0 0 false size memory.isEmpty

/-- What can be seen of the stream behind a sink. -/
def streamReport (sink : SinkState) : Result :=
  match sink.kind with
  | .stream _ =>
    .stream sink.kept.toList.flatten sink.throttle.writes sink.throttle.flushes
  | _ => .stream [] 0 0

/-- Lines with their time stamps masked. -/
def maskLines (lines : List String) : List String :=
  lines.map fun line => String.ofList (Time.maskLine line.toList)

/-- The lines of some bytes, with their time stamps masked if asked for. -/
def linesOf (masked : Bool) (bytes : Bytes) : List String :=
  if masked then maskLines (Text.linesOfBytes bytes) else Text.linesOfBytes bytes

end LogSpool.Session

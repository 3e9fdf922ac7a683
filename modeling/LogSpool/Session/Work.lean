import LogSpool.Session.Observe
set_option autoImplicit false

/-!
# Sessions: the work of the tasks

What the worker of a station does when it has a turn: it goes on until it has to wait
for a record, for time to pass or for a permit.  `settle` gives every task its turns
until all of them wait; no time passes meanwhile.
-/

namespace LogSpool.Session

/-! ## Sinks -/

/-- What a collector prints before a record. -/
def collectorTag (name : String) (number : Nat) : String :=
  "[" ++ name ++ " #" ++ toString number ++ "]"

/-- A sink deals with a record that was handed on to it. -/
def acceptRecord (s : Session) (j : Nat) (record : Bytes) : Session × Outcome :=
  let whole := Outcome.returned record.length
  let keep (s : Session) (bytes : Bytes) :=
    s.modifySink j fun sink => { sink with kept := sink.kept.push bytes }
  match s.sinks[j]? with
  | none => (s, whole)
  | some sink =>
    match sink.kind with
    | .scripted script => (if script.keeps then keep s record else s, whole)
    | .memory => (keep s record, whole)
    | .noop => (s, whole)
    | .stream throttle =>
      let written := Stream.writeAll throttle.write sink.throttle record
      let s := keep s written.taken
      (s.modifySink j fun sink => { sink with throttle := written.stream },
        match written.failure? with
        | some error => .failed error
        | none => whole)
    | .stdout => ({ s with stdout := s.stdout.push record }, whole)
    | .stderr => ({ s with stderr := s.stderr.push record }, whole)
    | .file place => ({ s with files := s.files.append place record }, whole)
    | .collector name =>
      let tag := utf8 (collectorTag name sink.attempts ++ " ")
      let bytes := tag ++ Utf8.encode (Utf8.decodeLossy record)
      ({ s with stdout := s.stdout.push bytes }, whole)

/-- A sink flushes what stands behind it. -/
def flushSink (s : Session) (j : Nat) : Session × FlushOutcome :=
  match s.sinks[j]? with
  | none => (s, .done)
  | some sink =>
    match sink.kind with
    | .stream throttle =>
      let (error, state) := throttle.flush sink.throttle
      (s.modifySink j fun sink => { sink with throttle := state },
        match error with
        | some error => .failed error
        | none => .done)
    | _ => (s, .done)

/-- Bring a write call on a sink to its end. -/
def endWriteCall (s : Session) (j : Nat) (record : Bytes) : Ending → Session × Outcome
  | .forward => s.acceptRecord j record
  | .fail error => (s, .failed error)
  | .panic payload => (s, .panicked payload)
  | .count n => (s, .returned n)
  | .short n => (s, .returned (record.length - n))

/-- Bring a flush call on a sink to its end; it has no count to report. -/
def endFlushCall (s : Session) (j : Nat) : Ending → Session × FlushOutcome
  | .forward => s.flushSink j
  | .fail error => (s, .failed error)
  | .panic payload => (s, .panicked payload)
  | .count _ | .short _ => (s, .done)

/-- Run a call on a sink as far as it goes now. -/
def runCall (s : Session) (j : Nat) (progress : Progress) : Session × (Ending ⊕ Progress) :=
  match s.sinks[j]? with
  | none => (s, .inr progress)
  | some sink =>
    let (result, gate) := progress.run s.now sink.gate
    (s.modifySink j fun sink => { sink with gate }, result)

/-! ## Workers -/

/-- The worker makes its call on the sink.  A panic in the call itself is the end of a
worker that calls its sink without a wrapper. -/
def makeCall (s : Session) (i : Nat) : Session :=
  match s.stations[i]? with
  | some { progress := .ready (.panicAtOnce payload), boxed := false, .. } =>
    s.take i (.lose (.panicked payload))
  | _ => s.take i .await

/-- The worker takes the next record and hands it to the sink. -/
def beginWrite (s : Session) (i : Nat) : Session := (s.take i .receive).makeCall i

/-- The worker starts to flush its sink. -/
def beginFlush (s : Session) (i : Nat) : Session := (s.take i .flush).makeCall i

/-- The worker's call on its sink goes on as far as it can; its end, if it comes to one. -/
def continueCall (s : Session) (i : Nat) (station : Station) : Session × Option Ending :=
  match s.runCall station.sink station.progress with
  | (s, .inl ending) => (s.modifyStation i fun st => { st with progress := .none }, some ending)
  | (s, .inr progress) => (s.modifyStation i fun st => { st with progress }, none)

/-- The next move of a worker, and whether it could make one. -/
def move (s : Session) (i : Nat) : Session × Bool :=
  match s.stations[i]? with
  | none => (s, false)
  | some station =>
    match station.spool.worker with
    | .idle =>
      if station.spool.channel.size != 0 then (s.beginWrite i, true)
      else if station.spool.isSealed then (s.beginFlush i, true)
      else (s, false)
    | .attempting record =>
      match s.continueCall i station with
      | (s, none) => (s, false)
      | (s, some ending) =>
        let (s, outcome) := s.endWriteCall station.sink record ending
        (s.take i (.finish outcome), true)
    | .calling _ | .callingFlush => (s.makeCall i, true)
    | .judging _ _ => (s.take i .judge, true)
    | .releasing =>
      -- No other task has a turn before who waits is woken.
      ((s.take i .release).take i .wake, true)
    | .waking => (s.take i .wake, true)
    | .flushing =>
      match s.continueCall i station with
      | (s, none) => (s, false)
      | (s, some ending) =>
        let (s, outcome) := s.endFlushCall station.sink ending
        (s.take i (.finishFlush outcome), true)
    | .done | .lost _ => (s, false)

/-- The moves of one turn: four for each of 128 records. -/
def turnLength : Nat := 512

/-- A turn of a worker: it moves until it has to wait, or until the turn is over and it
goes to the end of the line. -/
def workerTurn (i : Nat) : Nat → Session → Session
  | 0, s => s.enqueue (.worker i)
  | fuel + 1, s =>
    match s.move i with
    | (s, true) => workerTurn i fuel s
    | (s, false) => s

/-! ## Deferred actions -/

/-- The worker of a station waits at the gate of a sink. -/
def waitsAtGate (station : Station) (j : Nat) : Bool :=
  station.sink == j && match station.progress with
    | .atGate _ => true
    | _ => false

/-- Let the workers that wait at the gate of a sink have a turn. -/
def wakeAtGate (s : Session) (j : Nat) : Session :=
  (List.range s.stations.size).foldl (fun s i =>
    match s.stations[i]? with
    | some station => if waitsAtGate station j then s.enqueue (.worker i) else s
    | none => s) s

/-- Add permits to the gate of a sink, for whoever waits there. -/
def addPermits (s : Session) (j n : Nat) : Session :=
  (s.modifySink j fun sink =>
    { sink with gate := { sink.gate with permits := sink.gate.permits + n } }).wakeAtGate j

/-- Close the gate of a sink; whoever waits there fails. -/
def closeGate (s : Session) (j : Nat) : Session :=
  (s.modifySink j fun sink => { sink with gate := { sink.gate with closed := true } }).wakeAtGate j

/-- Do a deferred action. -/
def perform (s : Session) : DeferredAction → Session × DeferredResult
  | .write i record =>
    match s.write i record with
    | (s, .accepted n) => (s, .written n)
    | (s, .closed) => (s, .closed)
  | .close i => (s.close i, .done)
  | .permits j n => (s.addPermits j n, .done)
  | .impossible => (s, .impossible)

/-- A turn of a deferred action: it is done if its time has come, and gives up its
handle then. -/
def deferredTurn (s : Session) (number : Nat) : Session :=
  match s.deferred.lookup number with
  | none => s
  | some d =>
    if s.now < d.due then s
    else
      let (s, result) := s.perform d.action
      let s := { s with
        late := result :: s.late
        deferred := s.deferred.filter (·.1 != number) }
      match d.action.station? with
      | some i => s.release i
      | none => s

/-! ## Taking turns -/

/-- A turn of a task. -/
def turn (s : Session) : Task → Session
  | .worker i => workerTurn i turnLength s
  | .deferred number => s.deferredTurn number

/-- Give the first task in the line its turn, and so on, for so many turns at most. -/
def turns : Nat → Session → Session
  | 0, s => s
  | fuel + 1, s =>
    match s.ready.next? with
    | none => s
    | some (task, ready) => turns fuel ({ s with ready }.turn task)

/-- The writes that the script of a sink lists. -/
def scripted (sink : SinkState) : Nat :=
  match sink.kind with
  | .scripted script => script.writes.length
  | _ => 0

/-- More turns than the tasks take before all of them wait.  A worker has another turn
when its first is over, which takes queued records, when a record is written, which
takes a deferred action or a change in how a sink behaves, or when permits arrive. -/
def manyTurns (s : Session) : Nat :=
  let queued := s.stations.foldl (fun n station => n + station.spool.channel.size) 0
  let changes := s.sinks.foldl (fun n sink => n + scripted sink + 4) 0
  let waiting := s.ready.inner.length + s.ready.outer.length
  waiting + 4 * (queued + changes) + (s.deferred.length + 1) * (s.stations.size + 8)

/-- Give every task its turns until all of them wait. -/
def settle (s : Session) : Session := turns s.manyTurns s

end LogSpool.Session

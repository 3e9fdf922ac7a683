import LogSpool.Session.Direct
import LogSpool.Session.Output
import LogSpool.Session.Report
set_option autoImplicit false

/-!
# Sessions: playing

`Session.follow` takes one step, `Session.answer` adds what can be seen after it, and
`Session.play` takes all steps of a session from its beginning.
-/

namespace LogSpool.Session

/-! ## Taking a step -/

/-- The complaint about a handle that does not exist or was dropped. -/
def noHandle : Result := .impossible "no such handle"

/-- Do something with the station of a handle. -/
def withStation (s : Session) (handle : Nat) (f : Nat → Session × Result) : Session × Result :=
  match s.station? handle with
  | some i => f i
  | none => (s, noHandle)

/-- Do something with a sink used directly. -/
def withDirect (s : Session) (direct : Nat) (f : Nat → Session × Result) : Session × Result :=
  match (s.direct[direct]?).join with
  | some j => f j
  | none => (s, .impossible "no such sink")

/-- The answer of a call that writes. -/
def replyResult : Reply → Result
  | .accepted n => .count n
  | .closed => .spoolError .closed

/-- The answer of a call that drains. -/
def drainResult : WaitResult → Result
  | .ok () => .ok
  | .error e => .spoolError e

/-- The answer to a sink that could not be opened. -/
def sinkErrorResult : SinkError → Result
  | .dsn e => .dsnError e
  | .backend e => .openError e

/-- Write records one after another; the bytes written and the calls that failed. -/
def writeEach (s : Session) (i : Nat) (records : List Bytes) : Session × Nat × Nat :=
  records.foldl (fun (s, bytes, errors) record =>
    match s.write i record with
    | (s, .accepted n) => (s, bytes + n, errors)
    | (s, .closed) => (s, bytes, errors + 1)) (s, 0, 0)

/-- The lines of the numbers from the first up to, but not including, the last. -/
def numberLines (first last : Int) : List Bytes :=
  (List.range (last - first).toNat).map fun (k : Nat) => utf8 (toString (first + (k : Int)) ++ "\n")

/-- Start a spool over a new sink. -/
def start (s : Session) (spec : SinkSpec) (settings : SpoolSettings) (boxed runtime : Bool) :
    Session × Result :=
  match s.openNumbered spec with
  | (s, _, .error e) => (s, sinkErrorResult e)
  | (s, number, .ok j) =>
    if runtime then
      let (s, i) := s.startStation j settings boxed
      let (s, handle) := s.addHandle i
      (s, .started handle number (s.capacity i))
    else
      -- The counters are found before it shows that nothing can run the worker.
      let s := (s.resolveCounters settings).1
      (s.modifySink j fun sink => { sink with gone := true }, .panicked "no runtime")

/-- The answer to installing a pipeline. -/
def installResult (s : Session) : Except InitError Nat → Session × Result
  | .ok i =>
    let (s, handle) := s.addHandle i
    (s, .installed handle (s.capacity i))
  | .error e => (s, .initError e)

/-- Put an action off. -/
def defer (s : Session) (ms : Nat) (spec : DeferredSpec) : Session :=
  let action : DeferredAction := match spec with
    | .write handle record =>
      match s.station? handle with
      | some i => .write i record
      | none => .impossible
    | .close handle =>
      match s.station? handle with
      | some i => .close i
      | none => .impossible
    | .permits number count => .permits ((s.sinkNumbers[number]?).getD s.sinks.size) count
  let s := match action.station? with
    | some i => s.retain i
    | none => s
  let number := s.nextNumber
  { s with
    nextNumber := number + 1
    deferred := (number, ⟨s.now + ms, action⟩) :: s.deferred }.enqueue (.deferred number)

/-- Take a step. -/
def follow (s : Session) : Step → Session × Result
  | .start spec settings boxed runtime => s.start spec settings boxed runtime
  | .write handle record => s.withStation handle fun i =>
    let (s, reply) := s.write i record
    (s, replyResult reply)
  | .writeNumbers handle first last => s.withStation handle fun i =>
    let (s, bytes, errors) := s.writeEach i (numberLines first last)
    (s, .wrote bytes errors)
  | .writeRepeated handle threads each record => s.withStation handle fun i =>
    let calls := threads * each
    let (s, _, errors) := s.writeEach i (List.replicate calls record)
    (s, .accepted (calls - errors))
  | .output handle method bytes => s.withStation handle fun i => s.output i method bytes
  | .close handle => s.withStation handle fun i => (s.close i, .ok)
  | .drain handle timeout => s.withStation handle fun i =>
    let (s, result) := s.drain i timeout
    (s, drainResult result)
  | .drainMany handle timeouts => s.withStation handle fun i =>
    let (s, results) := s.drainMany i timeouts
    (s, .many (results.map drainResult))
  | .drainOrGiveUp handle timeout after => s.withStation handle fun i =>
    match s.drainOrGiveUp i timeout after with
    | (s, some result) => (s, drainResult result)
    | (s, none) => (s, .cancelled)
  | .shutdown handle timeout => s.withStation handle fun i =>
    match timeout with
    | .ms ms =>
      let (s, result) := s.shutdown i ms
      (s, drainResult result)
    | .forever => (s, .panicked "overflow when adding duration to instant")
  | .settle => (s.settle, .ok)
  | .advance ms => (s.advance ms, .ok)
  | .state handle => s.withStation handle fun _ => (s, .ok)
  | .inspect handle spread => s.withStation handle fun i => (s, .text (s.inspectStation i spread))
  | .clone handle => s.withStation handle fun i =>
    let (s, handle) := (s.retain i).addHandle i
    (s, .handle handle)
  | .drop handle => s.withStation handle fun i =>
    ({ s with handles := s.handles.set! handle none }.release i, .ok)
  | .permits number count =>
    (s.addPermits ((s.sinkNumbers[number]?).getD s.sinks.size) count, .ok)
  | .closeGate number => (s.closeGate ((s.sinkNumbers[number]?).getD s.sinks.size), .ok)
  | .defer ms action => (s.defer ms action, .ok)
  | .stopTasks => (s.stopTasks, .ok)
  | .sink number brief => (s, sinkReport (s.sinkOf number) brief)
  | .contents number => (s, .bytes ((s.sinkOf number).memory))
  | .lines number masked => (s, .lines (linesOf masked ((s.sinkOf number).memory)))
  | .stream number => (s, streamReport (s.sinkOf number))
  | .openDirect spec =>
    match s.openNumbered spec with
    | (s, _, .error e) => (s, sinkErrorResult e)
    | (s, number, .ok j) =>
      ({ s with direct := s.direct.push (some j) }, .direct s.direct.size number)
  | .writeDirect direct record => s.withDirect direct fun j => s.writeDirect j record
  | .flushDirect direct => s.withDirect direct fun j => s.flushDirect j
  | .unwrapDirect direct => s.withDirect direct fun j =>
    let used := s.useUpDirect direct j
    match s.sinks[j]? with
    | some { kind := .stream _, kept, .. } => (used, .bytes kept.toList.flatten)
    | _ => (used, .impossible "not a stream")
  | .dropDirect direct => s.withDirect direct fun j => (s.useUpDirect direct j, .ok)
  | .counterAdd name n =>
    let (id, registry) := s.registry.getOrCreate name
    let registry := registry.increment id n
    ({ s with registry }, .value (registry.value id))
  | .counterValue name =>
    let (id, registry) := s.registry.getOrCreate name
    ({ s with registry }, .value (registry.value id))
  | .counterRun increments => (s, .values (Counter.runningValues {} increments))
  | .counterSame a b =>
    let (first, registry) := s.registry.getOrCreate a
    let (second, registry) := registry.getOrCreate b
    ({ s with registry }, .flag (first == second))
  | .snapshot => (s, .snapshot s.registry.snapshot)
  | .observe handle threshold serviceName => s.withStation handle fun i =>
    let s := s.observe i { threshold, serviceName }
    (s, .observed (s.capacity i))
  | .observePlainly handle => s.withStation handle fun i => (s.observePlainly i, .ok)
  | .unobserve => (s.releaseObservers, .ok)
  | .tally =>
    match s.currentTally with
    | some tally => (s, .tally tally)
    | none => (s, .nothing)
  | .event e => (s.emit e, .ok)
  | .setEnvironment values =>
    let s := { s with environment := s.environment.setAll values }
    (s, .settings (Settings.fromEnvironment s.environment))
  | .install spec settings =>
    match s.openNumbered spec with
    | (s, _, .error e) => (s, sinkErrorResult e)
    | (s, _, .ok j) =>
      let (s, result) := s.install j settings
      s.installResult result
  | .installFromEnvironment =>
    let (s, result) := s.installFromEnvironment
    s.installResult result
  | .console =>
    ({ s with stdout := #[], stderr := #[] },
      .console (linesOf true s.stdout.toList.flatten) (linesOf true s.stderr.toList.flatten))
  | .makeDirectory path =>
    match s.files.makeDirectory path with
    | .ok files => ({ s with files }, .ok)
    | .error e => (s, .ioError e)
  | .putFile path content =>
    match s.files.replaceFile path content with
    | .ok files => ({ s with files }, .ok)
    | .error e => (s, .ioError e)
  | .fetchFile path masked =>
    match s.files.read path with
    | .ok bytes => (s, if masked then .lines (linesOf true bytes) else .bytes bytes)
    | .error e => (s, .ioError e)

/-! ## Looking around -/

/-- The whole answer to a step. -/
structure Answer where
  result : Result
  time : Nat
  /-- What the handle of the step shows, for a step that has one; nothing if that
  handle does not exist. -/
  report : Option (Option StationReport)
  diagnostics : List Diagnostic
  late : List DeferredResult
  deriving Inhabited

/-- Take a step and look around. -/
def answer (s : Session) (step : Step) : Session × Answer :=
  let (s, result) := { s with inside := step.waits, diagnostics := [], late := [] }.follow step
  let handle := step.handle?.or result.handle?
  -- A step that creates a handle shows the new one.
  let handle := result.handle?.or handle
  (s, { result
        time := s.now
        report := handle.map fun h => (s.station? h).bind s.stationReport
        diagnostics := s.diagnostics.reverse
        late := s.late.reverse })

/-- Take steps one after another. -/
def answers : List Step → Session → List Answer
  | [], _ => []
  | step :: rest, s =>
    let (s, a) := s.answer step
    a :: answers rest s

/-- Play a session from its beginning.  The diagnostics of a program that installs a
pipeline go there alone. -/
def play (steps : List Step) : List Answer :=
  let all := answers steps {}
  if steps.any Step.installs then all.map fun a => { a with diagnostics := [] } else all

end LogSpool.Session

import LogSpool.Event.Line
import LogSpool.Session.State
import LogSpool.Spool.Poll
set_option autoImplicit false

/-!
# Sessions: steps, counts and events

A step of a spool is carried through the session: what it counts goes to the
counters, and what it reports is an event that whoever records events gets, perhaps to
write it to a spool in turn.
-/

namespace LogSpool.Session

/-- Count a record at a station. -/
def count (s : Session) (i : Nat) (fate : Fate) : Session :=
  match s.stations[i]? with
  | none => s
  | some station =>
    let id := match fate with
      | .written => station.writtenCounter
      | .dropped => station.droppedCounter
    { s with registry := s.registry.increment id 1 }

/-- A step of a station's spool, if it is possible, and its effects. -/
def stepSpool (s : Session) (i : Nat) (a : Action) : Session × List Effect :=
  match s.stations[i]? with
  | none => (s, [])
  | some station =>
    match station.spool.step a with
    | none => (s, [])
    | some (spool, effects) =>
      ({ s with stations := s.stations.modify i fun station => { station with spool } }, effects)

/-! ## Writing a record -/

/-- The number of the call that writes: only one at a time is under way. -/
def writeCall : Nat := 0

/-- The answer among the effects of a step. -/
def reply? (effects : List Effect) : Option Reply :=
  effects.findSome? fun
    | .answered _ reply => some reply
    | _ => none

/-- Count what the effects of a step count. -/
def countAll (s : Session) (i : Nat) (effects : List Effect) : Session :=
  effects.foldl (fun s effect => match effect with
    | .counted _ _ fate => s.count i fate
    | _ => s) s

/-- Take steps of the call that writes until it is answered. -/
def finishWrite (i : Nat) : Nat → Session → Session × Reply
  | 0, s => (s, .closed)
  | fuel + 1, s =>
    let (s, effects) := s.stepSpool i (.advance writeCall)
    let s := s.countAll i effects
    match reply? effects with
    | some reply => (s, reply)
    | none => finishWrite i fuel s

/-- The most steps that a call takes to write after it has entered. -/
def writeSteps : Nat := 5

/-- Write a record to a station's spool. -/
def write (s : Session) (i : Nat) (record : Bytes) : Session × Reply :=
  let (s, effects) := s.stepSpool i (.enter writeCall record)
  match reply? effects with
  | some reply => (s, reply)
  | none =>
    let (s, reply) := finishWrite i writeSteps s
    (s.wakeWorker i, reply)

/-! ## Events -/

/-- Let the recorder have an event. -/
def record (s : Session) (e : Event) : Session :=
  match s.observers.recorder with
  | none => s
  | some (i, recorder) =>
    let recorder := recorder.see
    if recorder.ignores e then
      { s with observers := { s.observers with recorder := some (i, recorder) } }
    else
      let buffer := s.buffer.fill (e.record s.stamp recorder.serviceName)
      let (s, reply) := { s with buffer }.write i buffer.bytes
      let recorder := recorder.offer (reply != .closed)
      { s with observers := { s.observers with recorder := some (i, recorder) } }

/-- The plain line of an event in bytes, with its newline. -/
def plainBytes (e : Event) : Bytes := utf8 (e.plainLine ++ "\n")

/-- Write the plain line of an event where such lines go. -/
def print (s : Session) (e : Event) : Session :=
  let s := match s.observers.plain with
    | some i => (s.write i (plainBytes e)).1
    | none => s
  if s.observers.console then
    let bytes := Utf8.encode (s.stamp.text ++ [' ']) ++ plainBytes e
    { s with stdout := s.stdout.push bytes }
  else s

/-- Let everyone who records events have one. -/
def emit (s : Session) (e : Event) : Session := (s.record e).print e

/-- The spool reports something. -/
def report (s : Session) (d : Diagnostic) : Session :=
  { s with diagnostics := d :: s.diagnostics }.emit d.event

/-! ## Steps with all their effects -/

/-- Start a call of the worker on its sink. -/
def startCall (s : Session) (i : Nat) (behaviour : Behaviour) : Session :=
  s.modifyStation i fun station => { station with progress := .ready behaviour }

/-- Carry one effect of a step through the session. -/
def applyEffect (i : Nat) (s : Session) (effect : Effect) : Session :=
  match effect with
  | .answered _ _ | .queued _ _ | .drained _ | .shutDown _ | .detached => s
  | .counted _ _ fate => s.count i fate
  | .reported d => s.report d
  | .attempted _ =>
    match s.stations[i]? with
    | none => s
    | some station =>
      match s.sinks[station.sink]? with
      | none => s
      | some sink =>
        let behaviour := match sink.kind with
          | .scripted script => script.write sink.attempts
          | _ => .forward
        (s.modifySink station.sink fun sink => { sink with attempts := sink.attempts + 1 }).startCall
          i behaviour
  | .flushed =>
    match s.stations[i]? with
    | none => s
    | some station =>
      match s.sinks[station.sink]? with
      | none => s
      | some sink =>
        let behaviour := match sink.kind with
          | .scripted script => script.flush
          | _ => .forward
        (s.modifySink station.sink fun sink => { sink with flushes := sink.flushes + 1 }).startCall
          i behaviour
  | .released =>
    match s.stations[i]? with
    | none => s
    | some station =>
      (s.modifySink station.sink fun sink => { sink with gone := true }).modifyStation i
        fun station => { station with progress := .none }

/-- Take a step of a station's spool, with all its effects, and say which they were. -/
def takeSeeing (s : Session) (i : Nat) (a : Action) : Session × List Effect :=
  let (s, effects) := s.stepSpool i a
  (effects.foldl (applyEffect i) s, effects)

/-- Take a step of a station's spool, with all its effects. -/
def take (s : Session) (i : Nat) (a : Action) : Session := (s.takeSeeing i a).1

/-- Take those of some steps of a station's spool that are possible, with all their
effects. -/
def takeAll (s : Session) (i : Nat) (actions : List Action) : Session :=
  match s.stations[i]? with
  | none => s
  | some station =>
    let (spool, effects) := station.spool.tryAll actions
    effects.foldl (applyEffect i) (s.putSpool i spool)

/-- Close a station's spool. -/
def close (s : Session) (i : Nat) : Session :=
  ((s.take i .close).take i .announce).wakeWorker i

/-- One more handle to a station. -/
def retain (s : Session) (i : Nat) : Session := s.take i .clone

/-- One handle to a station fewer. -/
def release (s : Session) (i : Nat) : Session := (s.take i .drop).wakeWorker i

end LogSpool.Session

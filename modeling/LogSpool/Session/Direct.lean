import LogSpool.Session.Step
set_option autoImplicit false

/-!
# Sessions: sinks used directly

A sink can be used without a spool.  A call on it waits for its end, and time passes
meanwhile if it has to.
-/

namespace LogSpool.Session

/-- Make one call on a sink and wait for its end. -/
def callDirect (s : Session) (j : Nat) (behaviour : Behaviour) : Session × Option Ending :=
  let look : Look Progress Ending := fun progress s =>
    match s.runCall j progress with
    | (s, .inl ending) => (s, .inr ending)
    | (s, .inr progress) => (s, .inl progress)
  let alarms (progress : Progress) : List Nat := progress.wake?.toList
  s.await look (s.now + farFuture) (.ready behaviour) alarms

/-- The words of a panic that reach whoever called: none unless it carries a text. -/
def panicWords : Payload → String
  | .text s => s
  | .other => ""

/-- Write a record to a sink used directly. -/
def writeDirect (s : Session) (j : Nat) (record : Bytes) : Session × Result :=
  let behaviour := match s.sinks[j]? with
    | some { kind := .scripted script, attempts, .. } => script.write attempts
    | _ => .forward
  let s := s.modifySink j fun sink => { sink with attempts := sink.attempts + 1 }
  match s.callDirect j behaviour with
  | (s, none) => (s, .nothing)
  | (s, some ending) =>
    match s.endWriteCall j record ending with
    | (s, .returned n) => (s, .count n)
    | (s, .failed e) => (s, .sinkError e)
    | (s, .panicked payload) => (s, .panicked (panicWords payload))

/-- Flush a sink used directly. -/
def flushDirect (s : Session) (j : Nat) : Session × Result :=
  let behaviour := match s.sinks[j]? with
    | some { kind := .scripted script, .. } => script.flush
    | _ => .forward
  let s := s.modifySink j fun sink => { sink with flushes := sink.flushes + 1 }
  match s.callDirect j behaviour with
  | (s, none) => (s, .nothing)
  | (s, some ending) =>
    match s.endFlushCall j ending with
    | (s, .done) => (s, .ok)
    | (s, .failed e) => (s, .sinkError e)
    | (s, .panicked payload) => (s, .panicked (panicWords payload))

/-- Use up a sink that was used directly. -/
def useUpDirect (s : Session) (direct j : Nat) : Session :=
  { s with direct := s.direct.set! direct none }.modifySink j
    fun sink => { sink with gone := true }

end LogSpool.Session

import LogSpool.Session.Open
set_option autoImplicit false

/-!
# Sessions: steps and results

The steps that a session can be asked to take, and the forms of what they answer.
-/

namespace LogSpool.Session

/-- How bytes are written through a handle's output interface. -/
inductive OutputMethod where
  /-- One write, which may be of nothing. -/
  | write
  /-- Writes until all bytes are written; none for no bytes. -/
  | writeAll
  /-- A flush, which does nothing. -/
  | flush
  /-- The bytes, a bar and a number, each piece written on its own. -/
  | format (number : Int)
  deriving DecidableEq, Repr, Inhabited

/-- What can be put off. -/
inductive DeferredSpec where
  | write (handle : Nat) (record : Bytes)
  | close (handle : Nat)
  | permits (sink : Nat) (count : Nat)
  deriving DecidableEq, Repr, Inhabited

/-- The steps of a session. -/
inductive Step where
  | start (sink : SinkSpec) (settings : SpoolSettings) (boxed runtime : Bool)
  | write (handle : Nat) (record : Bytes)
  /-- Write the numbers from the first up to, but not including, the last, a line each. -/
  | writeNumbers (handle : Nat) (first last : Int)
  /-- Write the same record again and again, from several threads. -/
  | writeRepeated (handle threads each : Nat) (record : Bytes)
  | output (handle : Nat) (method : OutputMethod) (bytes : Bytes)
  | close (handle : Nat)
  | drain (handle : Nat) (timeout : Timeout)
  | drainMany (handle : Nat) (timeouts : List Timeout)
  | drainOrGiveUp (handle : Nat) (timeout : Timeout) (after : Nat)
  | shutdown (handle : Nat) (timeout : Timeout)
  | settle
  | advance (ms : Nat)
  | state (handle : Nat)
  | inspect (handle : Nat) (spread : Bool)
  | clone (handle : Nat)
  | drop (handle : Nat)
  | permits (sink count : Nat)
  | closeGate (sink : Nat)
  | defer (ms : Nat) (action : DeferredSpec)
  | stopTasks
  | sink (sink : Nat) (brief : Bool)
  | contents (sink : Nat)
  | lines (sink : Nat) (masked : Bool)
  | stream (sink : Nat)
  | openDirect (sink : SinkSpec)
  | writeDirect (direct : Nat) (record : Bytes)
  | flushDirect (direct : Nat)
  | unwrapDirect (direct : Nat)
  | dropDirect (direct : Nat)
  | counterAdd (name : String) (n : UInt64)
  | counterValue (name : String)
  | counterRun (increments : List UInt64)
  | counterSame (a b : String)
  | snapshot
  | observe (handle : Nat) (threshold : Severity) (serviceName : Option String)
  | observePlainly (handle : Nat)
  | unobserve
  | tally
  | event (event : Event)
  | setEnvironment (values : List (String × Bytes))
  | install (sink : SinkSpec) (settings : Settings)
  | installFromEnvironment
  | console
  | makeDirectory (path : String)
  | putFile (path : String) (content : Bytes)
  | fetchFile (path : String) (masked : Bool)
  deriving Inhabited

/-- What a step answers. -/
inductive Result where
  | ok
  /-- There is nothing to tell. -/
  | nothing
  | count (n : Nat)
  | value (n : UInt64)
  | values (ns : List UInt64)
  | flag (b : Bool)
  | text (s : String)
  | lines (lines : List String)
  | bytes (bytes : Bytes)
  | cancelled
  | many (results : List Result)
  | started (handle sink : Nat) (capacity : Nat)
  | installed (handle : Nat) (capacity : Nat)
  | handle (handle : Nat)
  | observed (capacity : Nat)
  | direct (direct sink : Nat)
  /-- The bytes written, and the number of calls that failed. -/
  | wrote (bytes errors : Nat)
  | accepted (calls : Nat)
  | sink (attempts flushes : Nat) (gone : Bool) (size : Option Nat) (empty : Bool)
  | stream (taken : Bytes) (writes flushes : Nat)
  | snapshot (counters : List (String × UInt64))
  | tally (tally : Tally)
  | settings (settings : Settings)
  | console (stdout stderr : List String)
  | spoolError (error : SpoolError)
  | ioError (error : IoError)
  | dsnError (error : DsnError)
  | openError (error : OpenError)
  | initError (error : InitError)
  /-- A call on a sink used directly failed. -/
  | sinkError (error : String)
  /-- The step panicked. -/
  | panicked (words : String)
  /-- The step makes no sense here. -/
  | impossible (why : String)
  deriving Inhabited

/-- What a handle shows of its spool. -/
structure StationReport where
  pending : Nat
  dropped : UInt64
  written : UInt64
  closed : Bool
  healthy : Bool
  deriving DecidableEq, Repr, Inhabited

/-- The step waits, so that tasks take their turns. -/
def Step.waits : Step → Bool
  | .drain _ _ | .drainMany _ _ | .drainOrGiveUp _ _ _ | .shutdown _ _ | .settle | .advance _
  | .writeDirect _ _ | .flushDirect _ => true
  | _ => false

/-- The handle that a step is about. -/
def Step.handle? : Step → Option Nat
  | .write h _ | .writeNumbers h _ _ | .writeRepeated h _ _ _ | .output h _ _ | .close h
  | .drain h _ | .drainMany h _ | .drainOrGiveUp h _ _ | .shutdown h _ | .state h
  | .inspect h _ | .clone h | .drop h | .observe h _ _ | .observePlainly h => some h
  | _ => none

/-- The handle that a step has created. -/
def Result.handle? : Result → Option Nat
  | .started h _ _ | .installed h _ | .handle h => some h
  | _ => none

/-- The step installs a pipeline for the whole program. -/
def Step.installs : Step → Bool
  | .install _ _ | .installFromEnvironment => true
  | _ => false

end LogSpool.Session

import LogSpool.Feed
import LogSpool.Session.Output
set_option autoImplicit false

/-!
# Outlets

Any number of threads use the output interface of one spool, each through a handle of its own or
through one that it shares.  A call writes some bytes once, or all of several pieces: it offers the
first piece that is left to the spool, drops as many bytes of it as the spool says it took, and
offers what is left then, until nothing is or the spool is closed.  An empty piece is never offered.

`Outlet.step` is one atomic step of such a thread, or of the spool with its worker and everybody
else who holds a handle to it.
-/

namespace LogSpool

/-- A call of the output interface. -/
inductive OutputRequest where
  /-- Write some bytes once. -/
  | write (bytes : Bytes)
  /-- Write all of some bytes. -/
  | writeAll (bytes : Bytes)
  /-- Write all of several pieces, up to the first that fails. -/
  | format (pieces : List Bytes)
  /-- Hold nothing back. -/
  | flush
  deriving DecidableEq, Repr, Inhabited

/-- What a call of the output interface gives. -/
inductive OutputResult where
  /-- So many bytes were taken. -/
  | count (n : Nat)
  | done
  | failed (error : IoError)
  deriving DecidableEq, Repr, Inhabited

/-- What a call of the output interface has still to do. -/
inductive OutputPlan where
  /-- Write some bytes once. -/
  | once (bytes : Bytes)
  /-- Write all of several pieces. -/
  | all (pieces : List Bytes)
  /-- Give its result. -/
  | ended (result : OutputResult)
  deriving DecidableEq, Repr, Inhabited

/-- What a call has to do at first.  There is nothing to hold back. -/
def OutputRequest.plan : OutputRequest → OutputPlan
  | write bytes => .once bytes
  | writeAll bytes => .all [bytes]
  | format pieces => .all pieces
  | flush => .all []

/-- What a call does next. -/
inductive OutputMove where
  /-- It offers some bytes to the spool. -/
  | offer (bytes : Bytes)
  /-- It ends with a result. -/
  | finish (result : OutputResult)
  deriving DecidableEq, Repr, Inhabited

namespace OutputPlan

/-- What a call does next: it passes over pieces that are empty. -/
def next : OutputPlan → OutputMove
  | once bytes => .offer bytes
  | all pieces =>
    match pieces.dropWhile List.isEmpty with
    | [] => .finish .done
    | piece :: _ => .offer piece
  | ended result => .finish result

/-- What is left of several pieces when so many bytes of the first that is not empty are gone. -/
def rest (pieces : List Bytes) (count : Nat) : List Bytes :=
  match pieces.dropWhile List.isEmpty with
  | [] => []
  | piece :: more => piece.drop count :: more

/-- What a call has to do when its offer is answered. -/
def hear : OutputPlan → Reply → OutputPlan
  | once _, .accepted count => .ended (.count count)
  | all _, .accepted 0 => .ended (.failed .writeZero)
  | all pieces, .accepted (count + 1) => .all (rest pieces (count + 1))
  | once _, .closed | all _, .closed => .ended (.failed Session.closedError)
  | ended result, _ => .ended result

end OutputPlan

/-- A call of the output interface that is under way. -/
structure OutputCall where
  plan : OutputPlan
  /-- It has made an offer that the spool has not answered yet. -/
  writing : Bool := false
  deriving DecidableEq, Repr, Inhabited

/-- A spool and the calls of its output interface that are under way, one for a thread. -/
structure Outlet where
  spool : Spool
  calls : Calls OutputCall := {}
  deriving Inhabited

/-- The steps of an outlet. -/
inductive OutletAction where
  /-- A thread starts a call. -/
  | start (thread : Nat) (request : OutputRequest)
  /-- A thread goes on with its call. -/
  | go (thread : Nat)
  /-- A step of the spool. -/
  | spool (a : Action)
  deriving DecidableEq, Repr, Inhabited

/-- What happens in a call. -/
inductive OutputEvent where
  /-- The call starts. -/
  | asked (request : OutputRequest)
  /-- It offers some bytes to the spool. -/
  | offered (bytes : Bytes)
  /-- The spool answers the offer. -/
  | heard (reply : Reply)
  /-- The call ends. -/
  | finished (result : OutputResult)
  deriving DecidableEq, Repr, Inhabited

/-- What a step of an outlet does beyond the outlet itself. -/
inductive OutletEffect where
  /-- Something happens in the call of a thread. -/
  | thread (number : Nat) (event : OutputEvent)
  /-- An effect of a step of the spool. -/
  | spool (effect : Effect)
  deriving DecidableEq, Repr, Inhabited

namespace Outlet

/-- A spool whose output interface nobody uses yet. -/
def on (spool : Spool) : Outlet := { spool }

/-- The call of a thread waits for an answer. -/
def isWaiting (s : Outlet) (thread : Nat) : Bool := (s.calls.find? thread).any (·.writing)

/-- A call is answered, if it waits for that. -/
def hear (calls : Calls OutputCall) (answer : Nat × Reply) : Calls OutputCall :=
  match calls.find? answer.1 with
  | some call => if call.writing then calls.put answer.1 { plan := call.plan.hear answer.2 } else calls
  | none => calls

/-- The answers that calls wait for. -/
def heard (s : Outlet) (effects : List Effect) : List OutletEffect :=
  ((Spool.replies effects).filter fun answer => s.isWaiting answer.1).map
    fun answer => .thread answer.1 (.heard answer.2)

/-- The spool takes a step, if it is possible, and calls hear its answers. -/
def stepSpool (s : Outlet) (a : Action) : Option (Outlet × List OutletEffect) :=
  (s.spool.step a).map fun (spool, effects) =>
    ({ spool, calls := (Spool.replies effects).foldl hear s.calls },
      effects.map .spool ++ s.heard effects)

/-- A thread goes on with its call: it makes an offer, or the call ends. -/
def go (s : Outlet) (thread : Nat) (call : OutputCall) : Option (Outlet × List OutletEffect) :=
  match call.plan.next with
  | .offer bytes =>
    let waiting := { s with calls := s.calls.put thread { call with writing := true } }
    (waiting.stepSpool (.enter thread bytes)).map fun (t, effects) =>
      (t, .thread thread (.offered bytes) :: effects)
  | .finish result =>
    some ({ s with calls := s.calls.remove thread }, [.thread thread (.finished result)])

/-- One step, if it is possible. -/
def step (s : Outlet) : OutletAction → Option (Outlet × List OutletEffect)
  | .start thread request =>
    -- A thread makes one call at a time, here and with the spool itself.
    if 0 < s.spool.handles ∧ (s.calls.find? thread).isNone ∧ (s.spool.writes.find? thread).isNone then
      some ({ s with calls := s.calls.add thread { plan := request.plan } },
        [.thread thread (.asked request)])
    else none
  | .go thread =>
    match s.calls.find? thread with
    | some call => if call.writing then none else s.go thread call
    | none => none
  | .spool a =>
    match a with
    -- Whoever starts to write does it through the output interface.
    | .enter _ _ => none
    -- A call under way holds a handle, also between two offers.
    | .drop => if s.calls.isEmpty ∨ 1 < s.spool.handles then s.stepSpool .drop else none
    | a => s.stepSpool a

/-- A run of steps, all of them possible, with their effects in order. -/
def run (s : Outlet) : List OutletAction → Option (Outlet × List OutletEffect)
  | [] => some (s, [])
  | a :: rest => do
    let (s, effects) ← s.step a
    let (s, more) ← s.run rest
    return (s, effects ++ more)

end Outlet

end LogSpool

import LogSpool.Session.Work
set_option autoImplicit false

/-!
# Sessions: waiting

Some steps of a session wait: for an instant, until a spool is drained, or until a
worker is done.  While such a step waits the tasks take turns, and when all of them
wait too the clock jumps to the next time at which something is due.  The step that
waits looks first, before any task, and also after each jump.
-/

namespace LogSpool.Session

/-! ## Time -/

/-- The times at which something is due. -/
def dueTimes (s : Session) : List Nat :=
  s.stations.toList.filterMap (·.progress.wake?) ++ s.deferred.map (·.2.due)

/-- The next time at which something is due or an alarm set, but no later than `limit`. -/
def nextTime (s : Session) (alarms : List Nat) (limit : Nat) : Nat :=
  ((s.dueTimes ++ alarms).filter (s.now < ·)).foldl min limit

/-- Let the tasks whose time has come have a turn. -/
def wakeDue (s : Session) : Session :=
  let s := (List.range s.stations.size).foldl (fun s i =>
    match (s.stations[i]?).bind (·.progress.wake?) with
    | some wake => if wake ≤ s.now then s.enqueue (.worker i) else s
    | none => s) s
  s.deferred.reverse.foldl (fun s d =>
    if d.2.due ≤ s.now then s.enqueue (.deferred d.1) else s) s

/-- Set the clock. -/
def setClock (s : Session) (now : Nat) : Session := { s with now }.wakeDue

/-! ## Waiting -/

/-- A look at what is waited for: what is left to wait for, or what came of it. -/
abbrev Look (σ α : Type) := σ → Session → Session × (σ ⊕ α)

/-- Wait while the tasks take turns and time passes, until a look is successful or the
time `limit` has come without one.  What is waited for may set alarms before that. -/
def waitUntil {σ α : Type} (look : Look σ α) (alarms : σ → List Nat) (limit : Nat) (now : Nat)
    (wait : σ) (s : Session) : Session × Option α :=
  match look wait s.settle with
  | (s, .inr a) => (s, some a)
  | (s, .inl wait) =>
    let next := s.nextTime (alarms wait) limit
    if now < next ∧ next ≤ limit then
      match look wait (s.setClock next) with
      | (s, .inr a) => (s, some a)
      | (s, .inl wait) => waitUntil look alarms limit next wait s
    else (s, none)
termination_by limit - now

/-- Look at once, and wait if that does not succeed. -/
def await {σ α : Type} (look : Look σ α) (limit : Nat) (wait : σ) (s : Session)
    (alarms : σ → List Nat := fun _ => []) : Session × Option α :=
  match look wait s with
  | (s, .inr a) => (s, some a)
  | (s, .inl wait) => waitUntil look alarms limit s.now wait s

/-- How long a call may take. -/
inductive Timeout where
  | ms (n : Nat)
  /-- The longest time there is. -/
  | forever
  deriving DecidableEq, Repr, Inhabited

/-- The milliseconds of thirty years, after which a wait without a deadline ends. -/
def farFuture : Nat := 86400 * 365 * 30 * 1000

/-- The time at which a wait that starts now ends. -/
def deadline (s : Session) : Timeout → Nat
  | .ms n => s.now + n
  | .forever => s.now + farFuture

/-- Let time pass. -/
def advance (s : Session) (ms : Nat) : Session :=
  let target := s.now + ms
  let look : Look Unit Unit := fun _ s => (s, if target ≤ s.now then .inr () else .inl ())
  (s.await look target ()).1.settle

/-! ## Calls that wait -/

/-- A number for a call that is going to wait at a station. -/
def newCall (s : Session) (i : Nat) : Nat :=
  match s.stations[i]? with
  | some station => station.spool.newCall
  | none => 0

/-- The records pending at a station. -/
def pending (s : Session) (i : Nat) : Nat :=
  match s.stations[i]? with
  | some station => station.spool.pending
  | none => 0

/-- A call that drains a station or shuts it down. -/
structure WaitingCall where
  station : Nat
  number : Nat
  deadline : Nat
  deriving DecidableEq, Repr, Inhabited

/-- Poll a call that waits. -/
def poll (call : WaitingCall) (s : Session) : Session × Option WaitResult :=
  match s.stations[call.station]? with
  | none => (s, none)
  | some station =>
    let polled := station.spool.poll call.number (call.deadline ≤ s.now)
    (polled.effects.foldl (applyEffect call.station) (s.putSpool call.station polled.spool),
      polled.result?)

/-- Wait for the answer of a call. -/
def awaitCall (s : Session) (call : WaitingCall) : Session × WaitResult :=
  let look : Look Unit WaitResult := fun _ s =>
    match s.poll call with
    | (s, some result) => (s, .inr result)
    | (s, none) => (s, .inl ())
  let (s, result) := s.await look call.deadline ()
  (s.settle, result.getD (.error (.drainTimeout (s.pending call.station))))

/-! ## Draining -/

/-- Start to drain a station. -/
def startDrain (s : Session) (i : Nat) (deadline : Nat) : Session × WaitingCall :=
  let number := s.newCall i
  (s.take i (.arm number), ⟨i, number, deadline⟩)

/-- Drain a station. -/
def drain (s : Session) (i : Nat) (timeout : Timeout) : Session × WaitResult :=
  let (s, call) := s.startDrain i (s.deadline timeout)
  s.awaitCall call

/-- Drain a station, but give up after a time. -/
def drainOrGiveUp (s : Session) (i : Nat) (timeout : Timeout) (after : Nat) :
    Session × Option WaitResult :=
  let giveUp := s.now + after
  let (s, call) := s.startDrain i (s.deadline timeout)
  let look : Look Unit (Option WaitResult) := fun _ s =>
    match s.poll call with
    | (s, some result) => (s, .inr (some result))
    | (s, none) =>
      if giveUp ≤ s.now then (s.take i (.abandon call.number), .inr none) else (s, .inl ())
  let (s, result) := s.await look (min giveUp call.deadline) ()
  (s.settle, result.join)

/-- Poll several calls that wait, each with the answer it has come to. -/
def pollEach : List (WaitingCall × Option WaitResult) → Session →
    Session × List (WaitingCall × Option WaitResult)
  | [], s => (s, [])
  | (call, some result) :: rest, s =>
    let (s, rest) := pollEach rest s
    (s, (call, some result) :: rest)
  | (call, none) :: rest, s =>
    let (s, result) := s.poll call
    let (s, rest) := pollEach rest s
    (s, (call, result) :: rest)

/-- Drain a station by several calls at once. -/
def drainMany (s : Session) (i : Nat) (timeouts : List Timeout) : Session × List WaitResult :=
  let (s, calls) := timeouts.foldl (fun (s, calls) timeout =>
    let (s, call) := s.startDrain i (s.deadline timeout)
    (s, calls ++ [(call, none)])) (s, ([] : List (WaitingCall × Option WaitResult)))
  let limit := calls.foldl (fun limit call => max limit call.1.deadline) s.now
  let look : Look (List (WaitingCall × Option WaitResult)) (List WaitResult) := fun calls s =>
    let (s, calls) := pollEach calls s
    if calls.all (·.2.isSome) then (s, .inr (calls.filterMap (·.2))) else (s, .inl calls)
  let alarms (calls : List (WaitingCall × Option WaitResult)) : List Nat :=
    (calls.filter (·.2.isNone)).map (·.1.deadline)
  let (s, results) := s.await look limit calls alarms
  (s.settle, results.getD [])

/-! ## Shutting down -/

/-- Start to shut a station down: close it, and start to drain it. -/
def startShutdown (s : Session) (i : Nat) (deadline : Nat) : Session × WaitingCall :=
  let number := s.newCall i
  ((s.takeAll i (Spool.shutdownSteps number)).wakeWorker i, ⟨i, number, deadline⟩)

/-- Close a station, drain it, and wait until its worker is done. -/
def shutdown (s : Session) (i ms : Nat) : Session × WaitResult :=
  let (s, call) := s.startShutdown i (s.now + ms)
  s.awaitCall call

/-! ## Stopping everything -/

/-- Stop all tasks: workers are lost where they stand, and deferred actions are given
up with the handles they hold. -/
def stopTasks (s : Session) : Session :=
  let s := (List.range s.stations.size).foldl (fun s i => s.take i (.lose .cancelled)) s
  let held := s.deferred.filterMap (·.2.action.station?)
  let s := held.foldl (fun s i => s.take i .drop) s
  { s with ready := {}, deferred := [] }

end LogSpool.Session

import LogSpool.Spool.State
set_option autoImplicit false

/-!
# Spools: the steps

`Spool.step` is one atomic step of a spool: of a call that writes, of a call that
waits, of the worker, or of whoever holds a handle.  Any order of steps that are
possible is a run of the spool.  A step tells its effects: what a call answers, what
is counted and reported, and what the sink is asked to do.
-/

namespace LogSpool

/-- What becomes of a record. -/
inductive Fate where
  /-- The sink took it. -/
  | written
  /-- It never reached the sink, or the sink failed. -/
  | dropped
  deriving DecidableEq, Repr, Inhabited

/-- The answer of a call that writes. -/
inductive Reply where
  /-- The record was taken care of: the number of its bytes. -/
  | accepted (count : Nat)
  /-- The spool was closed. -/
  | closed
  deriving DecidableEq, Repr, Inhabited

/-- The steps of a spool. -/
inductive Action where
  /-- One more handle. -/
  | clone
  /-- One handle fewer. -/
  | drop
  /-- A call starts to write a record. -/
  | enter (call : Nat) (record : Bytes)
  /-- A call that writes takes its next step. -/
  | advance (call : Nat)
  /-- The spool is closed. -/
  | close
  /-- The closing is reported. -/
  | announce
  /-- A call starts to wait. -/
  | arm (call : Nat)
  /-- A call that waits looks whether a slot is taken. -/
  | look (call : Nat)
  /-- A call that was woken gets ready to look again. -/
  | rearm (call : Nat)
  /-- A call stops to wait: its time is up, or nobody wants it any more. -/
  | abandon (call : Nat)
  /-- A call starts to shut the spool down. -/
  | shutdown (call : Nat)
  /-- A call that shuts the spool down takes its next step. -/
  | pursue (call : Nat)
  /-- The worker takes the next record and calls the sink with it. -/
  | receive
  /-- The call on the sink is made, and the worker waits for its end. -/
  | await
  /-- The sink is done with the record. -/
  | finish (outcome : Outcome)
  /-- The worker counts the record. -/
  | judge
  /-- The worker gives the record's slot back. -/
  | release
  /-- The worker wakes who waits. -/
  | wake
  /-- The worker starts to flush the sink. -/
  | flush
  /-- The sink is flushed, and the worker done. -/
  | finishFlush (outcome : FlushOutcome)
  /-- The worker is lost. -/
  | lose (loss : Loss)
  deriving DecidableEq, Repr, Inhabited

/-- The call that waits whose step it is. -/
def Action.waiting? : Action → Option Nat
  | .arm call | .look call | .rearm call | .abandon call | .shutdown call | .pursue call =>
    some call
  | _ => none

/-- What a step does beyond the spool itself. -/
inductive Effect where
  /-- A call that writes is answered. -/
  | answered (call : Nat) (reply : Reply)
  /-- The record of a call joined the channel. -/
  | queued (call : Nat) (record : Bytes)
  /-- A call that waits found no slot taken. -/
  | drained (call : Nat)
  /-- A call that shuts the spool down is answered that it did. -/
  | shutDown (call : Nat)
  /-- The call that had the right to wait for the worker's end gave it up for good. -/
  | detached
  /-- A record is counted, by the call that writes it or else by the worker. -/
  | counted (call : Option Nat) (record : Bytes) (fate : Fate)
  /-- The spool reports something. -/
  | reported (diagnostic : Diagnostic)
  /-- The sink is asked to write a record. -/
  | attempted (record : Bytes)
  /-- The sink is asked to flush. -/
  | flushed
  /-- The sink is let go. -/
  | released
  deriving DecidableEq, Repr, Inhabited

namespace Spool

/-- A call starts to write.  It finds out first whether the spool is closed; an empty
record needs no slot. -/
def enter (s : Spool) (call : Nat) (record : Bytes) : Spool × List Effect :=
  if s.closed then (s, [.answered call .closed])
  else if record.isEmpty then (s, [.answered call (.accepted 0)])
  else ({ s with writes := s.writes.add call ⟨record, .entered⟩ }, [])

/-- Give a slot back, and say whether it was the last one taken. -/
def giveBack (s : Spool) : Spool × Bool :=
  ({ s with pending := s.pending - 1 }, s.pending == 1)

/-- The next step of a call that writes. -/
def advance (s : Spool) (call : Nat) (w : WriteCall) : Spool × List Effect :=
  match w.phase with
  | .entered =>
    if s.pending < s.capacity then
      ({ s with pending := s.pending + 1 }.putWrite call { w with phase := .reserved }, [])
    else (s.putWrite call { w with phase := .losing }, [])
  | .reserved =>
    if s.worker.isAlive && s.channel.size < s.capacity then
      ({ s with channel := s.channel.push w.record }.endWrite call,
        [.queued call w.record, .answered call (.accepted w.record.length)])
    else (s.putWrite call { w with phase := .refused }, [])
  | .refused =>
    let (s, last) := s.giveBack
    (s.putWrite call { w with phase := if last then .waking else .losing }, [])
  | .waking => (s.wakeAll.putWrite call { w with phase := .losing }, [])
  | .losing =>
    (s.endWrite call,
      [.counted (some call) w.record .dropped, .answered call (.accepted w.record.length)])

/-- Count a record that the sink is done with.  Only a change from success to failure
or back is reported. -/
def judge (s : Spool) (record : Bytes) (outcome : Outcome) : Spool × List Effect :=
  match outcome.failure? record.length with
  | none =>
    ({ s with healthy := true, worker := .releasing },
      .counted none record .written :: (if s.healthy then [] else [.reported .recovered]))
  | some error =>
    ({ s with healthy := false, worker := .releasing },
      .counted none record .dropped :: (if s.healthy then [.reported (.failing error)] else []))

/-- What is reported of a flush. -/
def flushReports : FlushOutcome → List Effect
  | .done => []
  | .failed error => [.reported (.flushFailed error)]
  | .panicked payload => [.reported (.flushPanicked payload.words)]

/-- The next step of a call that shuts the spool down, if it is possible.  Only the first
call that asks for it gets the right to wait for the worker's end; the others are
answered at once. -/
def pursue (s : Spool) (call : Nat) : ShutdownPhase → Option (Spool × List Effect)
  | .closing =>
    -- A call that writes keeps the spool from being closed.
    if s.writes.isEmpty then some (s.close.putShutdown call .arming, []) else none
  | .arming =>
    some ({ s with waiters := s.waiters.add call {} }.putShutdown call .draining, [])
  | .draining => none
  | .claiming =>
    if s.unclaimed then some ({ s with unclaimed := false }.putShutdown call .joining, [])
    else some (s.endShutdown call, [.shutDown call])
  | .joining =>
    match s.worker with
    | .done => some (s.endShutdown call, [.shutDown call])
    | .lost loss => some (s.endShutdown call, [.reported (.lost loss), .shutDown call])
    | _ => none

/-- A call that waits stops, if it stands where it can be stopped. -/
def abandon (s : Spool) (call : Nat) : Option (Spool × List Effect) :=
  match s.shutdowns.find? call with
  | some .joining => some (s.endShutdown call, [.detached])
  | some .draining => some ((s.endWaiter call).endShutdown call, [])
  | some _ => none
  | none => if (s.waiters.find? call).isSome then some (s.endWaiter call, []) else none

/-- One step, if it is possible. -/
def step (s : Spool) : Action → Option (Spool × List Effect)
  | .clone => if 0 < s.handles then some ({ s with handles := s.handles + 1 }, []) else none
  | .drop =>
    -- A call under way holds a handle.
    if 1 < s.handles ∨ (s.handles = 1 ∧ s.isQuiet) then
      some ({ s with handles := s.handles - 1 }, [])
    else none
  | .enter call record =>
    if 0 < s.handles ∧ (s.writes.find? call).isNone then some (s.enter call record) else none
  | .advance call => (s.writes.find? call).map (s.advance call)
  | .close => if 0 < s.handles ∧ s.writes.isEmpty then some (s.close, []) else none
  | .announce =>
    if s.announcing then
      some ({ s with announcing := false }, [.reported (.closed s.pending)])
    else none
  | .arm call =>
    if 0 < s.handles ∧ s.isFresh call then
      some ({ s with waiters := s.waiters.add call {} }, [])
    else none
  | .look call =>
    match s.waiters.find? call with
    | some w =>
      if w.parked then none
      else if s.pending = 0 then
        some ({ s with
          waiters := s.waiters.remove call
          shutdowns := s.shutdowns.modify call ShutdownPhase.drained }, [.drained call])
      else some (s.putWaiter call { w with parked := true }, [])
    | none => none
  | .rearm call =>
    match s.waiters.find? call with
    | some w => if w.parked && w.notified then some (s.putWaiter call {}, []) else none
    | none => none
  | .abandon call => s.abandon call
  | .shutdown call =>
    if 0 < s.handles ∧ s.isFresh call then
      some ({ s with shutdowns := s.shutdowns.add call .closing }, [])
    else none
  | .pursue call => (s.shutdowns.find? call).bind (s.pursue call)
  | .receive =>
    match s.worker, s.channel.pop? with
    | .idle, some (record, rest) =>
      some ({ s with channel := rest, worker := .calling record }, [.attempted record])
    | _, _ => none
  | .await =>
    match s.worker with
    | .calling record => some ({ s with worker := .attempting record }, [])
    | .callingFlush => some ({ s with worker := .flushing }, [])
    | _ => none
  | .finish outcome =>
    match s.worker with
    | .attempting record => some ({ s with worker := .judging record outcome }, [])
    | _ => none
  | .judge =>
    match s.worker with
    | .judging record outcome => some (s.judge record outcome)
    | _ => none
  | .release =>
    match s.worker with
    | .releasing =>
      let (s, last) := s.giveBack
      some ({ s with worker := if last then .waking else .idle }, [])
    | _ => none
  | .wake =>
    match s.worker with
    | .waking => some ({ s.wakeAll with worker := .idle }, [])
    | _ => none
  | .flush =>
    match s.worker with
    | .idle =>
      if s.isSealed && s.channel.size == 0 then
        some ({ s with worker := .callingFlush }, [.flushed])
      else none
    | _ => none
  | .finishFlush outcome =>
    match s.worker with
    | .flushing =>
      some ({ s with worker := .done }, flushReports outcome ++ [.reported .exiting, .released])
    | _ => none
  | .lose loss =>
    if s.worker.canLose loss then
      some ({ s with worker := .lost loss, channel := .empty }, [.released])
    else none

/-- A run of steps, all of them possible, with their effects in order. -/
def run (s : Spool) : List Action → Option (Spool × List Effect)
  | [] => some (s, [])
  | a :: rest => do
    let (s, effects) ← s.step a
    let (s, more) ← s.run rest
    return (s, effects ++ more)

end Spool

end LogSpool

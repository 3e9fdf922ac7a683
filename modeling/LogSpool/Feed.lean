import LogSpool.Recorder
import LogSpool.Settings
import LogSpool.Spool.Step
set_option autoImplicit false

/-!
# Feeds

Any number of threads show events to any number of recorders, each of which feeds one of
several spools.  A recorder counts an event when it is shown one, and unless it leaves the
event out the thread builds a line in its own buffer, writes it to the spool, and counts the
answer.  What a spool reports about itself is news for every recorder, and is shown to it
like any other event.

`Feed.step` is one atomic step of a thread, or of a spool with its worker and everybody else
who holds a handle to it.  Nobody but these threads writes to the spools.
-/

namespace LogSpool

/-- How far a line has come on its way from a recorder to its spool. -/
inductive HandoverPhase where
  /-- It stands in the buffer of its thread. -/
  | built
  /-- The call that writes it is under way. -/
  | writing
  /-- The spool has answered, and the recorder is about to count that. -/
  | answered (reply : Reply)
  deriving DecidableEq, Repr, Inhabited

/-- A line on its way from a recorder to its spool. -/
structure Handover where
  /-- The recorder. -/
  source : Nat
  spool : Nat
  line : Bytes
  phase : HandoverPhase := .built
  deriving DecidableEq, Repr, Inhabited

/-- A recorder and the spool that it feeds. -/
structure Source where
  spool : Nat
  recorder : Recorder
  deriving DecidableEq, Repr, Inhabited

/-- The recorder is shown an event. -/
def Source.see (source : Source) : Source := { source with recorder := source.recorder.see }

/-- The recorder counts how its spool answered. -/
def Source.offer (source : Source) (taken : Bool) : Source :=
  { source with recorder := source.recorder.offer taken }

/-- The recorder has seen nothing yet. -/
def Source.reset (source : Source) : Source :=
  { source with recorder := { source.recorder with tally := {} } }

/-- Recorders, the spools that they feed, and the lines on their way. -/
structure Feed where
  spools : List Spool
  sources : List Source
  /-- The buffer in which each thread builds its lines. -/
  buffers : Calls LineBuffer := {}
  /-- The line that each thread has on its way, one at a time. -/
  handovers : Calls Handover := {}
  /-- What spools have reported, and the recorders that it is still to be shown to. -/
  news : List (Nat × Diagnostic) := []
  deriving Inhabited

/-- The steps of a feed. -/
inductive FeedAction where
  /-- A thread shows a recorder an event of the application. -/
  | event (thread source : Nat) (event : Event) (time : Time.Stamp)
  /-- A thread shows a recorder what a spool has reported: one of the news, by its place. -/
  | relay (thread place : Nat) (time : Time.Stamp)
  /-- A thread starts to write its line. -/
  | hand (thread : Nat)
  /-- A step of a spool. -/
  | spool (i : Nat) (a : Action)
  /-- A thread has the answer counted. -/
  | count (thread : Nat)
  deriving DecidableEq, Repr, Inhabited

/-- A line that has reached its spool. -/
structure Arrival where
  source : Nat
  spool : Nat
  line : Bytes
  /-- The spool was open at that moment. -/
  isOpen : Bool
  deriving DecidableEq, Repr, Inhabited

/-- What a step of a feed does beyond the feed itself. -/
inductive FeedEffect where
  /-- A recorder was shown an event of the application. -/
  | shown (source : Nat) (event : Event) (time : Time.Stamp)
  /-- A recorder was shown what a spool had reported. -/
  | relayed (source : Nat) (diagnostic : Diagnostic)
  /-- A line reached its spool. -/
  | reached (arrival : Arrival)
  /-- A recorder counted how its spool had answered. -/
  | tallied (source : Nat) (taken : Bool)
  /-- An effect of a step of a spool. -/
  | spool (i : Nat) (effect : Effect)
  deriving DecidableEq, Repr, Inhabited

/-- The calls that write and were answered. -/
def Spool.replies (effects : List Effect) : List (Nat × Reply) :=
  effects.filterMap fun
    | .answered call reply => some (call, reply)
    | _ => none

/-- What was reported. -/
def Spool.reports (effects : List Effect) : List Diagnostic :=
  effects.filterMap fun
    | .reported d => some d
    | _ => none

namespace Feed

/-- Fresh spools with these settings, and recorders that have seen nothing yet. -/
def start (settings : List SpoolSettings) (sources : List Source) : Feed where
  spools := settings.map fun s => Spool.start s.slots
  sources := sources.map Source.reset

/-- The buffer of a thread. -/
def buffer (s : Feed) (thread : Nat) : LineBuffer := (s.buffers.find? thread).getD {}

/-- The spool takes records. -/
def isOpen (s : Feed) (i : Nat) : Bool := (s.spools[i]?).any fun spool => !spool.closed

/-- Let a recorder have an event, on a thread that has no line on its way. -/
def present (s : Feed) (thread k : Nat) (e : Event) (time : Time.Stamp) : Option Feed :=
  match s.sources[k]?, s.handovers.find? thread with
  | some source, none =>
    let s := { s with sources := s.sources.modify k Source.see }
    if source.see.recorder.ignores e then some s
    else
      let buffer := (s.buffer thread).fill (e.record time source.recorder.serviceName)
      some { s with
        buffers := s.buffers.add thread buffer
        handovers := s.handovers.add thread { source := k, spool := source.spool, line := buffer.bytes } }
  | _, _ => none

/-- A line whose thread was answered. -/
def hear (handovers : Calls Handover) (answer : Nat × Reply) : Calls Handover :=
  match handovers.find? answer.1 with
  | some h => handovers.put answer.1 { h with phase := .answered answer.2 }
  | none => handovers

/-- What was reported is news for every recorder. -/
def newsOf (s : Feed) (effects : List Effect) : List (Nat × Diagnostic) :=
  (Spool.reports effects).flatMap fun d => (List.range s.sources.length).map fun k => (k, d)

/-- A spool has taken a step: threads hear its answers, and its reports are news. -/
def putSpool (s : Feed) (i : Nat) (spool : Spool) (effects : List Effect) : Feed :=
  { s with
    spools := s.spools.set i spool
    handovers := (Spool.replies effects).foldl hear s.handovers
    news := s.news ++ s.newsOf effects }

/-- A spool takes a step, if it is possible. -/
def stepSpool (s : Feed) (i : Nat) (a : Action) : Option (Feed × List Effect) :=
  (s.spools[i]?).bind fun spool => (spool.step a).map fun (spool, effects) =>
    (s.putSpool i spool effects, effects)

/-- A thread starts to write the line that it has built. -/
def hand (s : Feed) (thread : Nat) (h : Handover) : Option (Feed × List FeedEffect) :=
  let writing := { s with handovers := s.handovers.put thread { h with phase := .writing } }
  (writing.stepSpool h.spool (.enter thread h.line)).map fun (t, effects) =>
    (t, .reached ⟨h.source, h.spool, h.line, s.isOpen h.spool⟩ :: effects.map (.spool h.spool))

/-- A thread has the answer to its line counted. -/
def tally (s : Feed) (thread : Nat) (h : Handover) (taken : Bool) : Feed :=
  { s with
    sources := s.sources.modify h.source (·.offer taken)
    handovers := s.handovers.remove thread }

/-- One step, if it is possible. -/
def step (s : Feed) : FeedAction → Option (Feed × List FeedEffect)
  | .event thread k e time => (s.present thread k e time).map fun t => (t, [.shown k e time])
  | .relay thread place time =>
    match s.news[place]? with
    | some (k, d) =>
      ({ s with news := s.news.eraseIdx place }.present thread k d.event time).map
        fun t => (t, [.relayed k d])
    | none => none
  | .hand thread =>
    match s.handovers.find? thread with
    | some h => if h.phase = .built then s.hand thread h else none
    | none => none
  | .spool i a =>
    -- Nobody starts to write but a thread that has a line.
    match a with
    | .enter _ _ => none
    | a => (s.stepSpool i a).map fun (t, effects) => (t, effects.map (.spool i))
  | .count thread =>
    match s.handovers.find? thread with
    | some h =>
      match h.phase with
      | .answered reply =>
        let taken := reply != .closed
        some (s.tally thread h taken, [.tallied h.source taken])
      | .built | .writing => none
    | none => none

/-- A run of steps, all of them possible, with their effects in order. -/
def run (s : Feed) : List FeedAction → Option (Feed × List FeedEffect)
  | [] => some (s, [])
  | a :: rest => do
    let (s, effects) ← s.step a
    let (s, more) ← s.run rest
    return (s, effects ++ more)

end Feed

end LogSpool

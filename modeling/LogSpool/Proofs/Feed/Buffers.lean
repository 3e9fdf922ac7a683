import LogSpool.Proofs.Feed.Tallies
import LogSpool.Proofs.Session.Recording
import LogSpool.Proofs.Spool.Trail
set_option autoImplicit false

/-!
# Feeds: buffers that are used again

A thread builds the lines of all its recorders in one buffer.  From the moment at which a line is
built until its answer is counted the buffer holds that line and nothing else (`Buffered`), so what
a call writes is what was built for its own event.  What a spool has queued is a copy: whatever
events come later, the sink is asked to write it as it is.

* `lines_never_leak` : the lines that each thread builds, hands over and has queued, in every run.
-/

namespace LogSpool

/-- A line that arrived, as it was built. -/
def Arrival.asBuilt (a : Arrival) : Handover :=
  { source := a.source, spool := a.spool, line := a.line }

namespace Feed

open HandoverPhase (isBuilt)

variable {settings : List SpoolSettings} {sources : List Source} {s t : Feed} {a : FeedAction}
  {actions : List FeedAction} {effects es : List FeedEffect}

/-! ## What threads build and hand over -/

/-- The line that a step makes a thread build: what the record of the event adds to an empty buffer,
for the recorder that was shown the event and the spool that it feeds. -/
def builtBy? (sources : List Source) (thread : Nat) : FeedAction → Option Handover
  | .event other k e time =>
    if other = thread then
      (sources[k]?).bind fun source =>
        if source.recorder.ignores e then none
        else some { source := k
                    spool := source.spool
                    line := (e.record time source.recorder.serviceName).appendTo [] }
    else none
  | _ => none

/-- The lines that the events of a thread give, in order. -/
def builtLines (sources : List Source) (thread : Nat) (actions : List FeedAction) : List Handover :=
  actions.filterMap (builtBy? sources thread)

/-- The threads that start to write their lines, in order. -/
def handing (actions : List FeedAction) : List Nat :=
  actions.filterMap fun
    | .hand thread => some thread
    | _ => none

/-- The lines that a thread has handed over, in order. -/
def handedBy (thread : Nat) (actions : List FeedAction) (effects : List FeedEffect) : List Arrival :=
  ((handing actions).zip (arrivals effects)).filterMap fun (other, arrival) =>
    if other = thread then some arrival else none

/-- The line that a thread has built and not handed over. -/
def unhanded (s : Feed) (thread : Nat) : List Handover :=
  ((s.handovers.find? thread).filter (·.phase.isBuilt)).toList

theorem builtLines_append (thread : Nat) (before after : List FeedAction) :
    builtLines sources thread (before ++ after) =
      builtLines sources thread before ++ builtLines sources thread after :=
  List.filterMap_append

theorem handing_append (before after : List FeedAction) :
    handing (before ++ after) = handing before ++ handing after :=
  List.filterMap_append

/-- What a thread hands over in a step comes after what it has handed over before. -/
theorem handedBy_append (hpaired : (handing actions).length = (arrivals effects).length) (thread : Nat)
    (a : FeedAction) (es : List FeedEffect) :
    handedBy thread (actions ++ [a]) (effects ++ es) =
      handedBy thread actions effects ++ handedBy thread [a] es := by
  unfold handedBy
  rw [handing_append, arrivals_append, List.zip_append hpaired, List.filterMap_append]

theorem handedBy_of_quiet (h : handing [a] = []) (thread : Nat) (es : List FeedEffect) :
    handedBy thread [a] es = [] := by
  unfold handedBy
  rw [h]
  rfl

theorem handedBy_hand {arrival : Arrival} (h : arrivals es = [arrival]) (thread other : Nat) :
    handedBy other [.hand thread] es = if thread = other then [arrival] else [] := by
  unfold handedBy
  rw [h]
  by_cases heq : thread = other <;> simp [handing, heq]

/-- The line of a thread that was not handed over stands there until the thread's line changes. -/
theorem unhanded_of_eq {thread : Nat} (h : t.handovers.find? thread = s.handovers.find? thread) :
    t.unhanded thread = s.unhanded thread := by
  unfold unhanded
  rw [h]

theorem unhanded_of_built {thread : Nat} {line : Handover}
    (hline : s.handovers.find? thread = some line) (hbuilt : line.phase = .built) :
    s.unhanded thread = [line] := by
  simp [unhanded, hline, hbuilt, Option.filter]

theorem unhanded_of_handed {thread : Nat} {line : Handover}
    (hline : s.handovers.find? thread = some line) (hhanded : line.phase.isBuilt = false) :
    s.unhanded thread = [] := by
  unfold unhanded
  rw [hline, Option.filter_some_neg (by simpa using hhanded)]
  rfl

theorem unhanded_of_free {thread : Nat} (hfree : s.handovers.find? thread = none) :
    s.unhanded thread = [] := by
  simp [unhanded, hfree]

/-! ## Steps -/

/-- What an event gives to build: for the recorder as it was at the start, apart from what it has
counted. -/
theorem builtLines_event (hreset : s.sources.map Source.reset = sources.map Source.reset) {k : Nat}
    {source : Source} (hsource : s.sources[k]? = some source) (thread other : Nat) (e : Event)
    (time : Time.Stamp) :
    builtLines sources other [.event thread k e time] =
      if thread = other ∧ source.recorder.ignores e = false then
        [{ source := k
           spool := source.spool
           line := (e.record time source.recorder.serviceName).encode }]
      else [] := by
  obtain ⟨first, hfirst, hsame⟩ :=
    source_of_reset (s := s) (t := { s with sources }) hreset.symm hsource
  have hspool : first.reset.spool = source.reset.spool := congrArg _ hsame
  have hname : first.reset.recorder.serviceName = source.reset.recorder.serviceName :=
    congrArg (·.recorder.serviceName) hsame
  have hignores : first.reset.recorder.ignores e = source.reset.recorder.ignores e :=
    congrArg (·.recorder.ignores e) hsame
  by_cases heq : thread = other
  · cases hpasses : source.recorder.ignores e <;>
      simp_all [builtLines, builtBy?, Source.reset, Recorder.ignores, Record.appendTo]
  · simp [builtLines, builtBy?, heq]

/-- What a step that hands a line over does with the line. -/
theorem moved_of_hand {thread : Nat} {line : Handover} {phase : HandoverPhase} {inTime : Bool}
    (hline : s.handovers.find? thread = some line) (hbuilt : line.phase = .built)
    (hput : t.handovers = s.handovers.put thread { line with phase }) (hphase : phase.isBuilt = false)
    (hes : arrivals es = [⟨line.source, line.spool, line.line, inTime⟩]) (other : Nat) :
    s.unhanded other ++ builtLines sources other [.hand thread] =
      (handedBy other [.hand thread] es).map Arrival.asBuilt ++ t.unhanded other := by
  have hnone : builtLines sources other [.hand thread] = [] := rfl
  rw [hnone, List.append_nil, handedBy_hand hes]
  by_cases heq : thread = other
  · subst heq
    have hasBuilt : Arrival.asBuilt ⟨line.source, line.spool, line.line, inTime⟩ = line := by
      rw [Arrival.asBuilt, ← hbuilt]
    have hafter : t.handovers.find? thread = some { line with phase } := by
      rw [hput, Calls.find?_put_self hline]
    rw [unhanded_of_built hline hbuilt, unhanded_of_handed hafter hphase, if_pos rfl, List.map_singleton,
      hasBuilt, List.append_nil]
  · have hsame : t.handovers.find? other = s.handovers.find? other := by
      rw [hput, Calls.find?_put_of_ne _ (Ne.symm heq)]
    rw [if_neg heq, unhanded_of_eq hsame]
    rfl

/-- What a step does with the lines of each thread: it builds one or hands one over, or neither. -/
theorem moved_of_transition (hreset : s.sources.map Source.reset = sources.map Source.reset)
    (step : Transition s a t es) :
    (handing [a]).length = (arrivals es).length ∧ ∀ thread,
      s.unhanded thread ++ builtLines sources thread [a] =
        (handedBy thread [a] es).map Arrival.asBuilt ++ t.unhanded thread := by
  have hquiet : ∀ {thread : Nat}, handing [a] = [] → builtLines sources thread [a] = [] →
      t.unhanded thread = s.unhanded thread → s.unhanded thread ++ builtLines sources thread [a] =
        (handedBy thread [a] es).map Arrival.asBuilt ++ t.unhanded thread := by
    intro thread hhanding hbuilt hunhanded
    rw [handedBy_of_quiet hhanding, hbuilt, hunhanded, List.append_nil]
    rfl
  cases step with
  | @ignored thread k e time source hsource hfree hignores =>
    exact ⟨rfl, fun other => hquiet rfl (by simp [builtLines_event hreset hsource, hignores]) rfl⟩
  | @built thread k e time source hsource hfree hpasses =>
    refine ⟨rfl, fun other => ?_⟩
    rw [builtLines_event hreset hsource, handedBy_of_quiet rfl]
    by_cases heq : thread = other
    · subst heq
      rw [unhanded_of_free hfree, unhanded_of_built (Calls.find?_add_self _ _ _) rfl,
        if_pos ⟨rfl, hpasses⟩]
      rfl
    · rw [if_neg fun h => heq h.1, List.append_nil]
      exact (unhanded_of_eq (Calls.find?_add_of_ne s.handovers (Ne.symm heq) _)).symm
  | relayed => exact ⟨rfl, fun other => hquiet rfl rfl rfl⟩
  | aside => exact ⟨by simp [handing], fun other => hquiet rfl rfl rfl⟩
  | @refused thread line spool hline hbuilt hspool hhandles hclosed =>
    exact ⟨rfl, moved_of_hand hline hbuilt rfl rfl rfl⟩
  | @writing thread line spool hline hbuilt hspool hhandles hopen =>
    exact ⟨rfl, moved_of_hand hline hbuilt rfl rfl rfl⟩
  | @written i thread line spool next effects hspool step hline hwriting hwrites hdealt =>
    obtain ⟨-, hphase⟩ := Handover.isWritingAt_iff.mp hwriting
    refine ⟨by simp [handing], fun other => hquiet rfl rfl ?_⟩
    by_cases heq : other = thread
    · subst heq
      rw [unhanded_of_handed hline (by rw [hphase]; rfl),
        unhanded_of_handed (Calls.find?_put_self hline _) rfl]
    · exact unhanded_of_eq (Calls.find?_put_of_ne _ heq _)
  | @counted thread line reply hline hanswered =>
    refine ⟨rfl, fun other => hquiet rfl rfl ?_⟩
    by_cases heq : other = thread
    · subst heq
      rw [unhanded_of_handed hline (by rw [hanswered]; rfl)]
      exact unhanded_of_free (Calls.find?_remove _ _ _ |>.trans (if_pos rfl))
    · exact unhanded_of_eq (Calls.find?_remove_of_ne _ heq)

/-- What a run has to do with the buffers of its threads. -/
structure Buffered (sources : List Source) (actions : List FeedAction) (s : Feed)
    (effects : List FeedEffect) : Prop where
  /-- The recorders are what they were, apart from what they have counted. -/
  reset : s.sources.map Source.reset = sources.map Source.reset
  /-- A line that is on its way stands alone in the buffer of its thread. -/
  holds : ∀ thread h, s.handovers.find? thread = some h → s.buffer thread = ⟨h.line⟩
  /-- Each line that arrives was handed over by a thread. -/
  paired : (handing actions).length = (arrivals effects).length
  /-- A thread hands over the lines of its events, each once and in their order. -/
  inOrder : ∀ thread, builtLines sources thread actions =
    (handedBy thread actions effects).map Arrival.asBuilt ++ s.unhanded thread

namespace Buffered

theorem holds_of_transition
    (h : ∀ thread h, s.handovers.find? thread = some h → s.buffer thread = ⟨h.line⟩)
    (step : Transition s a t es) (thread : Nat) (line : Handover)
    (hline : t.handovers.find? thread = some line) : t.buffer thread = ⟨line.line⟩ := by
  cases step with
  | built =>
    rcases Calls.find?_of_add hline with ⟨rfl, rfl⟩ | ⟨hne, hbefore⟩
    · simp [buffer]
    · have hsame := h thread line hbefore
      simpa [buffer, Calls.find?_add_of_ne _ hne] using hsame
  | refused hfound | writing hfound | written _ _ hfound =>
    rcases Calls.find?_of_put hline with ⟨rfl, rfl⟩ | ⟨-, hbefore⟩
    · have hheld := h _ _ hfound
      exact hheld
    · exact h _ _ hbefore
  | counted => exact h thread line (Calls.find?_of_remove hline).2
  | _ => exact h thread line hline

theorem preserve (h : Buffered sources actions s effects) (step : Transition s a t es) :
    Buffered sources (actions ++ [a]) t (effects ++ es) := by
  obtain ⟨hpaired, hmoved⟩ := moved_of_transition h.reset step
  refine ⟨(reset_of_transition step).trans h.reset, holds_of_transition h.holds step, ?_,
    fun thread => ?_⟩
  · rw [handing_append, arrivals_append, List.length_append, List.length_append, h.paired, hpaired]
  · rw [builtLines_append, handedBy_append h.paired, List.map_append, h.inOrder, List.append_assoc,
      List.append_assoc, hmoved]

end Buffered

theorem buffered_of_run (h : (start settings sources).run actions = some (s, effects)) :
    Buffered sources actions s effects := by
  refine run_induction_on ⟨?_, nofun, rfl, fun _ => rfl⟩ (fun _ hs step => hs.preserve step) h
  simp only [start, List.map_map]
  rfl

/-! ## What spools are handed -/

/-- What a step does with the lines of a thread for a spool: one more is handed over in time, or the
spool is done with one, or neither. -/
theorem dealt_of_transition (step : Transition s a t es) (i thread : Nat) :
    (Spool.ofProducer (· == thread) (Spool.dealt (effectsOf i es))).map (·.2) ++
        (t.lineFor i thread).toList =
      (s.lineFor i thread).toList ++
        ((handedBy thread [a] es).filter (Arrival.isFor i)).map (·.line) := by
  have hquiet : handing [a] = [] → Spool.dealt (effectsOf i es) = [] →
      t.lineFor i thread = s.lineFor i thread →
      (Spool.ofProducer (· == thread) (Spool.dealt (effectsOf i es))).map (·.2) ++
          (t.lineFor i thread).toList =
        (s.lineFor i thread).toList ++
          ((handedBy thread [a] es).filter (Arrival.isFor i)).map (·.line) := by
    intro hhanding hdealt hlineFor
    rw [hdealt, hlineFor, handedBy_of_quiet hhanding]
    exact (List.append_nil _).symm
  cases step with
  | ignored | relayed => exact hquiet rfl rfl rfl
  | @built other k e time source hsource hfree hpasses =>
    exact hquiet rfl rfl (lineFor_add hfree rfl (by simp [Handover.isWritingAt]) thread)
  | @refused other line spool hline hbuilt hspool hhandles hclosed =>
    have hnone : Spool.dealt (effectsOf i [.reached ⟨line.source, line.spool, line.line, false⟩,
        .spool line.spool (.answered other .closed)]) = [] := by
      by_cases heq : line.spool = i <;> simp [effectsOf, Spool.dealt, heq]
    have hsame := lineFor_put_of_not_writing (i := i) (t := { s with
      handovers := s.handovers.put other { line with phase := .answered .closed } }) hline rfl
      (by simp [Handover.isWritingAt, hbuilt]) (by simp [Handover.isWritingAt]) thread
    rw [hnone, hsame, handedBy_hand rfl]
    by_cases heq : other = thread <;> simp [heq, Arrival.isFor, Spool.ofProducer]
  | @writing other line spool hline hbuilt hspool hhandles hopen =>
    have hnone :
        Spool.dealt (effectsOf i [.reached ⟨line.source, line.spool, line.line, true⟩]) = [] := rfl
    rw [hnone, lineFor_put hline rfl, handedBy_hand rfl]
    by_cases heq : thread = other
    · subst heq
      rw [lineFor_of_find? hline]
      by_cases hat : line.spool = i <;>
        simp [Spool.ofProducer, Handover.isWritingAt, hbuilt, Arrival.isFor, hat]
    · simp [heq, Ne.symm heq, Spool.ofProducer]
  | @aside j a spool next own hspool step hreplies hdealt hwriting =>
    refine hquiet rfl ?_ rfl
    by_cases heq : j = i
    · rw [heq, effectsOf_self, hdealt]
    · rw [effectsOf_other heq]
      rfl
  | @written j other line spool next own hspool step hline hwriting hwrites hdealt =>
    obtain ⟨rfl, hphase⟩ := Handover.isWritingAt_iff.mp hwriting
    rw [handedBy_of_quiet rfl, lineFor_put hline rfl]
    by_cases heq : thread = other
    · subst heq
      rw [lineFor_of_find? hline]
      by_cases hat : line.spool = i
      · subst hat
        simp [effectsOf_self, hdealt, Spool.ofProducer, Handover.isWritingAt, hphase]
      · simp [effectsOf_other hat, Spool.dealt, Spool.ofProducer, Handover.isWritingAt, hat]
    · by_cases hat : line.spool = i
      · subst hat
        simp [effectsOf_self, hdealt, Spool.ofProducer, heq, Ne.symm heq]
      · simp [effectsOf_other hat, Spool.dealt, Spool.ofProducer, heq]
  | @counted other line reply hline hanswered =>
    have hwriting : line.isWritingAt i = false := by simp [Handover.isWritingAt, hanswered]
    exact hquiet rfl rfl (lineFor_remove hline rfl hwriting thread)

/-- What a spool is done with, of the lines that a thread writes to it, is what the thread has handed
over in time: each line as it is, in the same order, up to one that is still being written. -/
theorem dealt_of_thread (h : (start settings sources).run actions = some (s, effects))
    (i thread : Nat) :
    (Spool.ofProducer (· == thread) (Spool.dealt (effectsOf i effects))).map (·.2) ++
        (s.lineFor i thread).toList =
      ((handedBy thread actions effects).filter (Arrival.isFor i)).map (·.line) := by
  have hstart : Buffered sources [] (start settings sources) [] := buffered_of_run rfl
  -- That a run is buffered is carried along: a step adds to what was handed over only if each line
  -- before it was paired with its arrival.
  refine (run_induction_on (P := fun actions s effects => Buffered sources actions s effects ∧
    (Spool.ofProducer (· == thread) (Spool.dealt (effectsOf i effects))).map (·.2) ++
        (s.lineFor i thread).toList =
      ((handedBy thread actions effects).filter (Arrival.isFor i)).map (·.line))
    ⟨hstart, rfl⟩ ?_ h).2
  rintro actions s effects a t es - ⟨hbuffered, ih⟩ step
  refine ⟨hbuffered.preserve step, ?_⟩
  rw [handedBy_append hbuffered.paired, List.filter_append, List.map_append, ← ih,
    effectsOf_append, Spool.dealt_append, Spool.ofProducer_append, List.map_append,
    List.append_assoc, List.append_assoc, dealt_of_transition step]

/-- A thread that starts to write hands over the line that it has built, in time if the writer is
still open. -/
theorem handed_of_transition {thread : Nat} (step : Transition s (.hand thread) t es) :
    ∃ line, s.handovers.find? thread = some line ∧ line.phase = .built ∧
      arrivals es = [⟨line.source, line.spool, line.line, s.isOpen line.spool⟩] ∧
      t.handovers = s.handovers.put thread
        { line with phase := if s.isOpen line.spool then .writing else .answered .closed } := by
  cases step with
  | @refused _ line spool hline hbuilt hspool hhandles hclosed =>
    have hopen : s.isOpen line.spool = false := by rw [isOpen_eq hspool, hclosed]; rfl
    exact ⟨line, hline, hbuilt, by rw [hopen]; rfl, by rw [hopen]; rfl⟩
  | @writing _ line spool hline hbuilt hspool hhandles hclosed =>
    have hopen : s.isOpen line.spool = true := by rw [isOpen_eq hspool, hclosed]; rfl
    exact ⟨line, hline, hbuilt, by rw [hopen]; rfl, by rw [hopen]; rfl⟩

/-- In a run this is the line of its latest event, as it stands in its buffer. -/
theorem hand_of_run (h : (start settings sources).run actions = some (s, effects)) {thread : Nat}
    (hstep : s.step (.hand thread) = some (t, es)) :
    ∃ line, (builtLines sources thread actions).getLast? = some line ∧
      s.buffer thread = ⟨line.line⟩ ∧
      arrivals es = [⟨line.source, line.spool, (s.buffer thread).bytes, s.isOpen line.spool⟩] ∧
      t.lineFor line.spool thread =
        if s.isOpen line.spool then some (s.buffer thread).bytes else none := by
  have hbuffered := buffered_of_run h
  obtain ⟨line, hline, hbuilt, harrivals, hput⟩ :=
    handed_of_transition (.of_step (attached_of_run h) hstep)
  have hheld := hbuffered.holds thread line hline
  refine ⟨line, ?_, hheld, by rw [harrivals, hheld], ?_⟩
  · rw [hbuffered.inOrder, unhanded_of_built hline hbuilt, List.getLast?_concat]
  · rw [lineFor_put hline hput, if_pos rfl, hheld]
    cases s.isOpen line.spool <;> simp [Handover.isWritingAt]

end Feed

namespace Session

/-- What a session does with an event does not depend on what was built in its buffer before. -/
theorem record_of_buffer (world : Session) (buffer : LineBuffer) (e : Event) :
    ∃ kept, ({ world with buffer } : Session).record e = { world.record e with buffer := kept } := by
  cases hrecorder : world.observers.recorder with
  | none => exact ⟨buffer, by simp [record, hrecorder]⟩
  | some r =>
    obtain ⟨i, recorder⟩ := r
    cases hignores : recorder.ignores e with
    | true =>
      have hother := record_of_ignored (s := { world with buffer }) hrecorder hignores
      exact ⟨buffer, by rw [hother, record_of_ignored hrecorder hignores]⟩
    | false =>
      have hrecord := record_of_passing hrecorder hignores rfl
      have hother := record_of_passing (s := { world with buffer }) hrecorder hignores rfl
      exact ⟨(world.record e).buffer, hother.trans hrecord.symm⟩

end Session

namespace Feed

variable {settings : List SpoolSettings} {sources : List Source} {s : Feed}
  {actions : List FeedAction} {effects : List FeedEffect}

/-- In every run of a feed, however many recorders a thread shows its events to, whatever their
spools, thresholds and names, and however workers, closing and overflow come in between:

* a thread hands over the lines of its own events that are not left out, each once and in order, but
  for one that it has just built; the line of an event is what the record of that event, under the
  name of its recorder, adds to an empty buffer;
* from when a line is built until its answer is counted, the buffer of its thread holds the line and
  nothing else, and to start to write is to hand over that buffer, as the line of the latest event;
* what a spool queues for a thread, or counts as lost, or is still being written, are those lines,
  as they are and in order;
* what stands in a channel at some instant stays as it is, whatever events come later: the worker
  attempts these records before those that are queued later, and those that it did not attempt are
  still there, unless it is lost.

In a session too, what comes of an event does not depend on what the buffer held before. -/
theorem lines_never_leak (h : (start settings sources).run actions = some (s, effects)) :
    (∀ thread, builtLines sources thread actions =
      (handedBy thread actions effects).map Arrival.asBuilt ++ s.unhanded thread) ∧
    (handing actions).length = (arrivals effects).length ∧
    (∀ thread line, s.handovers.find? thread = some line → s.buffer thread = ⟨line.line⟩) ∧
    (∀ thread t es, s.step (.hand thread) = some (t, es) → ∃ line,
      (builtLines sources thread actions).getLast? = some line ∧ s.buffer thread = ⟨line.line⟩ ∧
      arrivals es = [⟨line.source, line.spool, (s.buffer thread).bytes, s.isOpen line.spool⟩] ∧
      t.lineFor line.spool thread =
        if s.isOpen line.spool then some (s.buffer thread).bytes else none) ∧
    (∀ i spool, s.spools[i]? = some spool → ∀ thread, spool.writing thread = s.lineFor i thread) ∧
    (∀ i thread, (Spool.ofProducer (· == thread) (Spool.dealt (effectsOf i effects))).map (·.2) ++
        (s.lineFor i thread).toList =
      ((handedBy thread actions effects).filter (Arrival.isFor i)).map (·.line)) ∧
    (∀ later t more, s.run later = some (t, more) → ∀ i spool, s.spools[i]? = some spool →
      ∃ next, t.spools[i]? = some next ∧
        Spool.attempts (effectsOf i more) <+:
          spool.channel.toList ++ Spool.queued (effectsOf i more) ∧
        ((∀ loss, next.worker ≠ .lost loss) →
          spool.channel.toList ++ Spool.queued (effectsOf i more) =
            Spool.attempts (effectsOf i more) ++ next.channel.toList)) ∧
    (∀ (world : Session) (buffer : LineBuffer) (e : Event), ∃ kept,
      ({ world with buffer } : Session).record e = { world.record e with buffer := kept }) := by
  have hattached := attached_of_run h
  have hbuffered := buffered_of_run h
  refine ⟨hbuffered.inOrder, hbuffered.paired, hbuffered.holds, fun thread t es => hand_of_run h,
    hattached.writes, dealt_of_thread h, fun later t more hlater i spool hspool => ?_,
    Session.record_of_buffer⟩
  obtain ⟨own, next, hnext, hown⟩ := ownRun_of_run hattached hlater hspool
  have hforwards := Spool.forwards_of_run hown
  exact ⟨next, hnext, hforwards.attempted, hforwards.kept⟩

/-- A recorder that tags its lines with a name, and one for another spool that leaves out nothing for
its severity. -/
def neighbours : List Source :=
  [⟨0, { serviceName := some "billing" }⟩, ⟨1, { threshold := .trace }⟩]

/-- A long event and a short one. -/
def longEvent : Event :=
  { severity := .error, target := "app", fields := [("message", .text "first")] }

/-- The short one. -/
def shortEvent : Event := { severity := .debug, target := "app" }

/-- On one thread a long line is queued for the first spool and a short one for the second; then one
event is left out, a line finds no slot, another comes too late, and a last one is only built. -/
def takingTurns : List FeedAction :=
  [.event 0 0 longEvent Session.epoch, .hand 0, .spool 0 (.advance 0), .spool 0 (.advance 0),
    .count 0,
    .event 0 1 shortEvent Session.epoch, .hand 0, .spool 1 (.advance 0), .spool 1 (.advance 0),
    .count 0,
    .event 0 0 shortEvent Session.epoch,
    .event 0 0 longEvent Session.epoch, .hand 0, .spool 0 (.advance 0), .spool 0 (.advance 0),
    .count 0,
    .spool 0 .close, .event 0 0 longEvent Session.epoch, .hand 0, .count 0,
    .event 0 1 shortEvent Session.epoch]

/-- The line of the long event, under the name of its recorder. -/
def longLine : Bytes := (longEvent.record Session.epoch (some "billing")).appendTo []

/-- The line of the short event, under no name. -/
def shortLine : Bytes := (shortEvent.record Session.epoch none).appendTo []

set_option maxRecDepth 2000 in
/-- The thread has built five lines and handed over four of them; its buffer holds the last one, and
what the first spool has queued is still the first line. -/
theorem lines_never_leak_takingTurns :
    ∃ s effects, (start [{ capacity := 1 }, {}] neighbours).run takingTurns = some (s, effects) ∧
      (builtLines neighbours 0 takingTurns).map (·.line) =
        [longLine, shortLine, longLine, longLine, shortLine] ∧
      builtLines neighbours 0 takingTurns =
        (handedBy 0 takingTurns effects).map Arrival.asBuilt ++ s.unhanded 0 ∧
      s.buffer 0 = ⟨shortLine⟩ ∧
      ((handedBy 0 takingTurns effects).filter (Arrival.isFor 0)).map (·.line) =
        [longLine, longLine] ∧
      (∃ t es, s.step (.hand 0) = some (t, es) ∧ t.lineFor 1 0 = some shortLine) ∧
      ∃ spool, s.spools[0]? = some spool ∧ spool.channel.toList ++ [] = [longLine] ++ [] := by
  obtain ⟨horder, -, hbuffer, hhand, -, hdealt, hlater, -⟩ :=
    @lines_never_leak [{ capacity := 1 }, {}] neighbours _ takingTurns _ rfl
  obtain ⟨next, hnext, -, hkept⟩ := hlater [.spool 0 .receive] _ _ rfl 0 _ rfl
  cases hnext
  obtain ⟨line, hlatest, -, -, hwritten⟩ := hhand 0 _ _ rfl
  cases hlatest
  exact ⟨_, _, rfl, rfl, horder 0, hbuffer 0 _ rfl, (hdealt 0 0).symm, ⟨_, _, rfl, hwritten⟩,
    _, rfl, hkept nofun⟩

end Feed

end LogSpool

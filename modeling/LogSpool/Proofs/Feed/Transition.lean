import LogSpool.Feed
import LogSpool.Proofs.Record.Line
import LogSpool.Proofs.Spool.Producers
set_option autoImplicit false

/-!
# Feeds: what a step can do

`Attached` ties the spools of a feed to the lines on their way: each spool has run on its own,
and what its calls write are the lines that threads are writing to it.  `Transition` says what
each step of such a feed needs, what it changes and which effects it has; that what a spool
reports is left out by every recorder is seen here, once.
-/

namespace LogSpool

/-! ## What recorders leave out -/

/-- Own targets are the spool's own and those below it, and no other that begins alike. -/
theorem isOwnTarget_iff (target : String) : isOwnTarget target = true ↔
    target = ownTarget ∨ ∃ rest, target = ownTarget ++ "::" ++ rest := by
  unfold isOwnTarget
  simp only [Bool.and_eq_true, Bool.or_eq_true, List.isPrefixOf_iff_prefix, List.isEmpty_iff]
  constructor
  · rintro ⟨⟨rest, hrest⟩, hend⟩
    rw [← hrest, List.drop_left] at hend
    rcases hend with rfl | ⟨below, rfl⟩
    · rw [List.append_nil] at hrest
      exact .inl (String.toList_inj.mp hrest).symm
    · refine .inr ⟨String.ofList below, String.toList_inj.mp ?_⟩
      rw [← hrest]
      simp
  · rintro (rfl | ⟨rest, rfl⟩) <;> simp

namespace Recorder

theorem ignores_iff (r : Recorder) (e : Event) : r.ignores e = true ↔
    r.threshold.rank < e.severity.rank ∨
      (e.target = ownTarget ∨ ∃ rest, e.target = ownTarget ++ "::" ++ rest) := by
  rw [← isOwnTarget_iff]
  simp [ignores, Severity.passes]

/-- What a spool reports is left out, whatever the threshold. -/
theorem ignores_diagnostic (r : Recorder) (d : Diagnostic) : r.ignores d.event = true := by
  rw [ignores_iff]
  exact .inr (.inr ⟨"writer", rfl⟩)

end Recorder

theorem LineBuffer.fill_eq (b : LineBuffer) (r : Record) : b.fill r = ⟨r.encode⟩ := rfl

theorem Record.encode_ne_nil (r : Record) : r.encode ≠ [] := by
  rw [encode_eq]
  exact List.append_ne_nil_of_right_ne_nil _ (List.cons_ne_nil _ _)

namespace Spool

/-! ## Answers to calls that write -/

theorem replies_judge (s : Spool) (record : Bytes) (outcome : Outcome) :
    replies (.counted none record (outcome.fate record) :: s.verdictReports record outcome) = [] := by
  change replies (s.verdictReports record outcome) = []
  refine List.filterMap_eq_nil_iff.mpr fun e he => ?_
  obtain ⟨d, rfl⟩ := reported_of_mem_verdictReports he
  rfl

theorem replies_finishFlush (outcome : FlushOutcome) :
    replies (flushReports outcome ++ [.reported .exiting, .released]) = [] := by
  cases outcome <;> rfl

/-- The records that calls write. -/
def writing (s : Spool) (call : Nat) : Option Bytes := (s.writes.find? call).map (·.record)

theorem writing_put {s t : Spool} {call : Nat} {record : Bytes} {phase next : WritePhase}
    (hw : s.writes.find? call = some ⟨record, phase⟩)
    (ht : t.writes = s.writes.put call ⟨record, next⟩) (other : Nat) :
    t.writing other = s.writing other := by
  unfold writing
  rw [ht, Calls.find?_put]
  split
  · next heq =>
    rw [heq, hw]
    rfl
  · rfl

/-- Where no call starts to write, either none is answered and none is done, or one call is
both: it is told that its record is taken care of. -/
theorem writing_of_transition {s t : Spool} {a : Action} {es : List Effect}
    (step : Transition s a t es) (ha : a.isEntry = false) :
    (replies es = [] ∧ dealt es = [] ∧ ∀ call, t.writing call = s.writing call) ∨
      ∃ call w, a = .advance call ∧ s.writes.find? call = some w ∧
        t.writes = s.writes.remove call ∧ replies es = [(call, .accepted w.record.length)] ∧
        dealt es = [(call, w.record)] ∧ reports es = [] := by
  cases step with
  | enterClosed | enterEmpty | enter => cases ha
  | reserve hw | overflow hw | refuse hw | giveBack hw | wakeFromWrite hw =>
    exact .inl ⟨rfl, rfl, writing_put hw rfl⟩
  | send hw | countLost hw => exact .inr ⟨_, _, rfl, hw, rfl, rfl, rfl, rfl⟩
  | @judge record outcome =>
    have hdealt : dealt (s.verdictReports record outcome) = [] :=
      dealt_of_isSilent (isSilent_verdictReports s record outcome)
    exact .inl ⟨replies_judge s record outcome, hdealt, fun _ => rfl⟩
  | finishFlush outcome =>
    exact .inl ⟨replies_finishFlush outcome, dealt_of_isSilent (isSilent_finishFlush outcome),
      fun _ => rfl⟩
  | _ => exact .inl ⟨rfl, rfl, fun _ => rfl⟩

/-- A call that starts to write a record is refused, or goes on. -/
theorem entry_of_transition {s t : Spool} {call : Nat} {record : Bytes} {es : List Effect}
    (step : Transition s (.enter call record) t es) (hrecord : record ≠ []) :
    0 < s.handles ∧ s.closed = true ∧ t = s ∧ es = [.answered call .closed] ∨
      0 < s.handles ∧ s.closed = false ∧
        t = { s with writes := s.writes.add call ⟨record, .entered⟩ } ∧ es = [] := by
  cases step with
  | enterClosed hhandles _ hclosed => exact .inl ⟨hhandles, hclosed, rfl, rfl⟩
  | enterEmpty => exact absurd rfl hrecord
  | enter hhandles _ hopen _ => exact .inr ⟨hhandles, hopen, rfl, rfl⟩

end Spool

/-- The call that writes it is under way. -/
@[simp] def HandoverPhase.isWriting : HandoverPhase → Bool
  | writing => true
  | _ => false

/-- The line is being written to a spool. -/
def Handover.isWritingAt (i : Nat) (h : Handover) : Bool := h.spool == i && h.phase.isWriting

theorem Handover.isWritingAt_iff {i : Nat} {h : Handover} :
    h.isWritingAt i = true ↔ h.spool = i ∧ h.phase = .writing := by
  cases hphase : h.phase <;> simp [isWritingAt, hphase]

namespace Feed

variable {settings : List SpoolSettings} {sources : List Source} {s t : Feed} {a : FeedAction}
  {effects es : List FeedEffect}

/-- The effects of the steps of a spool. -/
def effectsOf (i : Nat) (effects : List FeedEffect) : List Effect :=
  effects.filterMap fun
    | .spool j effect => if j = i then some effect else none
    | _ => none

theorem effectsOf_append (i : Nat) (before after : List FeedEffect) :
    effectsOf i (before ++ after) = effectsOf i before ++ effectsOf i after :=
  List.filterMap_append

theorem effectsOf_self (i : Nat) (effects : List Effect) :
    effectsOf i (effects.map (.spool i)) = effects := by
  simp only [effectsOf, List.filterMap_map, Function.comp_def, ↓reduceIte, List.filterMap_some]

theorem effectsOf_other {i j : Nat} (h : j ≠ i) (effects : List Effect) :
    effectsOf i (effects.map (.spool j)) = [] := by
  simp [effectsOf, h]

/-- The line that a thread is writing to a spool. -/
def lineFor (s : Feed) (i thread : Nat) : Option Bytes :=
  ((s.handovers.find? thread).filter (·.isWritingAt i)).map (·.line)

/-- The spools of a feed have each run on its own, and what their calls write are the lines
that threads are writing to them. -/
structure Attached (settings : List SpoolSettings) (s : Feed) (effects : List FeedEffect) : Prop where
  runs : ∀ i spool, s.spools[i]? = some spool → ∃ own actions, settings[i]? = some own ∧
    (Spool.start own.slots).run actions = some (spool, effectsOf i effects)
  writes : ∀ i spool, s.spools[i]? = some spool → ∀ thread,
    spool.writing thread = s.lineFor i thread
  lines : ∀ thread h, s.handovers.find? thread = some h → h.line ≠ [] ∧
    ∃ source, s.sources[h.source]? = some source ∧ source.spool = h.spool

/-- One possible step of a feed: what it needs, what it leaves behind, and its effects. -/
inductive Transition (s : Feed) : FeedAction → Feed → List FeedEffect → Prop
  /-- The recorder leaves the event out. -/
  | ignored {thread k : Nat} {e : Event} {time : Time.Stamp} {source : Source}
      (hsource : s.sources[k]? = some source) (hfree : s.handovers.find? thread = none)
      (hignores : source.recorder.ignores e = true) :
      Transition s (.event thread k e time) { s with sources := s.sources.modify k Source.see }
        [.shown k e time]
  /-- The line of the event is built. -/
  | built {thread k : Nat} {e : Event} {time : Time.Stamp} {source : Source}
      (hsource : s.sources[k]? = some source) (hfree : s.handovers.find? thread = none)
      (hpasses : source.recorder.ignores e = false) :
      Transition s (.event thread k e time)
        { s with
          sources := s.sources.modify k Source.see
          buffers := s.buffers.add thread ⟨(e.record time source.recorder.serviceName).encode⟩
          handovers := s.handovers.add thread
            { source := k
              spool := source.spool
              line := (e.record time source.recorder.serviceName).encode } }
        [.shown k e time]
  /-- A recorder is shown what was reported, and leaves it out. -/
  | relayed {thread place k : Nat} {time : Time.Stamp} {d : Diagnostic} {source : Source}
      (hnews : s.news[place]? = some (k, d)) (hsource : s.sources[k]? = some source)
      (hfree : s.handovers.find? thread = none) :
      Transition s (.relay thread place time)
        { s with news := s.news.eraseIdx place, sources := s.sources.modify k Source.see }
        [.relayed k d]
  /-- The line reaches a closed spool. -/
  | refused {thread : Nat} {h : Handover} {spool : Spool} (hline : s.handovers.find? thread = some h)
      (hbuilt : h.phase = .built) (hspool : s.spools[h.spool]? = some spool)
      (hhandles : 0 < spool.handles) (hclosed : spool.closed = true) :
      Transition s (.hand thread)
        { s with handovers := s.handovers.put thread { h with phase := .answered .closed } }
        [.reached ⟨h.source, h.spool, h.line, false⟩, .spool h.spool (.answered thread .closed)]
  /-- The line reaches an open spool. -/
  | writing {thread : Nat} {h : Handover} {spool : Spool} (hline : s.handovers.find? thread = some h)
      (hbuilt : h.phase = .built) (hspool : s.spools[h.spool]? = some spool)
      (hhandles : 0 < spool.handles) (hopen : spool.closed = false) :
      Transition s (.hand thread)
        { s with
          spools := s.spools.set h.spool
            { spool with writes := spool.writes.add thread ⟨h.line, .entered⟩ }
          handovers := s.handovers.put thread { h with phase := .writing } }
        [.reached ⟨h.source, h.spool, h.line, true⟩]
  /-- A spool takes a step that no thread hears of. -/
  | aside {i : Nat} {a : Action} {spool next : Spool} {effects : List Effect}
      (hspool : s.spools[i]? = some spool) (step : Spool.Transition spool a next effects)
      (hreplies : Spool.replies effects = []) (hdealt : Spool.dealt effects = [])
      (hwriting : ∀ call, next.writing call = spool.writing call) :
      Transition s (.spool i a)
        { s with spools := s.spools.set i next, news := s.news ++ s.newsOf effects }
        (effects.map (.spool i))
  /-- A spool is done with a line, and its thread hears of it. -/
  | written {i thread : Nat} {h : Handover} {spool next : Spool} {effects : List Effect}
      (hspool : s.spools[i]? = some spool) (step : Spool.Transition spool (.advance thread) next effects)
      (hline : s.handovers.find? thread = some h) (hwriting : h.isWritingAt i = true)
      (hwrites : next.writes = spool.writes.remove thread)
      (hdealt : Spool.dealt effects = [(thread, h.line)]) :
      Transition s (.spool i (.advance thread))
        { s with
          spools := s.spools.set i next
          handovers := s.handovers.put thread
            { h with phase := .answered (.accepted h.line.length) } }
        (effects.map (.spool i))
  /-- The answer to a line is counted. -/
  | counted {thread : Nat} {h : Handover} {reply : Reply} (hline : s.handovers.find? thread = some h)
      (hanswered : h.phase = .answered reply) :
      Transition s (.count thread) (s.tally thread h (reply != .closed))
        [.tallied h.source (reply != .closed)]

namespace Attached

/-- A call that a spool has under way writes the line of its thread. -/
theorem handover_of_writes (h : Attached settings s effects) {i call : Nat} {spool : Spool}
    (hspool : s.spools[i]? = some spool) {w : WriteCall} (hw : spool.writes.find? call = some w) :
    ∃ line, s.handovers.find? call = some line ∧ line.isWritingAt i = true ∧ line.line = w.record := by
  have hwrites := h.writes i spool hspool call
  simp only [Spool.writing, lineFor, hw, Option.map_some] at hwrites
  obtain ⟨line, hline, hrecord⟩ := Option.map_eq_some_iff.mp hwrites.symm
  obtain ⟨hfind, hwriting⟩ := Option.filter_eq_some_iff.mp hline
  exact ⟨line, hfind, hwriting, hrecord⟩

theorem writes_of_not_writing (h : Attached settings s effects) {i thread : Nat} {spool : Spool}
    (hspool : s.spools[i]? = some spool) {line : Handover}
    (hline : s.handovers.find? thread = some line) (hnot : line.isWritingAt i = false) :
    spool.writes.find? thread = none := by
  have hwrites := h.writes i spool hspool thread
  simpa [Spool.writing, lineFor, hline, Option.filter, hnot] using hwrites

/-- A thread without a line on its way has no call at any spool. -/
theorem writes_of_free (h : Attached settings s effects) {i thread : Nat} {spool : Spool}
    (hspool : s.spools[i]? = some spool) (hfree : s.handovers.find? thread = none) :
    spool.writes.find? thread = none := by
  have hwrites := h.writes i spool hspool thread
  simpa [Spool.writing, lineFor, hfree] using hwrites

end Attached

theorem present_eq {thread k : Nat} {e : Event} {time : Time.Stamp}
    (h : s.present thread k e time = some t) :
    ∃ source, s.sources[k]? = some source ∧ s.handovers.find? thread = none ∧
      ((source.recorder.ignores e = true ∧ t = { s with sources := s.sources.modify k Source.see }) ∨
        (source.recorder.ignores e = false ∧ t =
          { s with
            sources := s.sources.modify k Source.see
            buffers := s.buffers.add thread ⟨(e.record time source.recorder.serviceName).encode⟩
            handovers := s.handovers.add thread
              { source := k
                spool := source.spool
                line := (e.record time source.recorder.serviceName).encode } })) := by
  unfold present at h
  split at h
  · next source hsource hfree =>
    refine ⟨source, hsource, hfree, ?_⟩
    have hsee : source.see.recorder.ignores e = source.recorder.ignores e := rfl
    simp only [hsee] at h
    split at h
    · next hignores =>
      cases h
      exact .inl ⟨hignores, rfl⟩
    · next hpasses =>
      cases h
      exact .inr ⟨by simpa using hpasses, rfl⟩
  · cases h

theorem isOpen_eq {i : Nat} {spool : Spool} (h : s.spools[i]? = some spool) :
    s.isOpen i = !spool.closed := by
  simp [isOpen, h]

theorem of_stepSpool {i : Nat} {a : Action} {es : List Effect}
    (h : s.stepSpool i a = some (t, es)) :
    ∃ spool next, s.spools[i]? = some spool ∧ Spool.Transition spool a next es ∧
      t = s.putSpool i next es := by
  obtain ⟨spool, hspool, hstep⟩ := Option.bind_eq_some_iff.mp h
  obtain ⟨⟨next, effects⟩, hnext, heq⟩ := Option.map_eq_some_iff.mp hstep
  cases heq
  exact ⟨spool, next, hspool, .of_step hnext, rfl⟩

namespace Transition

theorem of_hand (hattached : Attached settings s effects) {thread : Nat} {h : Handover}
    (hline : s.handovers.find? thread = some h) (hbuilt : h.phase = .built)
    (hstep : s.hand thread h = some (t, es)) : Transition s (.hand thread) t es := by
  unfold hand at hstep
  obtain ⟨⟨u, own⟩, hown, heq⟩ := Option.map_eq_some_iff.mp hstep
  cases heq
  obtain ⟨spool, next, hfound, step, rfl⟩ := of_stepSpool hown
  have hspool : s.spools[h.spool]? = some spool := hfound
  rw [isOpen_eq hspool]
  rcases Spool.entry_of_transition step (hattached.lines thread h hline).1 with
    ⟨hhandles, hclosed, rfl, rfl⟩ | ⟨hhandles, hopen, rfl, rfl⟩
  · rw [hclosed]
    have hheard : (s.handovers.put thread { h with phase := .writing }).find? thread =
        some { h with phase := .writing } := Calls.find?_put_self hline _
    have hset : s.spools.set h.spool next = s.spools := by
      obtain ⟨hlt, hget⟩ := List.getElem?_eq_some_iff.mp hspool
      rw [← hget, List.set_getElem_self]
    simpa [putSpool, Spool.replies, Spool.reports, newsOf, hear, hheard, Calls.put_put, hset] using
      Transition.refused hline hbuilt hspool hhandles hclosed
  · simpa [putSpool, Spool.replies, Spool.reports, newsOf, hopen] using
      Transition.writing hline hbuilt hspool hhandles hopen

theorem of_step (hattached : Attached settings s effects) (h : s.step a = some (t, es)) :
    Transition s a t es := by
  cases a with
  | event thread k e time =>
    obtain ⟨u, hu, heq⟩ := Option.map_eq_some_iff.mp h
    cases heq
    obtain ⟨source, hsource, hfree, ⟨hignores, rfl⟩ | ⟨hpasses, rfl⟩⟩ := present_eq hu
    · exact .ignored hsource hfree hignores
    · exact .built hsource hfree hpasses
  | relay thread place time =>
    simp only [step] at h
    split at h
    · next k d hnews =>
      obtain ⟨u, hu, heq⟩ := Option.map_eq_some_iff.mp h
      cases heq
      obtain ⟨source, hsource, hfree, ⟨-, rfl⟩ | ⟨hpasses, -⟩⟩ := present_eq hu
      · exact .relayed hnews hsource hfree
      · rw [Recorder.ignores_diagnostic] at hpasses
        cases hpasses
    · cases h
  | hand thread =>
    simp only [step] at h
    split at h
    · next line hline =>
      obtain ⟨hbuilt, hstep⟩ := Option.ite_none_right_eq_some.mp h
      exact of_hand hattached hline hbuilt hstep
    · cases h
  | spool i a =>
    have hentry : a.isEntry = false := by
      cases a with
      | enter => cases h
      | _ => rfl
    have hown : (s.stepSpool i a).map (fun r => (r.1, r.2.map (FeedEffect.spool i))) = some (t, es) := by
      cases a with
      | enter => cases h
      | _ => exact h
    obtain ⟨⟨u, own⟩, htaken, heq⟩ := Option.map_eq_some_iff.mp hown
    cases heq
    obtain ⟨spool, next, hspool, step, rfl⟩ := of_stepSpool htaken
    rcases Spool.writing_of_transition step hentry with ⟨hreplies, hdealt, hwriting⟩ |
      ⟨call, w, rfl, hw, hwrites, hreplies, hdealt, hreports⟩
    · have hput : s.putSpool i next own =
          { s with spools := s.spools.set i next, news := s.news ++ s.newsOf own } := by
        simp [putSpool, hreplies]
      rw [hput]
      exact .aside hspool step hreplies hdealt hwriting
    · obtain ⟨line, hline, hwriting, hrecord⟩ := hattached.handover_of_writes hspool hw
      have hput : s.putSpool i next own =
          { s with
            spools := s.spools.set i next
            handovers := s.handovers.put call
              { line with phase := .answered (.accepted line.line.length) } } := by
        simp [putSpool, hreplies, hreports, newsOf, hear, hline, hrecord]
      rw [hput]
      exact .written hspool step hline hwriting hwrites (hrecord ▸ hdealt)
  | count thread =>
    simp only [step] at h
    split at h
    · next line hline =>
      split at h
      · next reply hanswered =>
        cases h
        exact .counted hline hanswered
      · cases h
      · cases h
    · cases h

end Transition

end Feed

end LogSpool

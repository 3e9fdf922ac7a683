import LogSpool.Proofs.Feed.Run
import LogSpool.Proofs.Spool.Answering
set_option autoImplicit false

/-!
# Feeds: a thread hands its line over

A thread that has built a line can always write it and have the answer counted, by steps of its
own: `run_refused` at a spool that is closed, and `run_admitted` at one that is open.
-/

namespace LogSpool.Feed

variable {settings : List SpoolSettings} {s t u : Feed} {a : FeedAction} {rest : List FeedAction}
  {effects es more : List FeedEffect} {thread i n : Nat} {line : Handover} {spool next : Spool}
  {own : List Effect} {reply : Reply}

theorem run_cons_of_step (h : s.step a = some (t, es)) (hrest : t.run rest = some (u, more)) :
    s.run (a :: rest) = some (u, es ++ more) := by
  simp [run, h, hrest]

theorem run_of_step (h : s.step a = some (t, es)) : s.run [a] = some (t, es) := by
  simp [run, h]

theorem run_trans {before after : List FeedAction} (h : s.run before = some (t, es))
    (hafter : t.run after = some (u, more)) : s.run (before ++ after) = some (u, es ++ more) := by
  induction before generalizing s es with
  | nil =>
    cases h
    exact hafter
  | cons a rest ih =>
    simp only [run, Option.bind_eq_bind, Option.pure_def] at h
    obtain ⟨⟨v, first⟩, hv, h⟩ := Option.bind_eq_some_iff.mp h
    obtain ⟨⟨w, later⟩, hw, heq⟩ := Option.bind_eq_some_iff.mp h
    cases heq
    rw [List.append_assoc]
    exact run_cons_of_step hv (ih hw)

theorem step_advance_of_silent (hspool : s.spools[i]? = some spool)
    (step : Spool.Transition spool (.advance thread) next own) (hreplies : Spool.replies own = []) :
    s.step (.spool i (.advance thread)) =
      some ({ s with spools := s.spools.set i next }, own.map (.spool i)) := by
  simp [Feed.step, stepSpool, hspool, step.step_eq, putSpool, hreplies, newsOf,
    Spool.reports_of_advance step]

theorem step_advance_of_answer (hspool : s.spools[i]? = some spool)
    (hline : s.handovers.find? thread = some line)
    (step : Spool.Transition spool (.advance thread) next own)
    (hreplies : Spool.replies own = [(thread, reply)]) :
    s.step (.spool i (.advance thread)) =
      some ({ s with
        spools := s.spools.set i next
        handovers := s.handovers.put thread { line with phase := .answered reply } },
        own.map (.spool i)) := by
  simp [Feed.step, stepSpool, hspool, step.step_eq, putSpool, hreplies, hear, hline, newsOf,
    Spool.reports_of_advance step]

/-- While the call of a thread goes on until it is answered, nothing else changes. -/
theorem run_of_goesOn (h : Spool.GoesOn thread n spool next own reply)
    (hspool : s.spools[i]? = some spool) (hline : s.handovers.find? thread = some line) :
    s.run (List.replicate n (.spool i (.advance thread))) =
      some ({ s with
        spools := s.spools.set i next
        handovers := s.handovers.put thread { line with phase := .answered reply } },
        own.map (.spool i)) := by
  induction h generalizing s with
  | answered step hreplies => exact run_of_step (step_advance_of_answer hspool hline step hreplies)
  | @next n first mid last es more reply step hreplies _ ih =>
    obtain ⟨hlt, -⟩ := List.getElem?_eq_some_iff.mp hspool
    have hmid : (s.spools.set i mid)[i]? = some mid := List.getElem?_set_self hlt
    have hrest := ih (s := { s with spools := s.spools.set i mid }) hmid hline
    have hrun := run_cons_of_step (step_advance_of_silent hspool step hreplies) hrest
    simpa [List.replicate_succ] using hrun

theorem step_event_of_ignored {k : Nat} {e : Event} {source : Source}
    (hsource : s.sources[k]? = some source) (hfree : s.handovers.find? thread = none)
    (hignores : source.recorder.ignores e = true) (time : Time.Stamp) :
    s.step (.event thread k e time) =
      some ({ s with sources := s.sources.modify k Source.see }, [.shown k e time]) := by
  have hsee : source.see.recorder.ignores e = true := hignores
  simp [Feed.step, present, hsource, hfree, hsee]

theorem step_event_of_passing {k : Nat} {e : Event} {source : Source}
    (hsource : s.sources[k]? = some source) (hfree : s.handovers.find? thread = none)
    (hpasses : source.recorder.ignores e = false) (time : Time.Stamp) :
    s.step (.event thread k e time) =
      some ({ s with
        sources := s.sources.modify k Source.see
        buffers := s.buffers.add thread ⟨(e.record time source.recorder.serviceName).encode⟩
        handovers := s.handovers.add thread
          { source := k
            spool := source.spool
            line := (e.record time source.recorder.serviceName).encode } }, [.shown k e time]) := by
  have hsee : source.see.recorder.ignores e = false := hpasses
  simp [Feed.step, present, hsource, hfree, hsee, LineBuffer.fill_eq]

theorem step_hand_of_closed (hline : s.handovers.find? thread = some line)
    (hbuilt : line.phase = .built) (hspool : s.spools[line.spool]? = some spool)
    (hhandles : 0 < spool.handles) (hnew : spool.writes.find? thread = none)
    (hclosed : spool.closed = true) :
    s.step (.hand thread) =
      some ({ s with handovers := s.handovers.put thread { line with phase := .answered .closed } },
        [.reached ⟨line.source, line.spool, line.line, false⟩,
          .spool line.spool (.answered thread .closed)]) := by
  have hstep : spool.step (.enter thread line.line) = some (spool, [.answered thread .closed]) :=
    (Spool.Transition.enterClosed hhandles hnew hclosed).step_eq
  have hheard : (s.handovers.put thread { line with phase := .writing }).find? thread =
      some { line with phase := .writing } := Calls.find?_put_self hline _
  have hset : s.spools.set line.spool spool = s.spools := by
    obtain ⟨hlt, hget⟩ := List.getElem?_eq_some_iff.mp hspool
    rw [← hget, List.set_getElem_self]
  simp [Feed.step, hline, hbuilt, hand, stepSpool, hspool, hstep, putSpool, Spool.replies, hear,
    hheard, Calls.put_put, hset, newsOf, Spool.reports, isOpen_eq hspool, hclosed]

theorem step_hand_of_open (hline : s.handovers.find? thread = some line)
    (hbuilt : line.phase = .built) (hspool : s.spools[line.spool]? = some spool)
    (hhandles : 0 < spool.handles) (hnew : spool.writes.find? thread = none)
    (hopen : spool.closed = false) (hfilled : line.line ≠ []) :
    s.step (.hand thread) =
      some ({ s with
        spools := s.spools.set line.spool
          { spool with writes := spool.writes.add thread ⟨line.line, .entered⟩ }
        handovers := s.handovers.put thread { line with phase := .writing } },
        [.reached ⟨line.source, line.spool, line.line, true⟩]) := by
  have hstep : spool.step (.enter thread line.line) =
      some ({ spool with writes := spool.writes.add thread ⟨line.line, .entered⟩ }, []) :=
    (Spool.Transition.enter hhandles hnew hopen hfilled).step_eq
  simp [Feed.step, hline, hbuilt, hand, stepSpool, hspool, hstep, putSpool, Spool.replies,
    newsOf, Spool.reports, isOpen_eq hspool, hopen]

theorem step_count {taken : Bool} (hline : s.handovers.find? thread = some line)
    (hput : t.handovers = s.handovers.put thread { line with phase := .answered reply })
    (htaken : (reply != .closed) = taken) :
    t.step (.count thread) =
      some ({ t with
        sources := t.sources.modify line.source (·.offer taken)
        handovers := s.handovers.remove thread }, [.tallied line.source taken]) := by
  have hanswered : t.handovers.find? thread = some { line with phase := .answered reply } := by
    rw [hput, Calls.find?_put_self hline]
  simp only [Feed.step, hanswered]
  simp [tally, hput, Calls.remove_put, htaken]

/-- A line that reaches a closed spool is refused; its recorder counts that, and nothing else
happens. -/
theorem run_refused (hline : s.handovers.find? thread = some line) (hbuilt : line.phase = .built)
    (hspool : s.spools[line.spool]? = some spool) (hhandles : 0 < spool.handles)
    (hnew : spool.writes.find? thread = none) (hclosed : spool.closed = true) :
    s.run [.hand thread, .count thread] =
      some ({ s with
        sources := s.sources.modify line.source (·.offer false)
        handovers := s.handovers.remove thread },
        [.reached ⟨line.source, line.spool, line.line, false⟩,
          .spool line.spool (.answered thread .closed), .tallied line.source false]) :=
  run_cons_of_step (step_hand_of_closed hline hbuilt hspool hhandles hnew hclosed)
    (run_of_step (step_count hline rfl rfl))

/-- A line that reaches an open spool is taken care of after at most five steps of its call; its
recorder counts that, and no other spool, recorder or line changes. -/
theorem run_admitted (hline : s.handovers.find? thread = some line) (hbuilt : line.phase = .built)
    (hspool : s.spools[line.spool]? = some spool) (hhandles : 0 < spool.handles)
    (hnew : spool.writes.find? thread = none) (hopen : spool.closed = false)
    (hfilled : line.line ≠ []) :
    ∃ n next own, n ≤ 5 ∧
      s.run (.hand thread :: (List.replicate n (.spool line.spool (.advance thread)) ++
        [.count thread])) =
          some ({ s with
            spools := s.spools.set line.spool next
            sources := s.sources.modify line.source (·.offer true)
            handovers := s.handovers.remove thread },
            .reached ⟨line.source, line.spool, line.line, true⟩ ::
              (own.map (.spool line.spool) ++ [.tallied line.source true])) ∧
      Spool.GoesOn thread n { spool with writes := spool.writes.add thread ⟨line.line, .entered⟩ }
        next own (.accepted line.line.length) := by
  obtain ⟨n, next, own, hn, hgoes, -⟩ := Spool.answers_of_find?
    (s := { spool with writes := spool.writes.add thread ⟨line.line, .entered⟩ })
    (Calls.find?_add_self _ thread _)
  refine ⟨n, next, own, hn, ?_, hgoes⟩
  obtain ⟨hlt, -⟩ := List.getElem?_eq_some_iff.mp hspool
  have hwriting := Calls.find?_put_self hline { line with phase := .writing }
  have hwrite := run_of_goesOn
    (s := { s with
      spools := s.spools.set line.spool
        { spool with writes := spool.writes.add thread ⟨line.line, .entered⟩ }
      handovers := s.handovers.put thread { line with phase := .writing } })
    hgoes (List.getElem?_set_self hlt) hwriting
  simp only [List.set_set, Calls.put_put] at hwrite
  have htaken : (Reply.accepted line.line.length != .closed) = true := rfl
  have hrun := run_cons_of_step
    (step_hand_of_open hline hbuilt hspool hhandles hnew hopen hfilled)
    (run_trans hwrite (run_of_step (step_count hline rfl htaken)))
  simpa using hrun

/-! ## Whole events -/

/-- What a thread does with an event that its recorder lets pass, while the spool is closed:
the recorder counts the event and the refusal, and nothing but the thread's buffer changes
besides. -/
theorem run_event_refused {k : Nat} {e : Event} {source : Source}
    (hsource : s.sources[k]? = some source) (hfree : s.handovers.find? thread = none)
    (hpasses : source.recorder.ignores e = false) (time : Time.Stamp)
    (hspool : s.spools[source.spool]? = some spool) (hhandles : 0 < spool.handles)
    (hnew : spool.writes.find? thread = none) (hclosed : spool.closed = true) :
    s.run [.event thread k e time, .hand thread, .count thread] =
      some ({ s with
        sources := s.sources.modify k fun source => source.see.offer false
        buffers := s.buffers.add thread ⟨(e.record time source.recorder.serviceName).encode⟩ },
        [.shown k e time,
          .reached ⟨k, source.spool, (e.record time source.recorder.serviceName).encode, false⟩,
          .spool source.spool (.answered thread .closed), .tallied k false]) := by
  have hbuilt := step_event_of_passing hsource hfree hpasses time
  have hrun := run_cons_of_step hbuilt
    (run_refused (Calls.find?_add_self _ _ _) rfl hspool hhandles hnew hclosed)
  simpa [Calls.remove_add hfree, List.modify_modify_eq, Function.comp_def] using hrun

/-- What a thread does with an event that its recorder lets pass, while the spool is open: the
recorder counts the event and the line, the call on the spool goes on until it is answered, and
nothing but the thread's buffer changes besides. -/
theorem run_event_admitted {k : Nat} {e : Event} {source : Source}
    (hsource : s.sources[k]? = some source) (hfree : s.handovers.find? thread = none)
    (hpasses : source.recorder.ignores e = false) (time : Time.Stamp)
    (hspool : s.spools[source.spool]? = some spool) (hhandles : 0 < spool.handles)
    (hnew : spool.writes.find? thread = none) (hopen : spool.closed = false) :
    ∃ n next own, n ≤ 5 ∧
      s.run (.event thread k e time :: .hand thread ::
        (List.replicate n (.spool source.spool (.advance thread)) ++ [.count thread])) =
          some ({ s with
            spools := s.spools.set source.spool next
            sources := s.sources.modify k fun source => source.see.offer true
            buffers := s.buffers.add thread ⟨(e.record time source.recorder.serviceName).encode⟩ },
            .shown k e time ::
              .reached ⟨k, source.spool, (e.record time source.recorder.serviceName).encode, true⟩ ::
                (own.map (.spool source.spool) ++ [.tallied k true])) ∧
      Spool.GoesOn thread n
        { spool with
          writes := spool.writes.add thread
            ⟨(e.record time source.recorder.serviceName).encode, .entered⟩ }
        next own (.accepted (e.record time source.recorder.serviceName).encode.length) := by
  have hbuilt := step_event_of_passing hsource hfree hpasses time
  obtain ⟨n, next, own, hn, hrest, hgoes⟩ := run_admitted
    (s := { s with
      sources := s.sources.modify k Source.see
      buffers := s.buffers.add thread ⟨(e.record time source.recorder.serviceName).encode⟩
      handovers := s.handovers.add thread
        { source := k
          spool := source.spool
          line := (e.record time source.recorder.serviceName).encode } })
    (Calls.find?_add_self _ thread _) rfl hspool hhandles hnew hopen (Record.encode_ne_nil _)
  refine ⟨n, next, own, hn, ?_, hgoes⟩
  have hrun := run_cons_of_step hbuilt hrest
  simpa [Calls.remove_add hfree, List.modify_modify_eq, Function.comp_def] using hrun

end LogSpool.Feed

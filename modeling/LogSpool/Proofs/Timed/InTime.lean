import LogSpool.Proofs.Session.TimedOut
import LogSpool.Proofs.Timed.Shutdown
set_option autoImplicit false

/-!
# Timed spools: answers in time

What a call that waits is told, and what a call that shuts a spool down does to it, answered or
not.  A session waits in the same way, with its one thread and its own clock.

* `drain_times_out_honestly` : what the answers of a call that drains say, and when.
* `timed_out_shutdown_loses_nothing` : that a call that shuts a spool down and gives up leaves all
  that was queued to the worker, and when it gives up.
-/

namespace LogSpool.Timed

variable {r : Runtime} {t : Timed} {moves : List Move} {call timeout : Nat} {ns : List Notice}

/-- On one thread, for every call that drains a spool, in whatever state the spool is:

* where no slot is taken the call is answered at once that the spool is drained;
* its answer comes no later than when its time is up, and if it says that the time is up it
  comes exactly then, with the number of slots taken at that instant, of which there is at
  least one;
* without an answer the time of the call does not pass, and when it is up the call can be
  polled without further delay, and is answered.

Whatever a session was asked to do before, when it drains a station it has such an answer. -/
theorem drain_times_out_honestly (settings : SpoolSettings) (hone : r.oneThread = true)
    (h : (start settings.slots).run r moves = some (t, ns)) (timeout : Nat)
    (hhandles : 0 < t.spool.handles) (hfresh : t.spool.isFresh call = true) :
    (t.spool.pending = 0 → ∃ u, u.now = t.now ∧ t.step r (.drain call timeout) =
      some (u, [.spool (.drained call), .answered call (.ok ())])) ∧
    (t.now + timeout ≤ r.latest →
      (∀ result v, Answers r t (.drain call timeout) call result v →
        v.now ≤ t.now + timeout ∧
          (result = .ok () ∨ (v.now = t.now + timeout ∧ 1 ≤ v.spool.pending ∧
            result = .error (.drainTimeout v.spool.pending)))) ∧
      (∀ u, UnderWay r t (.drain call timeout) call u → u.now ≤ t.now + timeout ∧
        (u.now = t.now + timeout → ∃ wakes v w ms result, (∀ m ∈ wakes, ∃ a, m = .other a) ∧
          u.run r wakes = some (v, []) ∧ v.step r (.poll call) = some (w, ms) ∧
          .answered call result ∈ ms))) ∧
    (∀ (session : Session) i station limit, session.Reached → session.stations[i]? = some station →
      0 < station.spool.handles →
      (session.drain i limit).1.now ≤ session.deadline limit ∧
      (station.spool.pending = 0 →
        (session.drain i limit).2 = .ok () ∧ (session.drain i limit).1.now = session.now) ∧
      ((session.drain i limit).2 = .ok () ∨
        ((session.drain i limit).1.now = session.deadline limit ∧
          ∃ slots, 1 ≤ slots ∧ (session.drain i limit).2 = .error (.drainTimeout slots)))) := by
  refine ⟨step_drain_of_empty r timeout hhandles hfresh, fun htime => ?_,
    fun session i station limit hreached hi hhandles =>
      Session.drain_in_time hreached hi hhandles limit⟩
  have htimely := timely_of_run h
  have hpolls : Polls r t (.drain call timeout) call _ _ [] := .drain hhandles hfresh
  have hdeadline : t.deadline r timeout = t.now + timeout := if_pos htime
  rw [hdeadline] at hpolls
  refine ⟨fun result v hanswers => ?_, fun u hway => ?_⟩
  · obtain ⟨hnow, hok | ⟨hthen, htimeout⟩⟩ := answer_in_time htimely hpolls hanswers
    · exact ⟨hnow, .inl hok⟩
    · rw [htimeout] at hanswers
      obtain ⟨steps, hsteps⟩ := spool_of_run h
      have hpos := pending_pos_of_answers settings hone htimely hsteps hhandles hfresh hanswers
      exact ⟨hnow, .inr ⟨hthen, hpos, htimeout⟩⟩
  · refine ⟨now_le_of_underWay htimely hpolls hway, fun hnow => ?_⟩
    obtain ⟨hlater, hd, -⟩ := deadline_of_underWay htimely hpolls hway
    exact exists_answer hlater hd hnow

/-- At the last instant of a call that drains the sink is done with the record, and then another
record takes the slot before the call is polled. -/
def refilled : List Move :=
  [.pass 10, .other (.finish (.returned 1)), .other .judge, .other .release, .other .wake,
    .other (.enter 1 [2]), .other (.advance 1), .other (.advance 1)]

/-- The call is told that its time is up, and one slot is taken. -/
theorem drain_times_out_honestly_refilled :
    ∃ v ns, (start ({ capacity := 1 } : SpoolSettings).slots).run hundred writing = some (busy, ns) ∧
      Answers hundred busy (.drain 5 10) 5 (.error (.drainTimeout 1)) v ∧ v.now = 10 ∧
      1 ≤ v.spool.pending := by
  obtain ⟨-, htimes, -⟩ := @drain_times_out_honestly hundred busy writing 5 _ { capacity := 1 } rfl rfl
    10 (by decide) rfl
  have hway : UnderWay hundred busy (.drain 5 10) 5 _ := @UnderWay.intro _ _ _ _ refilled _
    [.spool (.counted none [1] .written), .spool (.queued 1 [2]), .spool (.answered 1 (.accepted 1))]
    rfl (by simp) (by decide)
  have hanswers := @Answers.later _ _ _ _ (.error (.drainTimeout 1)) _ _ (.poll 5)
    [.answered 5 (.error (.drainTimeout 1))] hway rfl (by simp)
  obtain ⟨-, hok | ⟨hnow, hsome, -⟩⟩ := (htimes (by decide)).1 _ _ hanswers
  · cases hok
  · exact ⟨_, _, rfl, hanswers, hnow, hsome⟩

/-- For every call that shuts a spool down with an end of its time that can be told, in whatever
state the spool is, and whatever the sink does:

* its answer comes no later than when its time is up, and then the spool is closed; if it says
  that the time is up it comes exactly then, with the number of slots taken at that instant;
* without an answer the time of the call does not pass, and when it is up the call can be polled
  without further delay, and is answered;
* from its start on, whether it is answered or not, gives up or goes on, all work is done as in
  the run in which nobody waits and the spool was closed in its place: slots, channel, worker,
  health and handles are the same after the same time, and so are the records counted, those the
  sink was asked to write, and what was reported; and likewise in every run that differs only in
  who waits;
* the worker gets through the records that are left, and when it is done each record that joined
  the channel was attempted once, in order, and the sink flushed once.

Whatever a session was asked to do before, when it shuts a station down it has such an answer.  If
that says that the time is up the session is, but for who waits at the station, the one that closed
the station and let the same time pass; besides its deferred actions somebody has a handle to the
station then, as the caller of a shutdown has. -/
theorem timed_out_shutdown_loses_nothing (settings : SpoolSettings)
    (h : (start settings.slots).run r moves = some (t, ns)) (htime : t.now + timeout ≤ r.latest) :
    (∀ result v, Answers r t (.shutdown call timeout) call result v →
      v.now ≤ t.now + timeout ∧ v.spool.closed = true ∧
        (result = .ok () ∨ (v.now = t.now + timeout ∧
          result = .error (.drainTimeout v.spool.pending)))) ∧
    (∀ u, UnderWay r t (.shutdown call timeout) call u → u.now ≤ t.now + timeout ∧
      (u.now = t.now + timeout → ∃ wakes v w ms result, (∀ m ∈ wakes, ∃ a, m = .other a) ∧
        u.run r wakes = some (v, []) ∧ v.step r (.poll call) = some (w, ms) ∧
        .answered call result ∈ ms)) ∧
    (∀ rest u ms, t.run r (.shutdown call timeout :: rest) = some (u, ms) →
      t.work.run r (.close :: bare r t.now rest) = some (u.work, (worksOf ms).map .spool) ∧
      (∀ others v gs, t.run r (.close :: others) = some (v, gs) →
        bare r t.now others = bare r t.now rest → v.work = u.work ∧ worksOf gs = worksOf ms) ∧
      Spool.GetsThrough u.spool ∧
      (u.spool.worker = .done →
        Spool.attempts (effectsOf (ns ++ ms)) = Spool.queued (effectsOf (ns ++ ms)) ∧
        Spool.sinkCalls (effectsOf (ns ++ ms)) =
          (Spool.queued (effectsOf (ns ++ ms))).map .write ++ [.flush])) ∧
    (∀ (session : Session) i station ms, session.Reached → session.stations[i]? = some station →
      0 < station.spool.handles →
      (session.shutdown i ms).1.now ≤ session.now + ms ∧
      (∃ last, (session.shutdown i ms).1.stations[i]? = some last ∧ last.spool.closed = true) ∧
      ((session.shutdown i ms).2 = .ok () ∨
        ((session.shutdown i ms).1.now = session.now + ms ∧
          ∃ slots, (session.shutdown i ms).2 = .error (.drainTimeout slots)))) ∧
    (∀ (session : Session) i station ms, session.Reached → session.stations[i]? = some station →
      Session.holding i session.deferred < station.spool.handles →
      (session.shutdown i ms).2 ≠ .ok () →
      (session.shutdown i ms).1.modifyStation i (·.without true) =
        ((session.close i).advance ms).modifyStation i (·.without true)) := by
  have htimely := timely_of_run h
  refine ⟨fun result v hanswers => ?_, fun u hway => ?_, fun rest u ms hrun => ⟨?_, ?_, ?_, ?_⟩,
    ?_, ?_⟩
  · obtain ⟨rest, ms, hrun⟩ := run_of_answers hanswers
    obtain ⟨w, first, last, step, -⟩ := exists_of_run_cons hrun
    obtain ⟨hnow, hresult⟩ := answer_in_time htimely (polls_of_shutdown step htime) hanswers
    exact ⟨hnow, closed_of_shutdown htimely htime hrun, hresult⟩
  · obtain ⟨rest, ms, hrun⟩ := run_of_underWay hway
    obtain ⟨w, first, last, step, -⟩ := exists_of_run_cons hrun
    have hpolls := polls_of_shutdown step htime
    refine ⟨now_le_of_underWay htimely hpolls hway, fun hnow => ?_⟩
    obtain ⟨hlater, hd, -⟩ := deadline_of_underWay htimely hpolls hway
    exact exists_answer hlater hd hnow
  · have hwork := work_of_run htimely hrun
    rwa [bare, Move.bare, if_pos htime] at hwork
  · intro others v gs hothers hsame
    have hwork := work_of_run htimely hrun
    have hother := work_of_run htimely hothers
    simp only [bare, Move.bare, Move.time, if_pos htime] at hwork
    simp only [bare, Move.bare, Move.time, hsame] at hother
    have heq := hother.symm.trans hwork
    simp only [Option.some.injEq, Prod.mk.injEq] at heq
    obtain ⟨hstate, hworks⟩ := heq
    refine ⟨hstate, ?_⟩
    rw [← effectsOf_map (worksOf gs), hworks, effectsOf_map]
  · obtain ⟨steps, hsteps⟩ := spool_of_run (run_trans h hrun)
    exact Spool.getsThrough_of_run (Spool.slots_bounds settings).1 hsteps
  · exact sinkCalls_of_done settings (run_trans h hrun)
  · intro session i station ms hreached hi hhandles
    exact Session.shutdown_in_time hreached hi hhandles ms
  · intro session i station ms hreached hi hspare hvain
    exact Session.shutdown_timed_out hreached hi hspare hvain

/-- The call is told that its time is up; the record was attempted and the sink flushed as if
somebody had only closed the spool. -/
theorem timed_out_shutdown_loses_nothing_flushing :
    ∃ u v ns ms gs,
      (start ({ capacity := 1 } : SpoolSettings).slots).run hundred writing = some (busy, ns) ∧
      busy.run hundred (.shutdown 5 10 :: overdue) = some (u, ms) ∧
      .answered 5 (.error (.drainTimeout 0)) ∈ ms ∧
      busy.run hundred (.close :: bare hundred 0 overdue) = some (v, gs) ∧
      v.work = u.work ∧ worksOf gs = worksOf ms ∧
      Spool.sinkCalls (effectsOf (ns ++ ms)) =
        (Spool.queued (effectsOf (ns ++ ms))).map .write ++ [.flush] := by
  obtain ⟨-, -, hruns, -⟩ := @timed_out_shutdown_loses_nothing hundred busy writing 5 10 _
    { capacity := 1 } rfl (by decide)
  have hrun : busy.run hundred (.shutdown 5 10 :: overdue) = some (_,
      [.spool (.reported (.closed 1)), .spool (.counted none [1] .written), .spool (.drained 5),
        .spool .flushed, .spool .detached, .answered 5 (.error (.drainTimeout 0)),
        .spool (.reported .exiting), .spool .released]) := rfl
  obtain ⟨-, hsame, -, hflushed⟩ := hruns overdue _ _ hrun
  obtain ⟨hwork, hworks⟩ := hsame (bare hundred 0 overdue) _ _ rfl rfl
  exact ⟨_, _, _, _, _, rfl, hrun, by simp, rfl, hwork, hworks, (hflushed rfl).2⟩

end LogSpool.Timed

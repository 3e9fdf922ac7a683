import LogSpool.Proofs.Spool.Waking
import LogSpool.Proofs.Timed.Run
set_option autoImplicit false

/-!
# Timed spools: deadlines

A call that waits is under way from the move that starts it until it is answered, or until
nobody wants it any more; all that time it has one and the same deadline.  When that has
come the call has an answer at its next poll, and before that only if it has found what it
waits for: `answer_in_time` and `exists_answer`.  A call that drains is told the truth about the
slots that are taken: `answers_of_empty` and `pending_pos_of_answers`.
-/

namespace LogSpool

/-! ## Whoever is about to wake -/

namespace Spool

variable {s : Spool} {a : Action} {call : Nat} {late : Bool} {p : Polled}

theorem isWaking_of_aboutToWake (h : AboutToWake s a) : s.isWaking = true := by
  cases h with
  | worker h => simp [isWaking, h]
  | write h =>
    have hpos := Calls.count_pos (p := (·.phase == .waking)) h rfl
    have hne : (s.writes.count (·.phase == .waking) != 0) = true := by
      simpa using Nat.pos_iff_ne_zero.mp hpos
    rw [isWaking, hne, Bool.or_true]

theorem exists_aboutToWake (h : s.isWaking = true) : ∃ a, AboutToWake s a := by
  unfold isWaking at h
  rcases (Bool.or_eq_true _ _).mp h with hworker | hwrites
  · exact ⟨_, .worker (by simpa using hworker)⟩
  · have hpos : 0 < s.writes.count (·.phase == .waking) := by
      simpa [Nat.pos_iff_ne_zero] using hwrites
    obtain ⟨⟨call, record, phase⟩, hmem, hphase⟩ := List.countP_pos_iff.mp hpos
    have hphase : phase = .waking := by simpa using hphase
    subst hphase
    exact ⟨_, .write (Calls.find?_of_mem hmem)⟩

/-- The number of those who are about to wake who waits. -/
def wakers (s : Spool) : Nat :=
  s.writes.count (·.phase == .waking) + (s.worker == .waking).toNat

/-- Somebody who wakes who waits is not about to do so any more. -/
theorem wakers_lt {t : Spool} {es : List Effect} (h : AboutToWake s a) (step : Transition s a t es) :
    t.wakers < s.wakers ∧ es = [] := by
  cases h with
  | worker hworker =>
    cases step
    refine ⟨?_, rfl⟩
    have hidle : (Worker.idle == Worker.waking) = false := rfl
    simp [wakers, wakeAll, hworker, hidle]
  | @write call record hw =>
    have heq := step.step_eq.symm.trans (Transition.wakeFromWrite hw).step_eq
    cases heq
    refine ⟨?_, rfl⟩
    have hwaking : (WritePhase.waking == WritePhase.waking) = true := rfl
    have hlosing : (WritePhase.losing == WritePhase.waking) = false := rfl
    have hcount := Calls.count_put hw ⟨record, .losing⟩ (·.phase == .waking)
    simp only [hwaking, hlosing, Bool.toNat_true, Bool.toNat_false] at hcount
    simp only [wakers, wakeAll]
    omega

theorem Poll.answered (h : Poll s call true p) : ∃ result, p.result? = some result := by
  cases h with
  | claims hw hawake hnone hphase hunclaimed hp =>
    cases hp with
    | asleep halive hearly => cases hearly
    | _ => exact ⟨_, rfl⟩
  | joining hw hphase hp =>
    cases hp with
    | asleep halive hearly => cases hearly
    | _ => exact ⟨_, rfl⟩
  | asleep hw hbusy hearly => cases hearly
  | _ => exact ⟨_, rfl⟩

/-- A call is answered that it found what it waits for, or that its time is up and how many
slots are taken. -/
theorem Poll.result_cases (h : Poll s call late p) {result : WaitResult}
    (hresult : p.result? = some result) :
    result = .ok () ∨ (late = true ∧ result = .error (.drainTimeout s.pending)) := by
  have hworker : ∀ {t : Spool} {q : Polled}, WorkerPoll t call late q → q.result? = some result →
      result = .ok () ∨ (late = true ∧ result = .error (.drainTimeout t.pending)) := by
    intro t q hq hsome
    cases hq with
    | gone => exact .inl (Option.some.inj hsome).symm
    | expired halive hlate => exact .inr ⟨hlate, (Option.some.inj hsome).symm⟩
    | asleep => cases hsome
  cases h with
  | expired hw hbusy hlate => exact .inr ⟨hlate, (Option.some.inj hresult).symm⟩
  | asleep => cases hresult
  | claims hw hawake hnone hphase hunclaimed hp =>
    have hclaim := hworker hp hresult
    exact hclaim
  | joining hw hphase hp => exact hworker hp hresult
  | _ => exact .inl (Option.some.inj hresult).symm

/-- A call that drains and is told that its time is up was not overlooked: if nobody is about
to wake who waits, a slot is taken. -/
theorem Poll.pending_ne_zero (h : Poll s call late p) {k : Nat}
    (hresult : p.result? = some (.error (.drainTimeout k)))
    (hdrain : s.shutdowns.find? call = none)
    (hseen : s.waiters.find? call = some {} ∨ (Watched s ∧ s.isWaking = false)) :
    s.pending ≠ 0 := by
  cases h with
  | @expired w hw hbusy hlate =>
    cases hawake : w.isAwake with
    | true => exact hbusy hawake
    | false =>
      rcases hseen with hfresh | ⟨hwatched, hfree⟩
      · rw [hfresh] at hw
        cases hw
        cases hawake
      · -- It sleeps, and was not woken.
        have hsleeps : w.parked = true ∧ w.notified = false := by
          simpa [Waiter.isAwake] using hawake
        rcases hwatched call w hw hsleeps.1 hsleeps.2 with hsome | ⟨a, habout⟩
        · exact hsome
        · rw [isWaking_of_aboutToWake habout] at hfree
          cases hfree
  | joining hw hphase =>
    rw [hdrain] at hphase
    cases hphase
  | overtaken hw hawake hnone hphase | claims hw hawake hnone hphase =>
    rw [hdrain] at hphase
    cases hphase
  | _ => cases hresult

theorem Poll.drain (h : Poll s call late p) (hdrain : s.shutdowns.find? call = none) :
    p.spool.shutdowns.find? call = none := by
  cases h with
  | drained | expired => simp [leave, endWaiter, endShutdown, Calls.find?_remove]
  | asleep => exact hdrain
  | overtaken hw hawake hnone hphase | claims hw hawake hnone hphase | joining hw hphase =>
    rw [hdrain] at hphase
    cases hphase

end Spool

/-! ## From the start of a call to its answer -/

namespace Timed

variable {r : Runtime} {t u v : Timed} {m first : Move} {moves : List Move} {call deadline : Nat}
  {ns : List Notice} {result : WaitResult}

/-- The call that a move starts is under way: it was neither answered nor given up yet. -/
inductive UnderWay (r : Runtime) (t : Timed) (first : Move) (call : Nat) : Timed → Prop where
  | intro {rest : List Move} {u : Timed} {ns : List Notice}
      (hrun : t.run r (first :: rest) = some (u, ns)) (hopen : ∀ result, .answered call result ∉ ns)
      (hkept : .giveUp call ∉ rest) : UnderWay r t first call u

theorem UnderWay.next (h : UnderWay r t first call u) (step : Transition r u m v ns)
    (hopen : ∀ result, .answered call result ∉ ns) (hkept : m ≠ .giveUp call) :
    UnderWay r t first call v := by
  obtain ⟨hrun, hbefore, hnever⟩ := h
  refine .intro (run_trans hrun ((run_singleton r u m).trans step.step_eq)) ?_ ?_
  · intro result hmem
    exact (List.mem_append.mp hmem).elim (hbefore result) (hopen result)
  · intro hmem
    rcases List.mem_append.mp hmem with hmem | hmem
    · exact hnever hmem
    · exact hkept (List.mem_singleton.mp hmem).symm

/-- The call that a move starts is answered, by that move or by a later one, which leaves a
state behind. -/
inductive Answers (r : Runtime) (t : Timed) (first : Move) (call : Nat) (result : WaitResult) :
    Timed → Prop where
  | atOnce {u : Timed} {ns : List Notice} (hstart : t.step r first = some (u, ns))
      (hanswer : .answered call result ∈ ns) : Answers r t first call result u
  | later {u v : Timed} {m : Move} {ns : List Notice} (hopen : UnderWay r t first call u)
      (hstep : u.step r m = some (v, ns)) (hanswer : .answered call result ∈ ns) :
      Answers r t first call result v

theorem polls_of_answered (step : Transition r u m v ns) (hanswer : .answered call result ∈ ns) :
    ∃ deadline w es, Polls r u m call deadline w es ∧ v = (w.pollUntil call deadline).1 ∧
      (w.spool.poll call (deadline ≤ w.now)).result? = some result := by
  cases step with
  | @polled m other deadline w es h =>
    have hmem : .answered call result ∈ (w.pollUntil other deadline).2 := by
      rcases List.mem_append.mp hanswer with hmem | hmem
      · simp at hmem
      · exact hmem
    obtain ⟨rfl, hresult⟩ := answered_of_mem_pollUntil hmem
    exact ⟨deadline, w, es, h, rfl, hresult⟩
  | other | close | giveUp => simp at hanswer
  | panic => simp at hanswer
  | pass => cases hanswer

/-- A call keeps its deadline until it is answered or given up, and a call that only drains
goes on to do only that. -/
theorem deadline_of_transition (h : Timely t) (hd : t.deadlines.find? call = some deadline)
    (step : Transition r t m u ns) (hopen : ∀ result, .answered call result ∉ ns)
    (hkept : m ≠ .giveUp call) :
    u.deadlines.find? call = some deadline ∧
      (t.spool.shutdowns.find? call = none → u.spool.shutdowns.find? call = none) := by
  have hwaits := h.waits call deadline hd
  cases step with
  | @other a s es hother step =>
    have hne : a.waiting? ≠ some call := by
      rw [hother]
      nofun
    exact ⟨hd, fun hdrain => (Spool.shutdown_of_other step hne).trans hdrain⟩
  | close | panic | pass => exact ⟨hd, id⟩
  | @giveUp other d s es hdeadline step =>
    have hne : call ≠ other := by
      rintro rfl
      exact hkept rfl
    refine ⟨(Calls.find?_remove_of_ne _ hne).trans hd, fun hdrain => ?_⟩
    refine (Spool.shutdown_of_other step fun heq => ?_).trans hdrain
    exact hne (Option.some.inj heq).symm
  | @polled m other d w es hpolls =>
    rw [spool_pollUntil]
    by_cases heq : call = other
    · subst heq
      cases hpolls with
      | drain hhandles hfresh | shutdown hhandles hfresh =>
        rw [not_fresh_of_waits hwaits] at hfresh
        cases hfresh
      | again hfree hdeadline =>
        rw [hd] at hdeadline
        cases hdeadline
        rcases find?_pollUntil_self hd with ⟨hsame, -⟩ | ⟨-, result, -, hanswer⟩
        · exact ⟨hsame, (Spool.poll_cases hwaits _).drain⟩
        · exact absurd (List.mem_append_right _ hanswer) (hopen result)
    · rw [find?_pollUntil_of_ne heq, hpolls.find?_of_ne heq]
      refine ⟨hd, fun hdrain => ?_⟩
      rw [Spool.shutdown_of_takes heq (Spool.takes_poll _ _ _)]
      cases hpolls with
      | drain => exact hdrain
      | shutdown => exact (Calls.find?_add_of_ne _ heq _).trans hdrain
      | again => exact hdrain

theorem deadline_of_polls (h : Timely t) {w : Timed} {es : List Effect}
    (hpolls : Polls r t m call deadline w es)
    (hopen : ∀ result, .answered call result ∉ (w.pollUntil call deadline).2) :
    (w.pollUntil call deadline).1.deadlines.find? call = some deadline ∧
      (w.spool.shutdowns.find? call = none →
        (w.pollUntil call deadline).1.spool.shutdowns.find? call = none) := by
  rcases find?_pollUntil_self hpolls.find?_self with ⟨hsame, -⟩ | ⟨-, result, -, hanswer⟩
  · rw [spool_pollUntil]
    exact ⟨hsame, (Spool.poll_cases (hpolls.waits (h.waits call)) _).drain⟩
  · exact absurd hanswer (hopen result)

/-- A call that is under way has the deadline it started with. -/
theorem deadline_of_underWay (h : Timely t) {w : Timed} {es : List Effect}
    (hpolls : Polls r t first call deadline w es) (hway : UnderWay r t first call u) :
    Timely u ∧ u.deadlines.find? call = some deadline ∧
      (w.spool.shutdowns.find? call = none → u.spool.shutdowns.find? call = none) := by
  obtain ⟨hrun, hopen, hkept⟩ := hway
  obtain ⟨v, before, after, hstep, hrest, rfl⟩ := exists_of_run_cons hrun
  have hfirst := hstep.step_eq.symm.trans (Transition.polled hpolls).step_eq
  cases hfirst
  -- The call keeps its deadline from the first poll on.
  refine run_induction (P := fun rest u ns => (∀ result, .answered call result ∉ ns) →
      .giveUp call ∉ rest → Timely u ∧ u.deadlines.find? call = some deadline ∧
        (w.spool.shutdowns.find? call = none → u.spool.shutdowns.find? call = none))
    (fun _ _ => ?_) ?_ hrest (fun result hmem => hopen result (List.mem_append_right _ hmem))
    (fun hmem => hkept (by simpa using hmem))
  · refine ⟨h.preserve (.polled hpolls), deadline_of_polls h hpolls fun result hmem => ?_⟩
    exact hopen result (List.mem_append_left _ (List.mem_append_right _ hmem))
  · intro rest u ns m v ms _ ih step hopen hkept
    obtain ⟨htimely, hd, hdrain⟩ := ih (fun result hmem => hopen result (List.mem_append_left _ hmem))
      (fun hmem => hkept (List.mem_append_left _ hmem))
    obtain ⟨hnext, hphase⟩ := deadline_of_transition htimely hd step
      (fun result hmem => hopen result (List.mem_append_right _ hmem))
      (fun heq => hkept (by simp [heq]))
    exact ⟨htimely.preserve step, hnext, fun hnone => hphase (hdrain hnone)⟩

/-- A call that is answered was polled with the deadline it started with: at once, or again
when it was under way. -/
theorem polls_of_answers (h : Timely t) {w : Timed} {es : List Effect}
    (hpolls : Polls r t first call deadline w es) (hanswers : Answers r t first call result v) :
    (v = (w.pollUntil call deadline).1 ∧
      (w.spool.poll call (deadline ≤ w.now)).result? = some result) ∨
    ∃ u, UnderWay r t first call u ∧ v = (u.pollUntil call deadline).1 ∧
      (r.oneThread = true → u.spool.isWaking = false) ∧
      (u.spool.poll call (deadline ≤ u.now)).result? = some result := by
  cases hanswers with
  | atOnce hstart hanswer =>
    have hfirst := hstart.symm.trans (Transition.polled hpolls).step_eq
    cases hfirst
    have hmem : .answered call result ∈ (w.pollUntil call deadline).2 := by
      rcases List.mem_append.mp hanswer with hmem | hmem
      · simp at hmem
      · exact hmem
    exact .inl ⟨rfl, (answered_of_mem_pollUntil hmem).2⟩
  | @later u _ m ns hopen hstep hanswer =>
    obtain ⟨htimely, hd, -⟩ := deadline_of_underWay h hpolls hopen
    obtain ⟨other, x, fs, hagain, rfl, hresult⟩ := polls_of_answered (.of_step hstep) hanswer
    refine .inr ⟨u, hopen, ?_⟩
    cases hagain with
    | drain hhandles hfresh | shutdown hhandles hfresh =>
      rw [not_fresh_of_waits (htimely.waits call deadline hd)] at hfresh
      cases hfresh
    | again hfree hdeadline =>
      rw [hd] at hdeadline
      cases hdeadline
      exact ⟨rfl, hfree, hresult⟩

/-! ## What an answer says, and when -/

/-- No call is under way when its time is over. -/
theorem now_le_of_underWay (h : Timely t) {w : Timed} {es : List Effect}
    (hpolls : Polls r t first call deadline w es) (hway : UnderWay r t first call u) :
    u.now ≤ deadline := by
  obtain ⟨htimely, hd, -⟩ := deadline_of_underWay h hpolls hway
  exact htimely.ahead call deadline hd

/-- The answer of a poll comes in time; that the time is up is said only then, with the number
of slots taken. -/
theorem answer_of_poll {w : Timed} (hwaits : w.spool.Waits call) (hahead : w.now ≤ deadline)
    (hresult : (w.spool.poll call (deadline ≤ w.now)).result? = some result) :
    (w.pollUntil call deadline).1.now ≤ deadline ∧
      (result = .ok () ∨ ((w.pollUntil call deadline).1.now = deadline ∧
        result = .error (.drainTimeout (w.pollUntil call deadline).1.spool.pending))) := by
  have hpoll := Spool.poll_cases hwaits (deadline ≤ w.now)
  have hpending : (w.pollUntil call deadline).1.spool.pending = w.spool.pending := by
    rw [spool_pollUntil]
    exact hpoll.pending_eq
  rw [now_pollUntil, hpending]
  refine ⟨hahead, ?_⟩
  rcases hpoll.result_cases hresult with hok | ⟨hlate, htimeout⟩
  · exact .inl hok
  · exact .inr ⟨Nat.le_antisymm hahead (of_decide_eq_true hlate), htimeout⟩

/-- A call is answered in time; that its time is up it is told only then, with the number of
slots taken at that instant. -/
theorem answer_in_time (h : Timely t) {w : Timed} {es : List Effect}
    (hpolls : Polls r t first call deadline w es) (hanswers : Answers r t first call result v) :
    v.now ≤ deadline ∧
      (result = .ok () ∨ (v.now = deadline ∧ result = .error (.drainTimeout v.spool.pending))) := by
  rcases polls_of_answers h hpolls hanswers with ⟨rfl, hresult⟩ | ⟨u, hopen, rfl, -, hresult⟩
  · refine answer_of_poll (hpolls.waits (h.waits call)) ?_ hresult
    rw [hpolls.now_eq]
    exact hpolls.ahead (h.ahead call)
  · obtain ⟨htimely, hd, -⟩ := deadline_of_underWay h hpolls hopen
    exact answer_of_poll (htimely.waits call deadline hd) (htimely.ahead call deadline hd) hresult

/-- Whoever is about to wake who waits can do so at once, and then nobody is. -/
theorem exists_calm (r : Runtime) (t : Timed) :
    ∃ wakes u, (∀ m ∈ wakes, ∃ a, m = .other a) ∧ t.run r wakes = some (u, []) ∧
      u.now = t.now ∧ u.deadlines = t.deadlines ∧ u.spool.isWaking = false := by
  induction hn : t.spool.wakers using Nat.strongRecOn generalizing t with
  | ind n ih =>
    cases hwaking : t.spool.isWaking with
    | false => exact ⟨[], t, nofun, rfl, rfl, rfl, hwaking⟩
    | true =>
      obtain ⟨a, habout⟩ := Spool.exists_aboutToWake hwaking
      obtain ⟨s, hstep, -, -⟩ := habout.step
      have hother : a.waiting? = none := by
        cases habout <;> rfl
      obtain ⟨wakes, u, hwakes, hrun, hnow, hdeadlines, hcalm⟩ :=
        ih s.wakers (hn ▸ (Spool.wakers_lt habout hstep).1) { t with spool := s } rfl
      refine ⟨.other a :: wakes, u, ?_, ?_, hnow, hdeadlines, hcalm⟩
      · rintro m (_ | ⟨_, hm⟩)
        · exact ⟨a, rfl⟩
        · exact hwakes m hm
      · rw [run_cons, (Transition.other hother hstep).step_eq, Option.bind_some, hrun]
        rfl

/-- A call whose time has come can be polled without further delay, and is answered. -/
theorem exists_answer (h : Timely t) (hd : t.deadlines.find? call = some deadline)
    (hnow : t.now = deadline) :
    ∃ wakes u v ns result, (∀ m ∈ wakes, ∃ a, m = .other a) ∧ t.run r wakes = some (u, []) ∧
      u.step r (.poll call) = some (v, ns) ∧ .answered call result ∈ ns := by
  obtain ⟨wakes, u, hwakes, hrun, hsame, hdeadlines, hcalm⟩ := exists_calm r t
  have htimely : Timely u := run_induction (P := fun _ u _ => Timely u) h
    (fun _ ih step => ih.preserve step) hrun
  have hstill : u.deadlines.find? call = some deadline := by rw [hdeadlines, hd]
  have hlate : decide (deadline ≤ u.now) = true := decide_eq_true (by omega)
  have hpoll := Spool.poll_cases (htimely.waits call deadline hstill) true
  obtain ⟨result, hresult⟩ := hpoll.answered
  have hpolled : Transition r u (.poll call) _ _ := .polled (.again (fun _ => hcalm) hstill)
  refine ⟨wakes, u, _, _, result, hwakes, hrun, hpolled.step_eq, List.mem_append_right _ ?_⟩
  rw [pollUntil, hlate, settle_of_some hresult]
  simp

/-- Nobody sleeps on unnoticed in a timed spool. -/
theorem watched_of_run (settings : SpoolSettings) {steps : List Action} {es : List Effect}
    (hsteps : (Spool.start settings.slots).run steps = some (t.spool, es))
    (h : t.run r moves = some (u, ns)) : u.spool.Watched := by
  obtain ⟨more, hmore⟩ := spool_of_run h
  exact Spool.watched_of_run (Spool.slots_bounds settings).1 (Spool.run_trans hsteps hmore)

/-- A call that drains a spool where no slot is taken is answered at once. -/
theorem step_drain_of_empty (r : Runtime) (timeout : Nat) (hhandles : 0 < t.spool.handles)
    (hfresh : t.spool.isFresh call = true) (hnone : t.spool.pending = 0) :
    ∃ u, u.now = t.now ∧ t.step r (.drain call timeout) =
      some (u, [.spool (.drained call), .answered call (.ok ())]) := by
  let armed := t.drainedBy call (t.deadline r timeout)
  have hpolls : Polls r t (.drain call timeout) call _ armed [] := .drain hhandles hfresh
  have hdrain : armed.spool.shutdowns.find? call = none := (Spool.isFresh_iff.mp hfresh).2
  have hwaiter : armed.spool.waiters.find? call = some {} := Calls.find?_add_self _ _ _
  have hanswer : (armed.pollUntil call (t.deadline r timeout)).2 =
      [.spool (.drained call), .answered call (.ok ())] := by
    rw [pollUntil, Spool.poll_of_drain hdrain, Spool.pollDrain_drained hwaiter rfl hnone]
    rfl
  refine ⟨(armed.pollUntil call (t.deadline r timeout)).1, now_pollUntil _ _ _, ?_⟩
  rw [(Transition.polled hpolls).step_eq, hanswer]
  rfl

theorem answers_of_empty {timeout : Nat} (hhandles : 0 < t.spool.handles)
    (hfresh : t.spool.isFresh call = true) (hnone : t.spool.pending = 0)
    (hanswers : Answers r t (.drain call timeout) call result v) :
    result = .ok () ∧ v.now = t.now := by
  obtain ⟨u, hnow, hdrained⟩ := step_drain_of_empty r timeout hhandles hfresh hnone
  cases hanswers with
  | atOnce hstart hanswer =>
    cases hdrained.symm.trans hstart
    exact ⟨by simpa using hanswer, hnow⟩
  | later hopen =>
    obtain ⟨hrun, hunanswered, -⟩ := hopen
    obtain ⟨w, first, last, step, -, rfl⟩ := exists_of_run_cons hrun
    cases hdrained.symm.trans step.step_eq
    exact absurd (by simp) (hunanswered (.ok ()))

theorem pending_pos_of_poll {w : Timed} {k : Nat} (hwaits : w.spool.Waits call)
    (hdrain : w.spool.shutdowns.find? call = none)
    (hseen : w.spool.waiters.find? call = some {} ∨
      (w.spool.Watched ∧ w.spool.isWaking = false))
    (hresult : (w.spool.poll call (deadline ≤ w.now)).result? = some (.error (.drainTimeout k))) :
    1 ≤ (w.pollUntil call deadline).1.spool.pending := by
  have hpoll := Spool.poll_cases hwaits (deadline ≤ w.now)
  rw [spool_pollUntil, hpoll.pending_eq]
  exact Nat.pos_of_ne_zero (hpoll.pending_ne_zero hresult hdrain hseen)

/-- On one thread a call that drains is told that its time is up only while a slot is taken. -/
theorem pending_pos_of_answers (settings : SpoolSettings) (hone : r.oneThread = true)
    (h : Timely t) {steps : List Action} {es : List Effect}
    (hsteps : (Spool.start settings.slots).run steps = some (t.spool, es)) {timeout k : Nat}
    (hhandles : 0 < t.spool.handles) (hfresh : t.spool.isFresh call = true)
    (hanswers : Answers r t (.drain call timeout) call (.error (.drainTimeout k)) v) :
    1 ≤ v.spool.pending := by
  have hdrain := (Spool.isFresh_iff.mp hfresh).2
  have hpolls : Polls r t (.drain call timeout) call _ _ [] := .drain hhandles hfresh
  rcases polls_of_answers h hpolls hanswers with ⟨rfl, hresult⟩ | ⟨u, hopen, rfl, hfree, hresult⟩
  · have hwaiter := Calls.find?_add_self t.spool.waiters call ({} : Waiter)
    exact pending_pos_of_poll (hpolls.waits (h.waits call)) hdrain (.inl hwaiter) hresult
  · obtain ⟨hlater, hd, hphase⟩ := deadline_of_underWay h hpolls hopen
    obtain ⟨hrun, -, -⟩ := hopen
    have hwatched := watched_of_run settings hsteps hrun
    exact pending_pos_of_poll (hlater.waits call _ hd) (hphase hdrain) (.inr ⟨hwatched, hfree hone⟩)
      hresult

end Timed

end LogSpool

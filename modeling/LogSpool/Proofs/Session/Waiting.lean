import LogSpool.Proofs.Session.Calm
import LogSpool.Proofs.Timed.Work
set_option autoImplicit false

/-!
# Sessions: calls that wait

A session that drains a station or shuts it down lets its tasks have their turns until they all
wait, and then the clock jumps to when something is due.  To the spool of the station that is a run
of a timed spool, at which the call is polled and answered: `drain_answers`, `shutdown_answers`.

* `drain_in_time`, `shutdown_in_time` : what a session has for an answer, and when, whatever it was
  asked to do before.
-/

namespace LogSpool

open Timed (Answers UnderWay Timely)

/-- A station at an instant where no call waits, as a timed spool. -/
def Station.timed (station : Station) (now : Nat) : Timed := { spool := station.spool, now }

namespace Session

variable {s t : Session} {i : Nat} {station : Station} {r : Runtime} {Q : Timed → Prop}

/-! ## A station as a timed spool -/

/-- The spool of a station is, at the time of the session and with the deadlines of the calls that
wait, a timed spool of some kind. -/
def At (i : Nat) (deadlines : Calls Nat) (Q : Timed → Prop) (s : Session) : Prop :=
  ∃ station, s.stations[i]? = some station ∧ Q ⟨station.spool, s.now, deadlines⟩

/-- What others than those who wait keep of timed spools is kept of a station step by step. -/
theorem stepwise_at (i : Nat) (deadlines : Calls Nat)
    (hQ : ∀ {t u : Timed} {a : Action} {ns : List Timed.Notice}, Q t →
      Timed.Transition r t (.other a) u ns → Q u) : Stepwise (At i deadlines Q) where
  frame := by
    rintro s t ⟨station, hi, hq⟩ hstations hnow
    refine ⟨station, by rw [hstations]; exact hi, ?_⟩
    rw [hnow]
    exact hq
  step := by
    rintro s k other a next es ⟨station, hi, hq⟩ hk ha step
    by_cases heq : k = i
    · subst heq
      cases hk.symm.trans hi
      exact ⟨_, station_putSpool hi next, hQ hq (.other ha step)⟩
    · exact ⟨station, (station_putSpool_of_ne s heq next).trans hi, hq⟩
  progress := by
    rintro s k progress ⟨station, hi, hq⟩
    by_cases heq : k = i
    · subst heq
      exact ⟨{ station with progress }, by simp [modifyStation, Array.getElem?_modify, hi], hq⟩
    · exact ⟨station, by simp [modifyStation, Array.getElem?_modify, heq, hi], hq⟩
  push := by
    rintro s added capacity ⟨station, hi, hq⟩ -
    obtain ⟨hlt, -⟩ := Array.getElem?_eq_some_iff.mp hi
    refine ⟨station, ?_, hq⟩
    rw [← hi, Array.getElem?_push_lt hlt, Array.getElem?_eq_getElem hlt]

theorem stepwise_now (now : Nat) : Stepwise fun s => s.now = now where
  frame h _ hnow := hnow.trans h
  step h _ _ _ := h
  progress _ _ h := h
  push h _ := h

theorem Keeps.and {P P' : Session → Prop} (hP : Keeps P) (hP' : Keeps P') :
    Keeps fun s => P s ∧ P' s where
  frame h hstations hnow := ⟨hP.frame h.1 hstations hnow, hP'.frame h.2 hstations hnow⟩
  write i record h := ⟨hP.write i record h.1, hP'.write i record h.2⟩
  step h hi ha step := ⟨hP.step h.1 hi ha step, hP'.step h.2 hi ha step⟩
  giveBack i h := ⟨hP.giveBack i h.1, hP'.giveBack i h.2⟩
  progress i progress h := ⟨hP.progress i progress h.1, hP'.progress i progress h.2⟩
  push h hstart := ⟨hP.push h.1 hstart, hP'.push h.2 hstart⟩

/-! ## Waiting until something comes of it -/

/-- The next time at which something is due is not after the limit, and is still to come if the
limit is. -/
theorem nextTime_bounds (s : Session) (alarms : List Nat) (limit : Nat) :
    s.nextTime alarms limit ≤ limit ∧ (s.now < limit → s.now < s.nextTime alarms limit) := by
  have hfold : ∀ (times : List Nat) (limit : Nat), (∀ time ∈ times, s.now < time) →
      times.foldl min limit ≤ limit ∧ (s.now < limit → s.now < times.foldl min limit) := by
    intro times
    induction times with
    | nil => exact fun limit _ => ⟨Nat.le_refl limit, id⟩
    | cons time rest ih =>
      intro limit htimes
      obtain ⟨hle, hlt⟩ := ih (min limit time) fun other hother =>
        htimes other (List.mem_cons_of_mem _ hother)
      have htime := htimes time List.mem_cons_self
      exact ⟨Nat.le_trans hle (Nat.min_le_left _ _),
        fun hlimit => hlt (Nat.lt_min.mpr ⟨hlimit, htime⟩)⟩
  exact hfold _ _ fun time htime => of_decide_eq_true (List.mem_filter.mp htime).2

/-- A wait comes to an end, if a look at the limit is successful. -/
theorem waitUntil_ends {σ α : Type} {look : Look σ α} {alarms : σ → List Nat} {limit : Nat}
    {J : Nat → Session → Prop} {K : α → Session → Prop}
    (hnow : ∀ {now s}, J now s → s.now = now) (hsettle : ∀ {now s}, J now s → J now s.settle)
    (hclock : ∀ {now s} later, J now s → now < later → later ≤ limit → J later (s.setClock later))
    (hlook : ∀ {now s} wait, J now s →
      (∃ more, (look wait s).2 = .inl more ∧ J now (look wait s).1 ∧ now < limit) ∨
        ∃ a, (look wait s).2 = .inr a ∧ K a (look wait s).1)
    {now : Nat} (wait : σ) (h : J now s) :
    ∃ a, (waitUntil look alarms limit now wait s).2 = some a ∧
      K a (waitUntil look alarms limit now wait s).1 := by
  fun_induction waitUntil look alarms limit now wait s with
  | case1 now wait s t a heq =>
    have hlooked := hlook wait (hsettle h)
    simp only [heq] at hlooked
    obtain ⟨more, hmore, -⟩ | ⟨b, hb, hK⟩ := hlooked
    · cases hmore
    · cases hb
      exact ⟨a, rfl, hK⟩
  | case2 now wait s t later heq next hnext u a hagain =>
    have hlooked := hlook wait (hsettle h)
    simp only [heq] at hlooked
    obtain ⟨more, hmore, hJ, -⟩ | ⟨b, hb, -⟩ := hlooked
    · have hlooked := hlook later (hclock next hJ hnext.1 hnext.2)
      simp only [hagain] at hlooked
      obtain ⟨more, hmore, -⟩ | ⟨b, hb, hK⟩ := hlooked
      · cases hmore
      · cases hb
        exact ⟨a, rfl, hK⟩
    · cases hb
  | case3 now wait s t later heq next hnext u last hagain ih =>
    have hlooked := hlook wait (hsettle h)
    simp only [heq] at hlooked
    obtain ⟨more, hmore, hJ, -⟩ | ⟨b, hb, -⟩ := hlooked
    · have hlooked := hlook later (hclock next hJ hnext.1 hnext.2)
      simp only [hagain] at hlooked
      obtain ⟨more, hmore, hJ, -⟩ | ⟨b, hb, -⟩ := hlooked
      · exact ih hJ
      · cases hb
    · cases hb
  | case4 now wait s t later heq next hnext =>
    have hlooked := hlook wait (hsettle h)
    simp only [heq] at hlooked
    obtain ⟨more, hmore, hJ, hlimit⟩ | ⟨b, hb, -⟩ := hlooked
    · -- Before the limit there is always a next time.
      have hbounds := nextTime_bounds t (alarms later) limit
      rw [hnow hJ] at hbounds
      exact absurd ⟨hbounds.2 hlimit, hbounds.1⟩ hnext
    · cases hb

/-! ## A call that is polled -/

variable {t₀ u : Timed} {first : Timed.Move} {number deadline now : Nat} {result : WaitResult}

/-- A call that started with a move waits and has no answer yet. -/
structure Open (r : Runtime) (t₀ : Timed) (first : Timed.Move) (number : Nat) (u : Timed) :
    Prop where
  timely : Timely u
  underWay : UnderWay r t₀ first number u

/-- A call that started with a move has its answer, and only others have done something since. -/
inductive Replied (r : Runtime) (t₀ : Timed) (first : Timed.Move) (number : Nat)
    (result : WaitResult) (u : Timed) : Prop where
  | intro {v : Timed} {others : List Timed.Move} {ns : List Timed.Notice}
      (hanswers : Answers r t₀ first number result v) (hothers : ∀ m ∈ others, ∃ a, m = .other a)
      (hrun : v.run r others = some (u, ns)) : Replied r t₀ first number result u

/-- A poll leaves a call that started with a move waiting, or answers it. -/
structure Pollable (r : Runtime) (t₀ : Timed) (first : Timed.Move) (number deadline : Nat)
    (u : Timed) : Prop where
  waits : u.spool.Waits number
  unanswered : (u.spool.poll number (deadline ≤ u.now)).result? = none →
    Open r t₀ first number (u.pollUntil number deadline).1
  answered : ∀ result, (u.spool.poll number (deadline ≤ u.now)).result? = some result →
    Answers r t₀ first number result (u.pollUntil number deadline).1

theorem Open.other {a : Action} {v : Timed} {ns : List Timed.Notice} (h : Open r t₀ first number u)
    (step : Timed.Transition r u (.other a) v ns) : Open r t₀ first number v := by
  refine ⟨h.timely.preserve step, h.underWay.next step ?_ nofun⟩
  cases step with
  | other => simp
  | polled hpolls => cases hpolls

theorem Replied.of_answers (h : Answers r t₀ first number result u) :
    Replied r t₀ first number result u :=
  .intro h (List.forall_mem_nil _) (Timed.run_nil r u)

theorem Replied.other {a : Action} {v : Timed} {ns : List Timed.Notice}
    (h : Replied r t₀ first number result u) (step : Timed.Transition r u (.other a) v ns) :
    Replied r t₀ first number result v := by
  obtain ⟨hanswers, hothers, hrun⟩ := h
  refine .intro hanswers ?_ (Timed.run_trans hrun ((Timed.run_singleton r u _).trans step.step_eq))
  intro m hm
  rcases List.mem_append.mp hm with hm | hm
  · exact hothers m hm
  · exact ⟨a, List.mem_singleton.mp hm⟩

theorem Pollable.of_polls {es : List Effect} (h : Timely t₀)
    (hpolls : Timed.Polls r t₀ first number deadline u es) :
    Pollable r t₀ first number deadline u := by
  have step : Timed.Transition r t₀ first _ _ := .polled hpolls
  refine ⟨hpolls.waits (h.waits number), fun hnone => ?_, fun result hsome => ?_⟩
  · refine ⟨h.preserve step, .intro ((Timed.run_singleton r t₀ first).trans step.step_eq) ?_ nofun⟩
    intro result hmem
    rcases List.mem_append.mp hmem with hmem | hmem
    · simp at hmem
    · obtain ⟨-, hsome⟩ := Timed.answered_of_mem_pollUntil hmem
      rw [hnone] at hsome
      cases hsome
  · refine .atOnce step.step_eq (List.mem_append_right _ ?_)
    rw [Timed.pollUntil, Timed.settle_of_some hsome]
    simp

/-- A call that waits is polled, where nobody has still to wake who waits. -/
theorem Open.pollable (h : Open r t₀ first number u) (hd : u.deadlines.find? number = some deadline)
    (hcalm : u.spool.isWaking = false) : Pollable r t₀ first number deadline u := by
  have step : Timed.Transition r u (.poll number) _ _ := .polled (.again (fun _ => hcalm) hd)
  refine ⟨h.timely.waits number deadline hd, fun hnone => ⟨h.timely.preserve step, ?_⟩,
    fun result hsome => ?_⟩
  · refine h.underWay.next step ?_ nofun
    intro result hmem
    obtain ⟨-, hsome⟩ := Timed.answered_of_mem_pollUntil hmem
    rw [hnone] at hsome
    cases hsome
  · refine .later h.underWay step.step_eq (List.mem_append_right _ ?_)
    rw [Timed.pollUntil, Timed.settle_of_some hsome]
    simp

/-! ## A session that waits for a call -/

/-- A session at an instant, where a call waits for its answer at a station. -/
def Awaiting (r : Runtime) (t₀ : Timed) (first : Timed.Move) (i number deadline now : Nat)
    (s : Session) : Prop :=
  s.now = now ∧ Calm s ∧ At i (({} : Calls Nat).add number deadline) (Open r t₀ first number) s

/-- A session where a call at a station has its answer. -/
def Answered (r : Runtime) (t₀ : Timed) (first : Timed.Move) (i number : Nat) (result : WaitResult)
    (s : Session) : Prop :=
  Calm s ∧ At i {} (Replied r t₀ first number result) s

theorem keeps_awaiting : Keeps (Awaiting r t₀ first i number deadline now) :=
  (stepwise_now now).keeps.and (keeps_calm.and (stepwise_at i _ Open.other).keeps)

theorem keeps_answered : Keeps (Answered r t₀ first i number result) :=
  keeps_calm.and (stepwise_at i {} Replied.other).keeps

/-- A call that is polled waits on, if its time is not up, or has its answer. -/
theorem poll_ends (hcalm : Calm s) (h : At i (({} : Calls Nat).add number deadline)
      (Pollable r t₀ first number deadline) s) :
    ((poll ⟨i, number, deadline⟩ s).2 = none ∧ s.now < deadline ∧
      Awaiting r t₀ first i number deadline s.now (poll ⟨i, number, deadline⟩ s).1) ∨
    ∃ result, (poll ⟨i, number, deadline⟩ s).2 = some result ∧
      Answered r t₀ first i number result (poll ⟨i, number, deadline⟩ s).1 := by
  obtain ⟨station, hi, hwaits, hopen, hanswers⟩ := h
  dsimp only at hwaits hopen hanswers
  have hpoll := Spool.poll_cases hwaits (deadline ≤ s.now)
  have hspool := (hcalm i station hi).of_work_eq hpoll.work_eq
  have hput := station_putSpool hi (station.spool.poll number (deadline ≤ s.now)).spool
  cases hresult : (station.spool.poll number (deadline ≤ s.now)).result? with
  | none =>
    refine .inl ⟨?_, ?_, ?_⟩
    · simp only [poll, hi, hresult]
    · refine Nat.not_le.mp fun hlate => ?_
      rw [decide_eq_true hlate] at hpoll hresult
      obtain ⟨result, hsome⟩ := hpoll.answered
      rw [hresult] at hsome
      cases hsome
    · simp only [poll, hi]
      refine keeps_awaiting.applyEffects ⟨rfl, hcalm.putSpool hspool, _, hput, ?_⟩ i _
      have hstill := hopen hresult
      rwa [Timed.pollUntil, Timed.settle_of_none hresult] at hstill
  | some result =>
    refine .inr ⟨result, ?_, ?_⟩
    · simp only [poll, hi, hresult]
    · simp only [poll, hi]
      refine keeps_answered.applyEffects ⟨hcalm.putSpool hspool, _, hput, ?_⟩ i _
      have hanswer := hanswers result hresult
      rw [Timed.pollUntil, Timed.settle_of_some hresult, Calls.remove_add rfl] at hanswer
      exact .of_answers hanswer

theorem Awaiting.pollable (h : Awaiting r t₀ first i number deadline now s) :
    At i (({} : Calls Nat).add number deadline) (Pollable r t₀ first number deadline) s := by
  obtain ⟨-, hcalm, station, hi, hopen⟩ := h
  obtain ⟨hwrites, hworker⟩ := hcalm i station hi
  refine ⟨station, hi, hopen.pollable (Calls.find?_add_self _ _ _) ?_⟩
  have hnobody : station.spool.writes.count (·.phase == .waking) = 0 :=
    Calls.count_eq_zero_of_isEmpty hwrites _
  simp [Spool.isWaking, hworker, hnobody]

theorem Awaiting.setClock (h : Awaiting r t₀ first i number deadline now s) {later : Nat}
    (hnow : now ≤ later) (hlater : later ≤ deadline) (hlatest : deadline ≤ r.latest) :
    Awaiting r t₀ first i number deadline later (s.setClock later) := by
  obtain ⟨rfl, hcalm, station, hi, hopen⟩ := h
  have hdeadlines : ∀ call d, (({} : Calls Nat).add number deadline).find? call = some d →
      later ≤ d := by
    intro call d hd
    rcases Calls.find?_of_add hd with ⟨-, rfl⟩ | ⟨-, hd⟩
    · exact hlater
    · cases hd
  have hpass : Timed.Transition r ⟨station.spool, s.now, ({} : Calls Nat).add number deadline⟩
      (.pass later) ⟨station.spool, later, ({} : Calls Nat).add number deadline⟩ [] :=
    .pass hnow (Nat.le_trans hlater hlatest) hdeadlines
  have hopened : Open r t₀ first number ⟨station.spool, later, _⟩ :=
    ⟨hopen.timely.preserve hpass, hopen.underWay.next hpass nofun nofun⟩
  have hset : Awaiting r t₀ first i number deadline later { s with now := later } :=
    ⟨rfl, hcalm, station, hi, hopened⟩
  exact keeps_awaiting.wakeDue hset

/-- A look whether a call has its answer. -/
def lookFor (call : WaitingCall) : Look Unit WaitResult := fun _ s =>
  match s.poll call with
  | (s, some result) => (s, .inr result)
  | (s, none) => (s, .inl ())

/-- A look whether a call has its answer is a poll of the call. -/
theorem lookFor_ends (hcalm : Calm s) (h : At i (({} : Calls Nat).add number deadline)
      (Pollable r t₀ first number deadline) s) (wait : Unit) :
    (∃ more, (lookFor ⟨i, number, deadline⟩ wait s).2 = .inl more ∧
      Awaiting r t₀ first i number deadline s.now (lookFor ⟨i, number, deadline⟩ wait s).1 ∧
      s.now < deadline) ∨
    ∃ result, (lookFor ⟨i, number, deadline⟩ wait s).2 = .inr result ∧
      Answered r t₀ first i number result (lookFor ⟨i, number, deadline⟩ wait s).1 := by
  have hpolled := poll_ends hcalm h
  unfold lookFor
  generalize poll ⟨i, number, deadline⟩ s = polled at hpolled
  obtain ⟨t, result⟩ := polled
  obtain ⟨rfl, hearly, hwaiting⟩ | ⟨result, rfl, hanswered⟩ := hpolled
  · exact .inl ⟨(), rfl, hwaiting, hearly⟩
  · exact .inr ⟨result, rfl, hanswered⟩

/-- A wait for a call that can be polled ends with its answer. -/
theorem await_ends (hcalm : Calm s) (h : At i (({} : Calls Nat).add number deadline)
      (Pollable r t₀ first number deadline) s) (hlatest : deadline ≤ r.latest) :
    ∃ result, (s.await (lookFor ⟨i, number, deadline⟩) deadline ()).2 = some result ∧
      Answered r t₀ first i number result
        (s.await (lookFor ⟨i, number, deadline⟩) deadline ()).1 := by
  have hlooked := lookFor_ends hcalm h ()
  unfold await
  generalize lookFor ⟨i, number, deadline⟩ () s = looked at hlooked
  obtain ⟨t, wait | result⟩ := looked
  · obtain ⟨more, -, hwaiting, -⟩ | ⟨result, hsome, -⟩ := hlooked
    · have hnow : t.now = s.now := hwaiting.1
      rw [← hnow] at hwaiting
      exact waitUntil_ends (J := Awaiting r t₀ first i number deadline) (fun h => h.1)
        keeps_awaiting.settle (fun later h hlt hle => h.setClock (Nat.le_of_lt hlt) hle hlatest)
        (fun wait h => by
          have hlooked := lookFor_ends h.2.1 h.pollable wait
          rwa [h.1] at hlooked)
        wait hwaiting
    · cases hsome
  · obtain ⟨more, hmore, -⟩ | ⟨result, hsome, hanswered⟩ := hlooked
    · cases hmore
    · cases hsome
      exact ⟨result, rfl, hanswered⟩

theorem awaitCall_eq {call : WaitingCall} {result : WaitResult}
    (hsome : (s.await (lookFor call) call.deadline ()).2 = some result) :
    s.awaitCall call = ((s.await (lookFor call) call.deadline ()).1.settle, result) :=
  Prod.ext rfl ((congrArg (Option.getD · _) hsome).trans rfl)

theorem awaitCall_ends (hcalm : Calm s) (h : At i (({} : Calls Nat).add number deadline)
      (Pollable r t₀ first number deadline) s) (hlatest : deadline ≤ r.latest) :
    Answered r t₀ first i number (s.awaitCall ⟨i, number, deadline⟩).2
      (s.awaitCall ⟨i, number, deadline⟩).1 := by
  obtain ⟨result, hsome, hanswered⟩ := await_ends hcalm h hlatest
  rw [awaitCall_eq hsome]
  exact keeps_answered.settle hanswered

/-! ## Draining and shutting down -/

theorem timely_timed (station : Station) (now : Nat) : Timely (station.timed now) := by
  constructor <;> nofun

/-- A session that drains a station makes a run of its timed spool, in which the call that drains is
answered as the session says. -/
theorem drain_answers (hcalm : Calm s) (hi : s.stations[i]? = some station)
    (hhandles : 0 < station.spool.handles) {timeout : Timeout} {span : Nat}
    (hspan : (station.timed s.now).deadline r span = s.deadline timeout)
    (hlatest : s.deadline timeout ≤ r.latest) :
    Answered r (station.timed s.now) (.drain station.spool.newCall span) i station.spool.newCall
      (s.drain i timeout).2 (s.drain i timeout).1 := by
  let call : WaitingCall := ⟨i, station.spool.newCall, s.deadline timeout⟩
  let armed : Spool := { station.spool with waiters := station.spool.waiters.add call.number {} }
  have hfresh := station.spool.isFresh_newCall
  have harm : Spool.Transition station.spool (.arm call.number) armed [] := .arm hhandles hfresh
  have hpolls : Timed.Polls r (station.timed s.now) (.drain call.number span) call.number _ _ [] :=
    .drain hhandles hfresh
  rw [hspan] at hpolls
  have hstarted : s.startDrain i (s.deadline timeout) = (s.putSpool i armed, call) := by
    simp only [startDrain, newCall, hi]
    rw [take_of_silent (fun step => by cases step; rfl), stepSpool_eq hi harm]
  have hready : At i (({} : Calls Nat).add call.number call.deadline)
      (Pollable r (station.timed s.now) (.drain call.number span) call.number call.deadline)
      (s.putSpool i armed) :=
    ⟨_, station_putSpool hi armed, .of_polls (timely_timed _ _) hpolls⟩
  rw [drain, hstarted]
  exact awaitCall_ends (hcalm.putSpool ((hcalm i station hi).preserve harm rfl)) hready hlatest

/-- A calm session at an instant, with a spool at a station. -/
def Holds (i now : Nat) (spool : Spool) (s : Session) : Prop :=
  s.now = now ∧ Calm s ∧ ∃ station, s.stations[i]? = some station ∧ station.spool = spool

theorem keptByWrites_holds {spool : Spool} (hclosed : spool.closed = true) :
    KeptByWrites (Holds i now spool) where
  frame := by
    rintro s t ⟨rfl, hcalm, station, hi, hspool⟩ hstations hnow
    exact ⟨hnow, hcalm.of_stations hstations, station, by rw [hstations]; exact hi, hspool⟩
  write := by
    rintro s k record ⟨rfl, hcalm, station, hi, rfl⟩
    obtain ⟨-, hnow, hsame | ⟨other, next, hk, hopen, hnext, hstations⟩⟩ := write_cases hcalm k record
    · exact ⟨hnow, hcalm.of_stations hsame, station, by rw [hsame]; exact hi, rfl⟩
    · have hne : k ≠ i := by
        rintro rfl
        cases hk.symm.trans hi
        rw [hclosed] at hopen
        cases hopen
      refine ⟨hnow, (hcalm.putSpool hnext).of_stations hstations, station, ?_, rfl⟩
      rw [hstations, station_putSpool_of_ne s hne]
      exact hi

theorem Holds.closingReports {spool : Spool} (hclosed : spool.closed = true)
    (h : Holds i now spool s) (before : Spool) :
    Holds i now spool (before.closingReports.foldl (applyEffect i) s) := by
  unfold Spool.closingReports
  split
  · exact (keptByWrites_holds hclosed).report h _
  · exact h

/-- A session starts to shut a station down: it closes the station, and the call can be polled. -/
theorem startShutdown_ready (hcalm : Calm s) (hi : s.stations[i]? = some station)
    (hhandles : 0 < station.spool.handles) {ms : Nat} (hlatest : s.now + ms ≤ r.latest) :
    ∃ u, s.startShutdown i (s.now + ms) = (u, ⟨i, station.spool.newCall, s.now + ms⟩) ∧
      u = (station.spool.closingReports.foldl (applyEffect i)
        (s.putSpool i (station.spool.shutBy station.spool.newCall))).wakeWorker i ∧
      Calm u ∧ u.now = s.now ∧
      At i (({} : Calls Nat).add station.spool.newCall (s.now + ms)) (Pollable r
        (station.timed s.now) (.shutdown station.spool.newCall ms) station.spool.newCall
        (s.now + ms)) u := by
  let shut : Spool := station.spool.shutBy station.spool.newCall
  have hfresh := station.spool.isFresh_newCall
  obtain ⟨hwrites, hworker⟩ := hcalm i station hi
  have hpolls : Timed.Polls r (station.timed s.now) (.shutdown station.spool.newCall ms) _ _ _ _ :=
    .shutdown hhandles hfresh hwrites hlatest
  have hshut : Holds i s.now shut (s.putSpool i shut) :=
    ⟨rfl, hcalm.putSpool ⟨hwrites, hworker⟩, _, station_putSpool hi shut, rfl⟩
  have hreported := hshut.closingReports rfl station.spool
  obtain ⟨hstations, hsame⟩ :=
    frame_wakeWorker (station.spool.closingReports.foldl (applyEffect i) (s.putSpool i shut)) i
  obtain ⟨hnow, hstill, other, hother, hspool⟩ :=
    (keptByWrites_holds rfl).frame hreported hstations hsame
  refine ⟨_, ?_, rfl, hstill, hnow, other, hother, ?_⟩
  · simp only [startShutdown, newCall, hi, takeAll]
    rw [Spool.tryAll_shutdownSteps hhandles hfresh hwrites]
  · rw [hnow, hspool]
    exact .of_polls (timely_timed _ _) hpolls

/-- A session that shuts a station down makes a run of its timed spool, in which the call that shuts
it down is answered as the session says. -/
theorem shutdown_answers (hcalm : Calm s) (hi : s.stations[i]? = some station)
    (hhandles : 0 < station.spool.handles) {ms : Nat} (hlatest : s.now + ms ≤ r.latest) :
    Answered r (station.timed s.now) (.shutdown station.spool.newCall ms) i station.spool.newCall
      (s.shutdown i ms).2 (s.shutdown i ms).1 := by
  obtain ⟨u, hstarted, -, hstill, -, hready⟩ := startShutdown_ready hcalm hi hhandles hlatest
  rw [shutdown, hstarted]
  exact awaitCall_ends hstill hready hlatest

/-! ## Whatever a session was asked to do before -/

/-- The spools of a session have run from their start. -/
def Ran (s : Session) : Prop :=
  ∀ (k : Nat) (station : Station), s.stations[k]? = some station →
    ∃ (settings : SpoolSettings) (actions : List Action) (effects : List Effect),
      (Spool.start settings.slots).run actions = some (station.spool, effects)

theorem lasting_ran : Lasting Ran := by
  refine .of_steps ?_ ?_ ?_ ?_
  · intro s t h heq k station hk
    rw [heq] at hk
    exact h k station hk
  · intro s i station a next es h hi step k other hk
    by_cases heq : i = k
    · subst heq
      rw [station_putSpool hi] at hk
      cases hk
      obtain ⟨settings, actions, effects, hrun⟩ := h i station hi
      exact ⟨settings, _, _, Spool.run_join hrun step (Spool.run_nil next)⟩
    · rw [station_putSpool_of_ne s heq] at hk
      exact h k other hk
  · intro s i progress h k station hk
    rw [modifyStation, Array.getElem?_modify] at hk
    split at hk
    · obtain ⟨other, hother, rfl⟩ := Option.map_eq_some_iff.mp hk
      exact h k other hother
    · exact h k station hk
  · intro s station settings h hstart k other hk
    rw [Array.getElem?_push] at hk
    split at hk
    · cases hk
      exact ⟨settings, [], [], by rw [hstart]; rfl⟩
    · exact h k other hk

/-- A call that was answered got its answer when no time had passed since. -/
theorem Answered.exists_answers (h : Answered r t₀ first i number result s) :
    ∃ v, Answers r t₀ first number result v ∧ v.now = s.now ∧
      ∃ last others ns, s.stations[i]? = some last ∧ v.run r others = some (last.timed s.now, ns) := by
  obtain ⟨-, last, hi, ⟨hanswers, hothers, hrun⟩⟩ := h
  exact ⟨_, hanswers, (Timed.now_of_others hrun hothers).symm, last, _, _, hi, hrun⟩

/-- A session that was asked to take some steps. -/
def Reached (s : Session) : Prop := ∃ steps, ({} : Session).goOn steps = s

/-- Between its steps a session is calm. -/
theorem Reached.calm (h : Reached s) : Calm s := by
  obtain ⟨steps, rfl⟩ := h
  exact lasting_calm.goOn (fun k station hk => by simp at hk) steps

theorem Reached.ran (h : Reached s) : Ran s := by
  obtain ⟨steps, rfl⟩ := h
  exact lasting_ran.goOn (fun k station hk => by simp at hk) steps

/-- One thread, on which an instant is the last that can be told. -/
def upTo (latest : Nat) : Runtime := { latest, horizon := farFuture, oneThread := true }

/-- Whatever a session was asked to do before, when it drains a station it has an answer no later
than when the time of the call is up.  If no slot is taken the answer comes at once, that the spool
is drained; if it says that the time is up it comes exactly then, and tells of some slots that are
taken. -/
theorem drain_in_time (h : Reached s) (hi : s.stations[i]? = some station)
    (hhandles : 0 < station.spool.handles) (timeout : Timeout) :
    (s.drain i timeout).1.now ≤ s.deadline timeout ∧
    (station.spool.pending = 0 → (s.drain i timeout).2 = .ok () ∧ (s.drain i timeout).1.now = s.now) ∧
    ((s.drain i timeout).2 = .ok () ∨
      ((s.drain i timeout).1.now = s.deadline timeout ∧
        ∃ slots, 1 ≤ slots ∧ (s.drain i timeout).2 = .error (.drainTimeout slots))) := by
  let r := upTo (s.deadline timeout)
  obtain ⟨span, hends⟩ : ∃ span, s.now + span = s.deadline timeout := by
    cases timeout <;> exact ⟨_, rfl⟩
  have hspan : (station.timed s.now).deadline r span = s.deadline timeout :=
    (if_pos (Nat.le_of_eq hends)).trans hends
  have htimely := timely_timed station s.now
  have hfresh := station.spool.isFresh_newCall
  obtain ⟨v, hanswers, hnow, -⟩ :=
    (drain_answers h.calm hi hhandles hspan (Nat.le_refl _)).exists_answers
  have hpolls : Timed.Polls r (station.timed s.now) (.drain station.spool.newCall span) _ _ _ [] :=
    .drain hhandles hfresh
  obtain ⟨hin, hresult⟩ := Timed.answer_in_time htimely hpolls hanswers
  rw [hspan, hnow] at hin hresult
  refine ⟨hin, fun hnone => ?_, hresult.imp_right fun ⟨hthen, htimeout⟩ => ⟨hthen, ?_⟩⟩
  · obtain ⟨hok, hsame⟩ := Timed.answers_of_empty hhandles hfresh hnone hanswers
    exact ⟨hok, hnow.symm.trans hsame⟩
  · rw [htimeout] at hanswers
    obtain ⟨settings, steps, es, hsteps⟩ := h.ran i station hi
    exact ⟨_, Timed.pending_pos_of_answers settings rfl htimely hsteps hhandles hfresh hanswers,
      htimeout⟩

/-- Whatever a session was asked to do before, when it shuts a station down it has an answer no later
than when the time of the call is up, and then the spool is closed.  If the answer says that the time
is up it comes exactly then. -/
theorem shutdown_in_time (h : Reached s) (hi : s.stations[i]? = some station)
    (hhandles : 0 < station.spool.handles) (ms : Nat) :
    (s.shutdown i ms).1.now ≤ s.now + ms ∧
    (∃ last, (s.shutdown i ms).1.stations[i]? = some last ∧ last.spool.closed = true) ∧
    ((s.shutdown i ms).2 = .ok () ∨
      ((s.shutdown i ms).1.now = s.now + ms ∧
        ∃ slots, (s.shutdown i ms).2 = .error (.drainTimeout slots))) := by
  let r := upTo (s.now + ms)
  have htimely := timely_timed station s.now
  obtain ⟨hwrites, -⟩ := h.calm i station hi
  obtain ⟨v, hanswers, hnow, last, others, ns, hlast, hothers⟩ :=
    (@shutdown_answers _ _ _ r h.calm hi hhandles ms (Nat.le_refl _)).exists_answers
  have hpolls : Timed.Polls r (station.timed s.now) (.shutdown station.spool.newCall ms) _ _ _ _ :=
    .shutdown hhandles station.spool.isFresh_newCall hwrites (Nat.le_refl _)
  obtain ⟨hin, hresult⟩ := Timed.answer_in_time htimely hpolls hanswers
  have hthen : (station.timed s.now).now + ms = s.now + ms := rfl
  rw [hthen, hnow] at hin hresult
  refine ⟨hin, ⟨last, hlast, ?_⟩, hresult.imp_right fun ⟨hlate, htimeout⟩ => ⟨hlate, _, htimeout⟩⟩
  obtain ⟨rest, notices, hrun⟩ := Timed.run_of_answers hanswers
  exact Timed.closed_of_shutdown htimely (Nat.le_refl _) (Timed.run_trans hrun hothers)

end Session

end LogSpool

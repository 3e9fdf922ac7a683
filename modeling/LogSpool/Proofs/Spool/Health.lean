import LogSpool.Proofs.Spool.Trail
set_option autoImplicit false

/-!
# Spools: the health of a sink

Whether a sink is healthy, and what the worker reports of its writes, follow from the attempts that
are behind it and from nothing else.  `Chronicle` reads both off the history of a run: the sink is
healthy unless the latest attempt failed, and a report is made where an attempt ended in another
way than the one before it.

* `health_follows_attempts` : the health and the reports of every run, step by step and as a whole.
-/

namespace LogSpool

/-! ## Attempts -/

/-- An attempt that ended: the record, and how the call on the sink ended. -/
structure Attempt where
  record : Bytes
  outcome : Outcome
  deriving DecidableEq, Repr

/-- The text of a failure: of a count that is not the record's length, of an error, or of a
panic. -/
inductive Attempt.FailsWith (record : Bytes) : Outcome → String → Prop where
  | count {n : Nat} (hn : n ≠ record.length) :
      FailsWith record (.returned n) s!"short write: {n} of {record.length} bytes"
  | error (error : String) : FailsWith record (.failed error) error
  | panic (payload : Payload) : FailsWith record (.panicked payload) ("sink panicked: " ++ payload.words)

namespace Attempt

/-- Why an attempt failed, if it did. -/
def failure? (a : Attempt) : Option String := a.outcome.failure? a.record.length

/-- The sink took the whole record. -/
def succeeded (a : Attempt) : Bool := a.outcome.succeeds a.record

theorem succeeded_eq (a : Attempt) : a.succeeded = a.failure?.isNone := rfl

/-- Only the whole length of the record is a success. -/
theorem failure?_eq_none_iff (a : Attempt) :
    a.failure? = none ↔ a.outcome = .returned a.record.length := by
  obtain ⟨record, outcome⟩ := a
  cases outcome <;> simp [failure?, Outcome.failure?]

theorem failure?_eq_some_iff (a : Attempt) (error : String) :
    a.failure? = some error ↔ FailsWith a.record a.outcome error := by
  obtain ⟨record, outcome⟩ := a
  constructor
  · intro h
    cases outcome with
    | returned n =>
      simp only [failure?, Outcome.failure?, Option.ite_none_left_eq_some] at h
      obtain ⟨hn, heq⟩ := h
      cases heq
      exact .count hn
    | failed | panicked =>
      cases h
      constructor
  · intro h
    cases h with
    | count hn => simp [failure?, Outcome.failure?, hn]
    | error | panic => rfl

/-- What is to be reported of an attempt after another, or after none: a failure that is the first
attempt or follows a success, and a success that follows a failure. -/
def notice (previous : Option Attempt) (a : Attempt) : List Diagnostic :=
  match a.failure? with
  | some error => if previous.all succeeded then [.failing error] else []
  | none => if previous.any (!·.succeeded) then [.recovered] else []

/-- What is to be reported of attempts one after another. -/
def notices : Option Attempt → List Attempt → List Diagnostic
  | _, [] => []
  | previous, a :: rest => notice previous a ++ notices (some a) rest

/-- How often the result changes, from one that stands before the first. -/
def changes (before : Bool) (results : List Bool) : Nat :=
  ((before :: results).zip results).countP fun pair => pair.1 != pair.2

/-- Without a failure to recover from there is none to report. -/
theorem any_failed (previous : Option Attempt) :
    previous.any (!·.succeeded) = !previous.all succeeded := by
  cases previous <;> rfl

theorem notices_concat (previous : Option Attempt) (history : List Attempt) (a : Attempt) :
    notices previous (history ++ [a]) =
      notices previous history ++ notice (history.getLast?.or previous) a := by
  induction history generalizing previous with
  | nil => simp [notices]
  | cons first rest ih =>
    have hlast : (first :: rest).getLast?.or previous = rest.getLast?.or (some first) := by
      rw [List.getLast?_cons]
      cases rest.getLast? <;> rfl
    rw [List.cons_append, notices, notices, ih, List.append_assoc, hlast]

/-- A report is of a failure where the sink was healthy before, and of a recovery where it was
not. -/
theorem notice_cases (previous : Option Attempt) (a : Attempt) :
    notice previous a = [] ∧ a.succeeded = previous.all succeeded ∨
      (∃ error, a.failure? = some error ∧ notice previous a = [.failing error]) ∧
        previous.all succeeded = true ∧ a.succeeded = false ∨
      notice previous a = [.recovered] ∧ previous.all succeeded = false ∧ a.succeeded = true := by
  unfold notice
  rw [any_failed, succeeded_eq]
  cases a.failure? <;> cases previous.all succeeded <;> simp

theorem failure?_of_mem_notices {previous : Option Attempt} {history : List Attempt} {error : String}
    (h : .failing error ∈ notices previous history) : ∃ a ∈ history, a.failure? = some error := by
  induction history generalizing previous with
  | nil => simp [notices] at h
  | cons a rest ih =>
    rw [notices, List.mem_append] at h
    rcases h with hfirst | hrest
    · refine ⟨a, List.mem_cons_self, ?_⟩
      rcases notice_cases previous a with ⟨hnone, -⟩ | ⟨⟨_, hfailed, hone⟩, -⟩ | ⟨hone, -⟩
      · simp [hnone] at hfirst
      · rw [hone, List.mem_singleton] at hfirst
        cases hfirst
        exact hfailed
      · simp [hone] at hfirst
    · obtain ⟨b, hb, hfailed⟩ := ih hrest
      exact ⟨b, List.mem_cons_of_mem a hb, hfailed⟩

/-- The reports are of failures and recoveries by turns; the first is of a failure if the sink was
healthy before. -/
theorem notices_alternate {previous : Option Attempt} {history : List Attempt} {i : Nat}
    {d : Diagnostic} (h : (notices previous history)[i]? = some d) :
    (previous.all succeeded = decide (i % 2 = 0) ∧ ∃ error, d = .failing error) ∨
      (previous.all succeeded = decide (i % 2 = 1) ∧ d = .recovered) := by
  induction history generalizing previous i with
  | nil => simp [notices] at h
  | cons a rest ih =>
    rw [notices] at h
    have hnext : ∀ j, (notices (some a) rest)[j]? = some d →
        (a.succeeded = decide (j % 2 = 0) ∧ ∃ error, d = .failing error) ∨
          (a.succeeded = decide (j % 2 = 1) ∧ d = .recovered) := fun j hj => ih hj
    rcases notice_cases previous a with ⟨hnone, hsame⟩ | ⟨⟨error, -, hone⟩, hbefore, hafter⟩ |
      ⟨hone, hbefore, hafter⟩
    · rw [hnone, List.nil_append] at h
      rw [← hsame]
      exact hnext i h
    · rw [hone] at h
      cases i with
      | zero => exact .inl ⟨hbefore, error, (Option.some.inj h).symm⟩
      | succ j =>
        have hj := hnext j h
        rw [hafter] at hj
        rw [hbefore]
        grind
    · rw [hone] at h
      cases i with
      | zero => exact .inr ⟨hbefore, (Option.some.inj h).symm⟩
      | succ j =>
        have hj := hnext j h
        rw [hafter] at hj
        rw [hbefore]
        grind

/-- There are as many reports as there are changes. -/
theorem length_notices (previous : Option Attempt) (history : List Attempt) :
    (notices previous history).length =
      changes (previous.all succeeded) (history.map succeeded) := by
  induction history generalizing previous with
  | nil => rfl
  | cons a rest ih =>
    have hrest := ih (some a)
    have hsplit : changes (previous.all succeeded) ((a :: rest).map succeeded) =
        changes a.succeeded (rest.map succeeded) +
          if (previous.all succeeded != a.succeeded) = true then 1 else 0 := List.countP_cons
    rw [notices, List.length_append, hrest, hsplit, Nat.add_comm]
    refine congrArg _ ?_
    rcases notice_cases previous a with ⟨hnone, hsame⟩ | ⟨⟨error, -, hone⟩, hbefore, hafter⟩ |
      ⟨hone, hbefore, hafter⟩
    · simp [hnone, hsame]
    · simp [hone, hbefore, hafter]
    · simp [hone, hbefore, hafter]

end Attempt

/-- The attempt that the worker is about to count. -/
def Worker.ended : Worker → List Attempt
  | judging record outcome => [⟨record, outcome⟩]
  | _ => []

namespace Spool

open Attempt (notice notices changes)

variable {s t : Spool} {a : Action} {actions : List Action} {effects es : List Effect}
  {history : List Attempt}

/-! ## The history of a run -/

/-- The attempts that ended, in order. -/
def endedAttempts (actions : List Action) (effects : List Effect) : List Attempt :=
  List.zipWith Attempt.mk (attempts effects) (outcomes actions)

/-- The attempts that ended and are counted, in order. -/
def completed (actions : List Action) (effects : List Effect) : List Attempt :=
  (endedAttempts actions effects).take (verdicts effects).length

/-- What the worker has reported of its writes, in order. -/
def writeReports (effects : List Effect) : List Diagnostic :=
  effects.filterMap fun
    | .reported (.failing error) => some (.failing error)
    | .reported .recovered => some .recovered
    | _ => none

theorem writeReports_append (before after : List Effect) :
    writeReports (before ++ after) = writeReports before ++ writeReports after :=
  List.filterMap_append

theorem writeReports_finishFlush (outcome : FlushOutcome) :
    writeReports (flushReports outcome ++ [.reported .exiting, .released]) = [] := by
  cases outcome <;> rfl

/-- What is reported of an attempt is what is due after one that left the sink as healthy as it
is. -/
theorem writeReports_judge {previous : Option Attempt}
    (hhealthy : s.healthy = previous.all Attempt.succeeded) (record : Bytes) (outcome : Outcome) :
    writeReports (.counted none record (outcome.fate record) :: s.verdictReports record outcome) =
      notice previous ⟨record, outcome⟩ := by
  change writeReports (s.verdictReports record outcome) = _
  unfold verdictReports notice Attempt.failure?
  rw [Attempt.any_failed, ← hhealthy]
  cases outcome.failure? record.length <;> cases s.healthy <;> rfl

/-- What a run has to do with the attempts that its worker has counted. -/
structure Chronicle (history : List Attempt) (actions : List Action) (s : Spool)
    (effects : List Effect) : Prop where
  /-- They are all that ended, but for one that the worker is about to count. -/
  ended : endedAttempts actions effects = history ++ s.worker.ended
  counted : (verdicts effects).length = history.length
  healthy : s.healthy = history.getLast?.all Attempt.succeeded
  reported : writeReports effects = notices none history

namespace Chronicle

theorem completed_eq (h : Chronicle history actions s effects) :
    completed actions effects = history := by
  unfold completed
  rw [h.counted, h.ended, List.take_left]

/-- A step after which the same attempts have ended and are counted. -/
theorem of_quiet (h : Chronicle history actions s effects)
    (hended : endedAttempts (actions ++ [a]) (effects ++ es) = endedAttempts actions effects)
    (hworker : t.worker.ended = s.worker.ended) (hverdicts : verdicts es = [])
    (hhealthy : t.healthy = s.healthy) (hreports : writeReports es = []) :
    Chronicle history (actions ++ [a]) t (effects ++ es) where
  ended := by rw [hended, h.ended, hworker]
  counted := by rw [verdicts_append, hverdicts, List.append_nil, h.counted]
  healthy := hhealthy.trans h.healthy
  reported := by rw [writeReports_append, hreports, List.append_nil, h.reported]

theorem of_others (h : Chronicle history actions s effects) (hattempts : attempts es = [])
    (houtcomes : outcomes [a] = []) (hworker : t.worker.ended = s.worker.ended)
    (hverdicts : verdicts es = []) (hhealthy : t.healthy = s.healthy)
    (hreports : writeReports es = []) : Chronicle history (actions ++ [a]) t (effects ++ es) := by
  refine h.of_quiet ?_ hworker hverdicts hhealthy hreports
  unfold endedAttempts
  rw [attempts_append, hattempts, outcomes_append, houtcomes, List.append_nil, List.append_nil]

end Chronicle

theorem Trail.length_attempts_of_idle (h : Trail actions .idle effects) :
    (attempts effects).length = (outcomes actions).length := by
  rw [h.current rfl, h.ended, List.length_append, List.length_append, List.length_map]
  rfl

/-- While the sink has a record, every attempt but that one has ended. -/
theorem Trail.attempts_of_attempting {record : Bytes}
    (h : Trail actions (.attempting record) effects) :
    ∃ before, attempts effects = before ++ [record] ∧ before.length = (outcomes actions).length := by
  refine ⟨(verdicts effects).map (·.1), h.current rfl, ?_⟩
  rw [h.ended, List.length_append, List.length_map]
  rfl

namespace Chronicle

theorem of_receive (h : Chronicle history actions s effects)
    (trail : Trail actions s.worker effects) {record : Bytes} {rest : Channel}
    (hworker : s.worker = .idle) :
    Chronicle history (actions ++ [.receive])
      { s with channel := rest, worker := .calling record } (effects ++ [.attempted record]) := by
  refine h.of_quiet ?_ (by rw [hworker]; rfl) rfl rfl rfl
  rw [hworker] at trail
  have hmore : List.zipWith Attempt.mk (attempts effects ++ [record]) (outcomes actions ++ []) = _ :=
    List.zipWith_append trail.length_attempts_of_idle
  unfold endedAttempts
  rw [attempts_append, outcomes_append]
  exact hmore.trans (List.append_nil _)

theorem of_finish (h : Chronicle history actions s effects)
    (trail : Trail actions s.worker effects) {record : Bytes} (outcome : Outcome)
    (hworker : s.worker = .attempting record) :
    Chronicle history (actions ++ [.finish outcome])
      { s with worker := .judging record outcome } (effects ++ []) := by
  rw [hworker] at trail
  obtain ⟨before, hattempts, hlength⟩ := trail.attempts_of_attempting
  have hended := h.ended
  rw [hworker] at hended
  unfold endedAttempts at hended
  -- The attempt stood there without an end, so that nothing was made of it.
  have hbefore : List.zipWith Attempt.mk (before ++ [record]) (outcomes actions ++ []) = _ :=
    List.zipWith_append hlength
  have hafter : List.zipWith Attempt.mk (before ++ [record]) (outcomes actions ++ [outcome]) = _ :=
    List.zipWith_append hlength
  rw [hattempts, ← List.append_nil (outcomes actions), hbefore, List.zipWith_nil_right,
    List.append_nil] at hended
  rw [List.append_nil]
  refine ⟨?_, h.counted, h.healthy, h.reported⟩
  unfold endedAttempts
  rw [outcomes_append, hattempts]
  refine hafter.trans ?_
  rw [hended]
  exact congrArg (· ++ _) (List.append_nil history)

theorem of_judge (h : Chronicle history actions s effects) {record : Bytes} {outcome : Outcome}
    (hworker : s.worker = .judging record outcome) :
    Chronicle (history ++ [⟨record, outcome⟩]) (actions ++ [.judge])
      { s with healthy := outcome.succeeds record, worker := .releasing }
      (effects ++ .counted none record (outcome.fate record) :: s.verdictReports record outcome) where
  ended := by
    have hended := h.ended
    obtain ⟨hattempts, -⟩ := records_judge s record outcome
    rw [hworker] at hended
    unfold endedAttempts at hended ⊢
    rw [attempts_append, hattempts, List.append_nil, outcomes_append]
    refine (congrArg (List.zipWith Attempt.mk (attempts effects)) (List.append_nil _)).trans ?_
    rw [hended]
    exact (List.append_nil _).symm
  counted := by
    obtain ⟨-, hverdicts⟩ := records_judge s record outcome
    rw [verdicts_append, hverdicts, List.length_append, List.length_append, h.counted]
    rfl
  healthy := by
    rw [List.getLast?_concat]
    rfl
  reported := by
    rw [writeReports_append, h.reported, writeReports_judge h.healthy, Attempt.notices_concat,
      Option.or_none]

/-- Every step but that of counting leaves the history, the health and the reports as they are. -/
theorem of_other_step (h : Chronicle history actions s effects)
    (trail : Trail actions s.worker effects) (step : Transition s a t es) (ha : a ≠ .judge) :
    Chronicle history (actions ++ [a]) t (effects ++ es) ∧ t.healthy = s.healthy ∧
      writeReports es = [] := by
  cases step with
  | judge => exact absurd rfl ha
  | receive hworker => exact ⟨h.of_receive trail hworker, rfl, rfl⟩
  | finish outcome hworker => exact ⟨h.of_finish trail outcome hworker, rfl, rfl⟩
  | awaitWrite hworker | awaitFlush hworker | wake hworker | flush hworker =>
    exact ⟨h.of_others rfl rfl (by rw [hworker]; rfl) rfl rfl rfl, rfl, rfl⟩
  | release hworker =>
    refine ⟨h.of_others rfl rfl ?_ rfl rfl rfl, rfl, rfl⟩
    rw [hworker]
    dsimp only
    split <;> rfl
  | finishFlush outcome hworker =>
    obtain ⟨hattempts, hverdicts⟩ := records_finishFlush outcome
    have hreports := writeReports_finishFlush outcome
    exact ⟨h.of_others hattempts rfl (by rw [hworker]; rfl) hverdicts rfl hreports, rfl, hreports⟩
  | lose loss hlose =>
    refine ⟨h.of_others rfl rfl ?_ rfl rfl rfl, rfl, rfl⟩
    cases hworker : s.worker with
    | judging =>
      cases loss <;> simp [hworker, Worker.canLose, Worker.isCalling, Worker.isWaiting] at hlose
    | _ => rfl
  | _ => exact ⟨h.of_others rfl rfl rfl rfl rfl rfl, rfl, rfl⟩

theorem judged (h : Chronicle history actions s effects) (step : Transition s .judge t es) :
    ∃ attempt, s.worker.ended = [attempt] ∧
      Chronicle (history ++ [attempt]) (actions ++ [.judge]) t (effects ++ es) ∧
      writeReports es = notice history.getLast? attempt := by
  cases step with
  | @judge record outcome hworker =>
    have hended : s.worker.ended = [⟨record, outcome⟩] := by rw [hworker]; rfl
    exact ⟨_, hended, h.of_judge hworker, writeReports_judge h.healthy _ _⟩

theorem preserve (h : Chronicle history actions s effects) (trail : Trail actions s.worker effects)
    (step : Transition s a t es) :
    ∃ next, Chronicle next (actions ++ [a]) t (effects ++ es) := by
  by_cases ha : a = .judge
  · subst ha
    obtain ⟨attempt, -, hnext, -⟩ := h.judged step
    exact ⟨_, hnext⟩
  · exact ⟨history, (h.of_other_step trail step ha).1⟩

end Chronicle

theorem chronicle_of_run {capacity : Nat} (hcapacity : 0 < capacity)
    (h : (start capacity).run actions = some (s, effects)) :
    Chronicle (completed actions effects) actions s effects := by
  have hexists : ∃ history, Chronicle history actions s effects := by
    refine run_induction (P := fun actions s effects => ∃ history, Chronicle history actions s effects)
      ⟨[], rfl, rfl, rfl, rfl⟩ (fun hrun ih step => ?_) h
    obtain ⟨history, hchronicle⟩ := ih
    exact hchronicle.preserve (trail_of_run hcapacity hrun) step
  obtain ⟨history, hchronicle⟩ := hexists
  rwa [hchronicle.completed_eq]

/-- The sink is unhealthy exactly if the latest attempt in the history failed. -/
theorem Chronicle.healthy_eq_false_iff (h : Chronicle history actions s effects) :
    s.healthy = false ↔
      ∃ a, history.getLast? = some a ∧ a.outcome ≠ .returned a.record.length := by
  rw [h.healthy]
  cases history.getLast? with
  | none => simp
  | some a =>
    rw [Option.all_some, Attempt.succeeded_eq, Option.isNone_eq_false_iff, ← Option.ne_none_iff_isSome,
      Ne, Attempt.failure?_eq_none_iff]
    simp

/-- After every run, whatever calls write, overflow, close, drain and shut down in between:

* the attempts that are completed are all that ended, but for one that the worker is about to
  count, and the sink is unhealthy exactly if the latest of them did not end with the length of its
  record, so that it is healthy before the first;
* no step but that of counting an attempt changes this history or the health, or reports anything
  of a write, be it the step of a call that counts its record as dropped;
* the step that counts an attempt adds it to the history, the sink is healthy afterwards exactly if
  it took the whole record, and one failure is reported, with the text of this failure, if there was
  no attempt before or that one succeeded, one recovery if this one succeeded and the one before
  failed, and nothing else;
* all that was reported of writes is what is due by the history, failures and recoveries by turns,
  a failure first, as many as the history has changes. -/
theorem health_follows_attempts (settings : SpoolSettings)
    (h : (start settings.slots).run actions = some (s, effects)) :
    endedAttempts actions effects = completed actions effects ++ s.worker.ended ∧
      (s.healthy = false ↔ ∃ a, (completed actions effects).getLast? = some a ∧
        a.outcome ≠ .returned a.record.length) ∧
      (∀ a t es, s.step a = some (t, es) → a ≠ .judge →
        completed (actions ++ [a]) (effects ++ es) = completed actions effects ∧
          t.healthy = s.healthy ∧ writeReports es = []) ∧
      (∀ t es, s.step .judge = some (t, es) → ∃ attempt, s.worker.ended = [attempt] ∧
        completed (actions ++ [.judge]) (effects ++ es) = completed actions effects ++ [attempt] ∧
          (t.healthy = true ↔ attempt.outcome = .returned attempt.record.length) ∧
          (∀ error, Attempt.FailsWith attempt.record attempt.outcome error → writeReports es =
            if (completed actions effects).getLast?.all Attempt.succeeded then [.failing error]
            else []) ∧
          (attempt.outcome = .returned attempt.record.length → writeReports es =
            if (completed actions effects).getLast?.any (!·.succeeded) then [.recovered]
            else [])) ∧
      writeReports effects = notices none (completed actions effects) ∧
      (∀ i d, (writeReports effects)[i]? = some d →
        (i % 2 = 0 → ∃ error, d = .failing error) ∧ (i % 2 = 1 → d = .recovered)) ∧
      (writeReports effects).length =
        changes true ((completed actions effects).map Attempt.succeeded) := by
  have hone := (slots_bounds settings).1
  have chronicle := chronicle_of_run hone h
  have trail := trail_of_run hone h
  refine ⟨chronicle.ended, chronicle.healthy_eq_false_iff, fun a t es hstep ha => ?_,
    fun t es hstep => ?_, chronicle.reported, fun i d hd => ?_, ?_⟩
  · obtain ⟨hnext, hhealthy, hreports⟩ := chronicle.of_other_step trail (.of_step hstep) ha
    exact ⟨hnext.completed_eq, hhealthy, hreports⟩
  · obtain ⟨attempt, hended, hnext, hreports⟩ := chronicle.judged (.of_step hstep)
    have hhealthy : t.healthy = attempt.succeeded := by
      rw [hnext.healthy, List.getLast?_concat]
      rfl
    refine ⟨attempt, hended, hnext.completed_eq, ?_, fun error hfails => ?_, fun hwhole => ?_⟩
    · rw [hhealthy, Attempt.succeeded_eq, Option.isNone_iff_eq_none, Attempt.failure?_eq_none_iff]
    · rw [hreports]
      unfold notice
      rw [(attempt.failure?_eq_some_iff error).mpr hfails]
    · rw [hreports]
      unfold notice
      rw [attempt.failure?_eq_none_iff.mpr hwhole]
  · rw [chronicle.reported] at hd
    rcases Attempt.notices_alternate hd with ⟨heven, hfailing⟩ | ⟨hodd, hrecovered⟩
    · have heven : i % 2 = 0 := of_decide_eq_true heven.symm
      exact ⟨fun _ => hfailing, fun hodd => by omega⟩
    · have hodd : i % 2 = 1 := of_decide_eq_true hodd.symm
      exact ⟨fun heven => by omega, fun _ => hrecovered⟩
  · rw [chronicle.reported, Attempt.length_notices]
    rfl

/-- Two records are queued and a third finds no slot; the sink takes less than the first and fails
with the second while somebody drains the spool. -/
def failingTwice : List Action :=
  [.enter 0 [1], .advance 0, .advance 0, .enter 1 [2], .advance 1, .advance 1,
    .enter 2 [3], .advance 2, .receive, .await, .finish (.returned 0), .judge, .advance 2,
    .arm 9, .look 9, .release, .receive, .await, .finish (.failed "refused"), .judge, .release,
    .wake, .rearm 9, .look 9]

/-- The sink takes a record and then panics with another, which was queued before the spool was
closed and is about to be counted. -/
def failingAgain : List Action :=
  [.enter 0 [4], .advance 0, .advance 0, .enter 1 [5], .advance 1, .advance 1, .close, .announce,
    .receive, .await, .finish (.returned 1), .judge, .release,
    .receive, .await, .finish (.panicked (.text "boom"))]

/-- Of four attempts three fail, of which the second is not reported; the record that found no slot
changes nothing, and neither does closing. -/
theorem health_follows_attempts_flapping :
    ∃ s t effects es, (start ({ capacity := 2 } : SpoolSettings).slots).run
        (failingTwice ++ failingAgain) = some (s, effects) ∧
      writeReports effects = [.failing "short write: 0 of 1 bytes", .recovered] ∧
      (writeReports effects).length = changes true
        ((completed (failingTwice ++ failingAgain) effects).map Attempt.succeeded) ∧
      s.healthy = true ∧
      ¬ (∃ a, (completed (failingTwice ++ failingAgain) effects).getLast? = some a ∧
        a.outcome ≠ .returned a.record.length) ∧
      s.step .judge = some (t, es) ∧ writeReports es = [.failing "sink panicked: boom"] := by
  obtain ⟨-, hhealth, -, hjudge, -, -, hlength⟩ :=
    @health_follows_attempts _ (failingTwice ++ failingAgain) _ { capacity := 2 } rfl
  obtain ⟨attempt, hended, -, -, hfails, -⟩ := hjudge _ _ rfl
  cases hended
  refine ⟨_, _, _, _, rfl, rfl, hlength, rfl, fun hfailed => ?_, rfl, hfails _ (.panic _)⟩
  exact Bool.noConfusion (hhealth.mpr hfailed)

end Spool

end LogSpool

import LogSpool.Spool.Step
set_option autoImplicit false

/-!
# Spools: what a step can do

`Transition` says once and for all what each step of a spool needs, what it changes and
which effects it has.  `step_eq_some_iff` is the tie to `Spool.step`: every theorem
about runs goes by cases on a transition and never opens the step function again.
-/

namespace LogSpool

/-- What becomes of a record that the sink is done with. -/
def Outcome.fate (record : Bytes) (outcome : Outcome) : Fate :=
  if outcome.succeeds record then .written else .dropped

/-- A call starts to write. -/
def Action.isEntry : Action → Bool
  | enter _ _ => true
  | _ => false

namespace Spool

/-- What is reported when a record is counted: a change from success to failure or
back, and nothing else. -/
def verdictReports (s : Spool) (record : Bytes) (outcome : Outcome) : List Effect :=
  match outcome.failure? record.length with
  | none => if s.healthy then [] else [.reported .recovered]
  | some error => if s.healthy then [.reported (.failing error)] else []

theorem reported_of_mem_verdictReports {s : Spool} {record : Bytes} {outcome : Outcome}
    {e : Effect} (h : e ∈ s.verdictReports record outcome) : ∃ d, e = .reported d := by
  unfold verdictReports at h
  split at h
  · split at h
    · cases h
    · exact ⟨_, List.mem_singleton.mp h⟩
  · split at h
    · exact ⟨_, List.mem_singleton.mp h⟩
    · cases h

theorem reported_of_mem_flushReports {outcome : FlushOutcome} {e : Effect}
    (h : e ∈ flushReports outcome) : ∃ d, e = .reported d := by
  cases outcome with
  | done => cases h
  | failed error => exact ⟨_, List.mem_singleton.mp h⟩
  | panicked payload => exact ⟨_, List.mem_singleton.mp h⟩

theorem not_mem_verdictReports (s : Spool) (record : Bytes) (outcome : Outcome) {e : Effect}
    (h : ∀ d, e ≠ .reported d) : e ∉ s.verdictReports record outcome := by
  intro he
  obtain ⟨d, hreported⟩ := reported_of_mem_verdictReports he
  exact h d hreported

theorem not_mem_flushReports (outcome : FlushOutcome) {e : Effect}
    (h : ∀ d, e ≠ .reported d) : e ∉ flushReports outcome := by
  intro he
  obtain ⟨d, hreported⟩ := reported_of_mem_flushReports he
  exact h d hreported

theorem judge_eq (s : Spool) (record : Bytes) (outcome : Outcome) :
    s.judge record outcome =
      ({ s with healthy := outcome.succeeds record, worker := .releasing },
        .counted none record (outcome.fate record) :: s.verdictReports record outcome) := by
  unfold judge verdictReports Outcome.fate Outcome.succeeds
  cases outcome.failure? record.length <;> rfl

/-- One possible step: what it needs, what it leaves behind, and its effects. -/
inductive Transition (s : Spool) : Action → Spool → List Effect → Prop where
  -- Handles
  | clone (hhandles : 0 < s.handles) :
      Transition s .clone { s with handles := s.handles + 1 } []
  | drop (hspare : 1 < s.handles ∨ (s.handles = 1 ∧ s.isQuiet = true)) :
      Transition s .drop { s with handles := s.handles - 1 } []
  -- Calls that write
  | enterClosed {call : Nat} {record : Bytes} (hhandles : 0 < s.handles)
      (hnew : s.writes.find? call = none) (hclosed : s.closed = true) :
      Transition s (.enter call record) s [.answered call .closed]
  | enterEmpty {call : Nat} (hhandles : 0 < s.handles)
      (hnew : s.writes.find? call = none) (hopen : s.closed = false) :
      Transition s (.enter call []) s [.answered call (.accepted 0)]
  | enter {call : Nat} {record : Bytes} (hhandles : 0 < s.handles)
      (hnew : s.writes.find? call = none) (hopen : s.closed = false) (hrecord : record ≠ []) :
      Transition s (.enter call record)
        { s with writes := s.writes.add call ⟨record, .entered⟩ } []
  | reserve {call : Nat} {record : Bytes} (hw : s.writes.find? call = some ⟨record, .entered⟩)
      (hroom : s.pending < s.capacity) :
      Transition s (.advance call)
        { s with pending := s.pending + 1, writes := s.writes.put call ⟨record, .reserved⟩ } []
  | overflow {call : Nat} {record : Bytes} (hw : s.writes.find? call = some ⟨record, .entered⟩)
      (hfull : ¬ s.pending < s.capacity) :
      Transition s (.advance call) { s with writes := s.writes.put call ⟨record, .losing⟩ } []
  | send {call : Nat} {record : Bytes} (hw : s.writes.find? call = some ⟨record, .reserved⟩)
      (halive : s.worker.isAlive = true) (hroom : s.channel.size < s.capacity) :
      Transition s (.advance call)
        { s with channel := s.channel.push record, writes := s.writes.remove call }
        [.queued call record, .answered call (.accepted record.length)]
  | refuse {call : Nat} {record : Bytes} (hw : s.writes.find? call = some ⟨record, .reserved⟩)
      (hgone : ¬ (s.worker.isAlive = true ∧ s.channel.size < s.capacity)) :
      Transition s (.advance call) { s with writes := s.writes.put call ⟨record, .refused⟩ } []
  | giveBack {call : Nat} {record : Bytes} (hw : s.writes.find? call = some ⟨record, .refused⟩) :
      Transition s (.advance call)
        { s with
          pending := s.pending - 1
          writes := s.writes.put call
            ⟨record, if s.pending == 1 then .waking else .losing⟩ } []
  | wakeFromWrite {call : Nat} {record : Bytes}
      (hw : s.writes.find? call = some ⟨record, .waking⟩) :
      Transition s (.advance call)
        { s.wakeAll with writes := s.writes.put call ⟨record, .losing⟩ } []
  | countLost {call : Nat} {record : Bytes} (hw : s.writes.find? call = some ⟨record, .losing⟩) :
      Transition s (.advance call) { s with writes := s.writes.remove call }
        [.counted (some call) record .dropped, .answered call (.accepted record.length)]
  -- Closing
  | close (hhandles : 0 < s.handles) (hwrites : s.writes.isEmpty = true) :
      Transition s .close s.close []
  | announce (hannouncing : s.announcing = true) :
      Transition s .announce { s with announcing := false } [.reported (.closed s.pending)]
  -- Calls that wait
  | arm {call : Nat} (hhandles : 0 < s.handles) (hfresh : s.isFresh call = true) :
      Transition s (.arm call) { s with waiters := s.waiters.add call {} } []
  | lookDrained {call : Nat} {w : Waiter} (hw : s.waiters.find? call = some w)
      (hparked : w.parked = false) (hnone : s.pending = 0) :
      Transition s (.look call)
        { s with
          waiters := s.waiters.remove call
          shutdowns := s.shutdowns.modify call ShutdownPhase.drained } [.drained call]
  | park {call : Nat} {w : Waiter} (hw : s.waiters.find? call = some w)
      (hparked : w.parked = false) (hsome : s.pending ≠ 0) :
      Transition s (.look call)
        { s with waiters := s.waiters.put call { w with parked := true } } []
  | rearm {call : Nat} {w : Waiter} (hw : s.waiters.find? call = some w)
      (hparked : w.parked = true) (hnotified : w.notified = true) :
      Transition s (.rearm call) { s with waiters := s.waiters.put call {} } []
  | abandonWait {call : Nat} {w : Waiter} (hw : s.waiters.find? call = some w)
      (hdrain : s.shutdowns.find? call = none) :
      Transition s (.abandon call) { s with waiters := s.waiters.remove call } []
  | abandonDraining {call : Nat} (hphase : s.shutdowns.find? call = some .draining) :
      Transition s (.abandon call)
        { s with waiters := s.waiters.remove call, shutdowns := s.shutdowns.remove call } []
  | abandonJoining {call : Nat} (hphase : s.shutdowns.find? call = some .joining) :
      Transition s (.abandon call) { s with shutdowns := s.shutdowns.remove call } [.detached]
  -- Calls that shut down
  | shutdown {call : Nat} (hhandles : 0 < s.handles) (hfresh : s.isFresh call = true) :
      Transition s (.shutdown call) { s with shutdowns := s.shutdowns.add call .closing } []
  | pursueClosing {call : Nat} (hphase : s.shutdowns.find? call = some .closing)
      (hwrites : s.writes.isEmpty = true) :
      Transition s (.pursue call)
        { s.close with shutdowns := s.shutdowns.put call .arming } []
  | pursueArming {call : Nat} (hphase : s.shutdowns.find? call = some .arming) :
      Transition s (.pursue call)
        { s with
          waiters := s.waiters.add call {}
          shutdowns := s.shutdowns.put call .draining } []
  | claim {call : Nat} (hphase : s.shutdowns.find? call = some .claiming)
      (hunclaimed : s.unclaimed = true) :
      Transition s (.pursue call)
        { s with unclaimed := false, shutdowns := s.shutdowns.put call .joining } []
  | claimTaken {call : Nat} (hphase : s.shutdowns.find? call = some .claiming)
      (hclaimed : s.unclaimed = false) :
      Transition s (.pursue call) { s with shutdowns := s.shutdowns.remove call }
        [.shutDown call]
  | joinDone {call : Nat} (hphase : s.shutdowns.find? call = some .joining)
      (hdone : s.worker = .done) :
      Transition s (.pursue call) { s with shutdowns := s.shutdowns.remove call }
        [.shutDown call]
  | joinLost {call : Nat} {loss : Loss} (hphase : s.shutdowns.find? call = some .joining)
      (hlost : s.worker = .lost loss) :
      Transition s (.pursue call) { s with shutdowns := s.shutdowns.remove call }
        [.reported (.lost loss), .shutDown call]
  -- The worker
  | receive {record : Bytes} {rest : Channel} (hworker : s.worker = .idle)
      (hpop : s.channel.pop? = some (record, rest)) :
      Transition s .receive { s with channel := rest, worker := .calling record }
        [.attempted record]
  | awaitWrite {record : Bytes} (hworker : s.worker = .calling record) :
      Transition s .await { s with worker := .attempting record } []
  | awaitFlush (hworker : s.worker = .callingFlush) :
      Transition s .await { s with worker := .flushing } []
  | finish {record : Bytes} (outcome : Outcome) (hworker : s.worker = .attempting record) :
      Transition s (.finish outcome) { s with worker := .judging record outcome } []
  | judge {record : Bytes} {outcome : Outcome} (hworker : s.worker = .judging record outcome) :
      Transition s .judge
        { s with healthy := outcome.succeeds record, worker := .releasing }
        (.counted none record (outcome.fate record) :: s.verdictReports record outcome)
  | release (hworker : s.worker = .releasing) :
      Transition s .release
        { s with
          pending := s.pending - 1
          worker := if s.pending == 1 then .waking else .idle } []
  | wake (hworker : s.worker = .waking) :
      Transition s .wake { s.wakeAll with worker := .idle } []
  | flush (hworker : s.worker = .idle) (hsealed : s.isSealed = true) (hempty : s.channel.size = 0) :
      Transition s .flush { s with worker := .callingFlush } [.flushed]
  | finishFlush (outcome : FlushOutcome) (hworker : s.worker = .flushing) :
      Transition s (.finishFlush outcome) { s with worker := .done }
        (flushReports outcome ++ [.reported .exiting, .released])
  | lose (loss : Loss) (hlose : s.worker.canLose loss = true) :
      Transition s (.lose loss) { s with worker := .lost loss, channel := .empty } [.released]

namespace Transition

variable {s t : Spool} {es : List Effect}

theorem of_enter {call : Nat} {record : Bytes} (hhandles : 0 < s.handles)
    (hnew : s.writes.find? call = none) (h : s.enter call record = (t, es)) :
    Transition s (.enter call record) t es := by
  unfold Spool.enter at h
  split at h
  · next hclosed =>
    cases h
    exact .enterClosed hhandles hnew hclosed
  · next hopen =>
    have hopen : s.closed = false := by simpa using hopen
    split at h
    · next hempty =>
      cases h
      rw [List.isEmpty_iff.mp hempty]
      exact .enterEmpty hhandles hnew hopen
    · next hempty =>
      cases h
      exact .enter hhandles hnew hopen (by simpa using hempty)

theorem of_advance {call : Nat} {w : WriteCall} (hw : s.writes.find? call = some w)
    (h : s.advance call w = (t, es)) : Transition s (.advance call) t es := by
  obtain ⟨record, phase⟩ := w
  unfold Spool.advance at h
  cases phase with
  | entered =>
    simp only at h
    split at h
    · next hroom =>
      cases h
      exact .reserve hw hroom
    · next hfull =>
      cases h
      exact .overflow hw hfull
  | reserved =>
    simp only at h
    split at h
    · next hroom =>
      cases h
      have hroom : s.worker.isAlive = true ∧ s.channel.size < s.capacity := by simpa using hroom
      exact .send hw hroom.1 hroom.2
    · next hgone =>
      cases h
      exact .refuse hw (by simpa using hgone)
  | refused =>
    cases h
    exact .giveBack hw
  | waking =>
    cases h
    exact .wakeFromWrite hw
  | losing =>
    cases h
    exact .countLost hw

theorem of_pursue {call : Nat} {phase : ShutdownPhase}
    (hphase : s.shutdowns.find? call = some phase) (h : s.pursue call phase = some (t, es)) :
    Transition s (.pursue call) t es := by
  unfold Spool.pursue at h
  cases phase with
  | closing =>
    simp only [Option.ite_none_right_eq_some] at h
    obtain ⟨hwrites, heq⟩ := h
    cases heq
    exact .pursueClosing hphase hwrites
  | arming =>
    cases h
    exact .pursueArming hphase
  | draining => cases h
  | claiming =>
    simp only at h
    split at h
    · next hunclaimed =>
      cases h
      exact .claim hphase hunclaimed
    · next hclaimed =>
      cases h
      exact .claimTaken hphase (by simpa using hclaimed)
  | joining =>
    simp only at h
    split at h
    · next hdone =>
      cases h
      exact .joinDone hphase hdone
    · next hlost =>
      cases h
      exact .joinLost hphase hlost
    · cases h

theorem of_abandon {call : Nat} (h : s.abandon call = some (t, es)) :
    Transition s (.abandon call) t es := by
  unfold Spool.abandon at h
  split at h
  · next hphase =>
    cases h
    exact .abandonJoining hphase
  · next hphase =>
    cases h
    exact .abandonDraining hphase
  · cases h
  · next hdrain =>
    simp only [Option.ite_none_right_eq_some] at h
    obtain ⟨hw, heq⟩ := h
    obtain ⟨w, hw⟩ := Option.isSome_iff_exists.mp hw
    cases heq
    exact .abandonWait hw hdrain

theorem of_look {call : Nat} (h : s.step (.look call) = some (t, es)) :
    Transition s (.look call) t es := by
  simp only [step] at h
  split at h
  · next w hw =>
    split at h
    · cases h
    · next hparked =>
      have hparked : w.parked = false := by simpa using hparked
      split at h
      · next hnone =>
        cases h
        exact .lookDrained hw hparked hnone
      · next hsome =>
        cases h
        exact .park hw hparked hsome
  · cases h

/-- A step that is possible is a transition. -/
theorem of_step {a : Action} (h : s.step a = some (t, es)) : Transition s a t es := by
  cases a with
  | look call => exact of_look h
  | abandon call => exact of_abandon h
  | clone =>
    simp only [step, Option.ite_none_right_eq_some] at h
    obtain ⟨hhandles, heq⟩ := h
    cases heq
    exact .clone hhandles
  | drop =>
    simp only [step, Option.ite_none_right_eq_some] at h
    obtain ⟨hspare, heq⟩ := h
    cases heq
    exact .drop hspare
  | enter call record =>
    simp only [step, Option.ite_none_right_eq_some, Option.isNone_iff_eq_none] at h
    obtain ⟨⟨hhandles, hnew⟩, heq⟩ := h
    exact of_enter hhandles hnew (Option.some.inj heq)
  | advance call =>
    simp only [step, Option.map_eq_some_iff] at h
    obtain ⟨w, hw, heq⟩ := h
    exact of_advance hw heq
  | close =>
    simp only [step, Option.ite_none_right_eq_some] at h
    obtain ⟨⟨hhandles, hwrites⟩, heq⟩ := h
    cases heq
    exact .close hhandles hwrites
  | announce =>
    simp only [step, Option.ite_none_right_eq_some] at h
    obtain ⟨hannouncing, heq⟩ := h
    cases heq
    exact .announce hannouncing
  | arm call =>
    simp only [step, Option.ite_none_right_eq_some] at h
    obtain ⟨⟨hhandles, hfresh⟩, heq⟩ := h
    cases heq
    exact .arm hhandles hfresh
  | rearm call =>
    simp only [step] at h
    split at h
    · next w hw =>
      simp only [Option.ite_none_right_eq_some, Bool.and_eq_true] at h
      obtain ⟨⟨hparked, hnotified⟩, heq⟩ := h
      cases heq
      exact .rearm hw hparked hnotified
    · cases h
  | shutdown call =>
    simp only [step, Option.ite_none_right_eq_some] at h
    obtain ⟨⟨hhandles, hfresh⟩, heq⟩ := h
    cases heq
    exact .shutdown hhandles hfresh
  | pursue call =>
    simp only [step, Option.bind_eq_some_iff] at h
    obtain ⟨phase, hphase, heq⟩ := h
    exact of_pursue hphase heq
  | receive =>
    simp only [step] at h
    split at h
    · next hworker hpop =>
      cases h
      exact .receive hworker hpop
    · cases h
  | await =>
    simp only [step] at h
    split at h
    · next hworker =>
      cases h
      exact .awaitWrite hworker
    · next hworker =>
      cases h
      exact .awaitFlush hworker
    · cases h
  | finish outcome =>
    simp only [step] at h
    split at h
    · next hworker =>
      cases h
      exact .finish outcome hworker
    · cases h
  | judge =>
    simp only [step] at h
    split at h
    · next hworker =>
      rw [judge_eq] at h
      cases h
      exact .judge hworker
    · cases h
  | release =>
    simp only [step] at h
    split at h
    · next hworker =>
      cases h
      exact .release hworker
    · cases h
  | wake =>
    simp only [step] at h
    split at h
    · next hworker =>
      cases h
      exact .wake hworker
    · cases h
  | flush =>
    simp only [step] at h
    split at h
    · next hworker =>
      simp only [Option.ite_none_right_eq_some, Bool.and_eq_true, beq_iff_eq] at h
      obtain ⟨⟨hsealed, hempty⟩, heq⟩ := h
      cases heq
      exact .flush hworker hsealed hempty
    · cases h
  | finishFlush outcome =>
    simp only [step] at h
    split at h
    · next hworker =>
      cases h
      exact .finishFlush outcome hworker
    · cases h
  | lose loss =>
    simp only [step, Option.ite_none_right_eq_some] at h
    obtain ⟨hlose, heq⟩ := h
    cases heq
    exact .lose loss hlose

theorem step_eq {a : Action} (h : Transition s a t es) : s.step a = some (t, es) := by
  cases h with
  | lookDrained hw hparked hnone => simp [step, hw, hparked, hnone]
  | park hw hparked hsome => simp [step, hw, hparked, hsome, putWaiter]
  | judge hworker => simp [step, hworker, judge_eq]
  | giveBack hw => simp [step, hw, Spool.advance, Spool.giveBack, putWrite]
  | release hworker => simp [step, hworker, Spool.giveBack]
  | enterClosed => simp [step, Spool.enter, *]
  | enterEmpty => simp [step, Spool.enter, *]
  | enter => simp [step, Spool.enter, *]
  | refuse hw hgone =>
    have hgone : (s.worker.isAlive && decide (s.channel.size < s.capacity)) = false := by
      simpa using hgone
    simp [step, hw, Spool.advance, hgone, putWrite]
  | abandonWait hw hdrain => simp [step, Spool.abandon, hdrain, hw, endWaiter]
  | wakeFromWrite hw => simp [step, hw, Spool.advance, putWrite, wakeAll]
  | pursueClosing hphase hwrites =>
    simp [step, hphase, Spool.pursue, hwrites, putShutdown, Spool.close]
  | _ =>
    simp [step, Spool.advance, Spool.pursue, Spool.abandon, putWrite, endWrite, putWaiter,
      endWaiter, putShutdown, endShutdown, *]

end Transition

/-- The steps that are possible are the transitions. -/
theorem step_eq_some_iff {s t : Spool} {a : Action} {es : List Effect} :
    s.step a = some (t, es) ↔ Transition s a t es :=
  ⟨Transition.of_step, Transition.step_eq⟩

end Spool

end LogSpool

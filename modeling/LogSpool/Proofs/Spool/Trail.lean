import LogSpool.Proofs.Spool.Ledger
set_option autoImplicit false

/-!
# Spools: the trail of the worker

`Trail` follows the worker through the records it took: which of them the sink was asked
to write, how those attempts ended, which were counted and whose slots were given back.
`Settled` is what it comes to where no slot is taken: no record is left behind.
-/

namespace LogSpool

/-- What the worker has decided about a record and is about to count. -/
def Worker.judgment : Worker → List (Bytes × Fate)
  | judging record outcome => [(record, outcome.fate record)]
  | _ => []

/-- A worker is not lost between the end of an attempt and the counting. -/
theorem Worker.judgment_of_canLose {worker : Worker} {loss : Loss}
    (h : worker.canLose loss = true) : worker.judgment = [] := by
  cases worker <;> cases loss <;> first | rfl | cases h

namespace Spool

/-- The records that the sink was asked to write, in order. -/
def attempts (effects : List Effect) : List Bytes :=
  effects.filterMap fun
    | .attempted record => some record
    | _ => none

/-- How the attempts ended, in order. -/
def outcomes (actions : List Action) : List Outcome :=
  actions.filterMap fun
    | .finish outcome => some outcome
    | _ => none

/-- Attempts and how they ended, as the worker counts them. -/
def fates (records : List Bytes) (ends : List Outcome) : List (Bytes × Fate) :=
  List.zipWith (fun record outcome => (record, outcome.fate record)) records ends

theorem attempts_append (before after : List Effect) :
    attempts (before ++ after) = attempts before ++ attempts after :=
  List.filterMap_append

theorem outcomes_append (before after : List Action) :
    outcomes (before ++ after) = outcomes before ++ outcomes after :=
  List.filterMap_append

/-- As many attempts as outcomes, and then some more of both. -/
theorem fates_append {records : List Bytes} {ends : List Outcome}
    (hlength : records.length = ends.length) (more : List Bytes) (others : List Outcome) :
    fates (records ++ more) (ends ++ others) = fates records ends ++ fates more others :=
  List.zipWith_append hlength

theorem records_judge (s : Spool) (record : Bytes) (outcome : Outcome) :
    attempts (.counted none record (outcome.fate record) :: s.verdictReports record outcome) = [] ∧
      verdicts (.counted none record (outcome.fate record) :: s.verdictReports record outcome) =
        [(record, outcome.fate record)] := by
  unfold verdictReports
  split <;> split <;> exact ⟨rfl, rfl⟩

theorem records_finishFlush (outcome : FlushOutcome) :
    attempts (flushReports outcome ++ [.reported .exiting, .released]) = [] ∧
      verdicts (flushReports outcome ++ [.reported .exiting, .released]) = [] := by
  cases outcome <;> exact ⟨rfl, rfl⟩

/-! ## The trail of the worker -/

/-- What a run has to do with the records that its worker took. -/
structure Trail (actions : List Action) (worker : Worker) (effects : List Effect) : Prop where
  /-- Attempts are counted as they ended. -/
  judged : verdicts effects ++ worker.judgment = fates (attempts effects) (outcomes actions)
  /-- Each attempt that ended is counted or about to be. -/
  ended : (outcomes actions).length = (verdicts effects ++ worker.judgment).length
  /-- Only the last attempt may not be counted yet. -/
  current : worker.isAlive = true →
    attempts effects = (verdicts effects).map (·.1) ++ worker.unjudged
  /-- Each record that was counted has its slot given back, or is about to. -/
  released : actions.count .release + worker.unreleased = (verdicts effects).length
  /-- Only what was attempted is counted. -/
  counted : (verdicts effects).map (·.1) <+: attempts effects
  /-- Only what was queued is attempted. -/
  attempted : attempts effects <+: queued effects
  /-- The worker is lost once it was lost. -/
  lost : ∀ loss, worker = .lost loss ↔ .lose loss ∈ actions

namespace Trail

variable {s t : Spool} {worker next : Worker} {a : Action} {actions : List Action}
  {effects es : List Effect}

/-- A step that is no part of an attempt. -/
theorem of_quiet (h : Trail actions worker effects) (hattempts : attempts es = [])
    (hverdicts : verdicts es = []) (houtcomes : outcomes [a] = []) (hrelease : a ≠ .release)
    (hjudgment : next.judgment = worker.judgment)
    (hunreleased : next.unreleased = worker.unreleased)
    (hcurrent : next.isAlive = true → worker.isAlive = true ∧ next.unjudged = worker.unjudged)
    (hlost : ∀ loss, next = .lost loss ↔ worker = .lost loss ∨ a = .lose loss) :
    Trail (actions ++ [a]) next (effects ++ es) := by
  have hattempts : attempts (effects ++ es) = attempts effects := by
    rw [attempts_append, hattempts, List.append_nil]
  have hverdicts : verdicts (effects ++ es) = verdicts effects := by
    rw [verdicts_append, hverdicts, List.append_nil]
  have houtcomes : outcomes (actions ++ [a]) = outcomes actions := by
    rw [outcomes_append, houtcomes, List.append_nil]
  refine ⟨?_, ?_, fun halive => ?_, ?_, ?_, ?_, fun loss => ?_⟩
  · rw [hattempts, hverdicts, houtcomes, hjudgment, h.judged]
  · rw [hverdicts, houtcomes, hjudgment, h.ended]
  · obtain ⟨hbefore, heq⟩ := hcurrent halive
    rw [hattempts, hverdicts, heq, h.current hbefore]
  · rw [hverdicts, hunreleased, List.count_append, List.count_singleton, ← h.released]
    simp [hrelease]
  · rw [hattempts, hverdicts]
    exact h.counted
  · rw [hattempts, queued_append]
    exact h.attempted.trans (List.prefix_append _ _)
  · rw [hlost, h.lost, List.mem_append, List.mem_singleton, eq_comm]

/-- A step that is not the worker's. -/
theorem of_others (h : Trail actions worker effects) (hattempts : attempts es = [])
    (hverdicts : verdicts es = []) (houtcomes : outcomes [a] = []) (hrelease : a ≠ .release)
    (hlose : ∀ loss, a ≠ .lose loss) : Trail (actions ++ [a]) worker (effects ++ es) :=
  h.of_quiet hattempts hverdicts houtcomes hrelease rfl rfl (fun halive => ⟨halive, rfl⟩)
    fun loss => by simp [hlose loss]

theorem of_receive (h : Trail actions .idle effects) {record : Bytes} {rest : List Bytes}
    (hqueued : queued effects = (verdicts effects).map (·.1) ++ record :: rest) :
    Trail (actions ++ [.receive]) (.calling record) (effects ++ [.attempted record]) := by
  have hcurrent : attempts effects = (verdicts effects).map (·.1) :=
    (h.current rfl).trans (List.append_nil _)
  have hjudged : verdicts effects = fates (attempts effects) (outcomes actions) :=
    (List.append_nil _).symm.trans h.judged
  have hlength : (attempts effects).length = (outcomes actions).length := by
    rw [hcurrent, List.length_map, h.ended]
    exact congrArg List.length (List.append_nil _).symm
  have hattempts : attempts (effects ++ [.attempted record]) = attempts effects ++ [record] :=
    attempts_append _ _
  have hverdicts : verdicts (effects ++ [.attempted record]) = verdicts effects := by
    rw [verdicts_append]
    exact List.append_nil _
  have houtcomes : outcomes (actions ++ [.receive]) = outcomes actions := by
    rw [outcomes_append]
    exact List.append_nil _
  refine ⟨?_, ?_, fun _ => ?_, ?_, ?_, ?_, fun loss => ?_⟩
  · have hmore := fates_append hlength [record] []
    rw [List.append_nil, ← hjudged] at hmore
    rw [hattempts, houtcomes, hmore, hverdicts]
    rfl
  · rw [hverdicts, houtcomes]
    exact h.ended
  · rw [hattempts, hverdicts, hcurrent]
    rfl
  · rw [hverdicts, List.count_append]
    exact h.released
  · rw [hattempts, hverdicts]
    exact h.counted.trans (List.prefix_append _ _)
  · rw [hattempts, queued_append, hqueued, hcurrent]
    exact ⟨rest ++ [], by simp [queued]⟩
  · rw [List.mem_append, ← h.lost]
    simp

theorem of_finish {record : Bytes} (h : Trail actions (.attempting record) effects)
    (outcome : Outcome) :
    Trail (actions ++ [.finish outcome]) (.judging record outcome) (effects ++ []) := by
  have hcurrent : attempts effects = (verdicts effects).map (·.1) ++ [record] := h.current rfl
  have hjudged : verdicts effects = fates (attempts effects) (outcomes actions) :=
    (List.append_nil _).symm.trans h.judged
  have hended : (outcomes actions).length = (verdicts effects).length :=
    h.ended.trans (congrArg List.length (List.append_nil _))
  have hlength : ((verdicts effects).map (·.1)).length = (outcomes actions).length := by
    rw [List.length_map, hended]
  have houtcomes : outcomes (actions ++ [.finish outcome]) = outcomes actions ++ [outcome] :=
    outcomes_append _ _
  rw [List.append_nil]
  refine ⟨?_, ?_, fun _ => hcurrent, ?_, h.counted, h.attempted, fun loss => ?_⟩
  · have hbefore := fates_append hlength [record] []
    rw [List.append_nil, ← hcurrent, ← hjudged] at hbefore
    have hcounted : fates ((verdicts effects).map (·.1)) (outcomes actions) = verdicts effects :=
      (hbefore.trans (List.append_nil _)).symm
    rw [houtcomes, hcurrent, fates_append hlength, hcounted]
    rfl
  · rw [houtcomes, List.length_append, List.length_append, hended]
    rfl
  · rw [List.count_append]
    exact h.released
  · rw [List.mem_append, ← h.lost]
    simp

theorem of_judge {record : Bytes} {outcome : Outcome}
    (h : Trail actions (.judging record outcome) effects) (hattempts : attempts es = [])
    (hverdicts : verdicts es = [(record, outcome.fate record)]) :
    Trail (actions ++ [.judge]) .releasing (effects ++ es) := by
  have hattempts : attempts (effects ++ es) = attempts effects := by
    rw [attempts_append, hattempts, List.append_nil]
  have hverdicts : verdicts (effects ++ es) =
      verdicts effects ++ [(record, outcome.fate record)] := by
    rw [verdicts_append, hverdicts]
  have houtcomes : outcomes (actions ++ [.judge]) = outcomes actions := by
    rw [outcomes_append]
    exact List.append_nil _
  have hcurrent : attempts effects =
      (verdicts effects ++ [(record, outcome.fate record)]).map (·.1) := by
    rw [h.current rfl, List.map_append]
    rfl
  refine ⟨?_, ?_, fun _ => ?_, ?_, ?_, ?_, fun loss => ?_⟩
  · rw [hverdicts, hattempts, houtcomes, ← h.judged]
    exact List.append_nil _
  · rw [hverdicts, houtcomes, h.ended]
    exact congrArg List.length (List.append_nil _).symm
  · rw [hverdicts, hattempts, hcurrent]
    exact (List.append_nil _).symm
  · rw [hverdicts, List.count_append, List.length_append, ← h.released]
    rfl
  · rw [hverdicts, hattempts]
    exact ⟨[], by rw [List.append_nil, hcurrent]⟩
  · rw [hattempts, queued_append]
    exact h.attempted.trans (List.prefix_append _ _)
  · rw [List.mem_append, ← h.lost]
    simp

theorem of_release (h : Trail actions .releasing effects) (last : Bool) :
    Trail (actions ++ [.release]) (if last then .waking else .idle) (effects ++ []) := by
  have houtcomes : outcomes (actions ++ [.release]) = outcomes actions := by
    rw [outcomes_append]
    exact List.append_nil _
  have hreleased : (actions ++ [Action.release]).count .release = (verdicts effects).length := by
    rw [List.count_append]
    exact h.released
  rw [List.append_nil]
  cases last <;>
    exact ⟨houtcomes ▸ h.judged, houtcomes ▸ h.ended, fun _ => h.current rfl, hreleased, h.counted,
      h.attempted, fun loss => by rw [List.mem_append, ← h.lost]; simp⟩

theorem preserve (h : Trail actions s.worker effects) {ledger : Ledger}
    (hbooks : Books s effects ledger) (step : Transition s a t es) :
    Trail (actions ++ [a]) t.worker (effects ++ es) := by
  cases step with
  | @receive record rest hworker hpop =>
    have hqueued : queued effects = (verdicts effects).map (·.1) ++ record :: rest.toList := by
      rw [hbooks.inOrder, hbooks.owing (by rw [hworker]; rfl), hworker,
        Channel.toList_of_pop? hpop]
      rfl
    rw [hworker] at h
    exact h.of_receive hqueued
  | finish outcome hworker =>
    rw [hworker] at h
    exact h.of_finish outcome
  | @judge record outcome hworker =>
    rw [hworker] at h
    obtain ⟨hattempts, hverdicts⟩ := records_judge s record outcome
    exact h.of_judge hattempts hverdicts
  | release hworker =>
    rw [hworker] at h
    exact h.of_release _
  | awaitWrite hworker | awaitFlush hworker | wake hworker | flush hworker =>
    rw [hworker] at h
    exact h.of_quiet rfl rfl rfl nofun rfl rfl (fun _ => ⟨rfl, rfl⟩) fun loss => by simp
  | finishFlush outcome hworker =>
    obtain ⟨hattempts, hverdicts⟩ := records_finishFlush outcome
    rw [hworker] at h
    exact h.of_quiet hattempts hverdicts rfl nofun rfl rfl nofun fun loss => by simp
  | lose loss hlose =>
    refine h.of_quiet rfl rfl rfl nofun (Worker.judgment_of_canLose hlose).symm
      (Worker.unreleased_of_canLose hlose).symm nofun fun other => ?_
    have hgone : s.worker ≠ .lost other := by
      intro hlost
      rw [hlost] at hlose
      cases loss <;> cases hlose
    simp [hgone]
  | _ => exact h.of_others rfl rfl rfl nofun nofun

end Trail

theorem trail_of_run {capacity : Nat} (hcapacity : 0 < capacity) {s : Spool}
    {actions : List Action} {effects : List Effect}
    (h : (start capacity).run actions = some (s, effects)) : Trail actions s.worker effects := by
  refine run_induction (P := fun actions s effects => Trail actions s.worker effects) ?_
    (fun hrun ih step => ?_) h
  · exact ⟨rfl, rfl, fun _ => rfl, rfl, List.prefix_refl _, List.prefix_refl _,
      fun loss => by simp [start]⟩
  · obtain ⟨ledger, hbooks⟩ := books_of_run hcapacity hrun
    exact ih.preserve hbooks step

/-! ## From one instant to a later one -/

/-- What becomes of the records in a channel, and of those that join it: the worker attempts them as
they are and in their order, and unless it is lost the rest of them still stands in the channel. -/
structure Forwards (first t : Spool) (effects : List Effect) : Prop where
  attempted : attempts effects <+: first.channel.toList ++ queued effects
  kept : (∀ loss, t.worker ≠ .lost loss) →
    first.channel.toList ++ queued effects = attempts effects ++ t.channel.toList

/-- A step in which the worker takes no record, and the channel loses none. -/
theorem Forwards.of_frame {first s t : Spool} {effects es : List Effect} (h : Forwards first s effects)
    (hattempts : attempts es = [])
    (hchannel : (∀ loss, t.worker ≠ .lost loss) → (∀ loss, s.worker ≠ .lost loss) ∧
      t.channel.toList = s.channel.toList ++ queued es) : Forwards first t (effects ++ es) := by
  refine ⟨?_, fun hkept => ?_⟩
  · rw [attempts_append, hattempts, List.append_nil, queued_append, ← List.append_assoc]
    exact h.attempted.trans (List.prefix_append _ _)
  · obtain ⟨hbefore, heq⟩ := hchannel hkept
    rw [attempts_append, hattempts, List.append_nil, queued_append, ← List.append_assoc,
      h.kept hbefore, heq, List.append_assoc]

theorem Forwards.preserve {first s t : Spool} {a : Action} {effects es : List Effect}
    (h : Forwards first s effects) (step : Transition s a t es) : Forwards first t (effects ++ es) := by
  cases step with
  | send hw => exact h.of_frame rfl fun hkept => ⟨hkept, Channel.toList_push ..⟩
  | @receive record rest hworker hpop =>
    have hbefore := h.kept (by simp [hworker])
    rw [Channel.toList_of_pop? hpop, List.append_cons] at hbefore
    have hattempts : attempts (effects ++ [.attempted record]) = attempts effects ++ [record] :=
      attempts_append _ _
    have hqueued : queued (effects ++ [.attempted record]) = queued effects :=
      (queued_append _ _).trans (List.append_nil _)
    refine ⟨?_, fun _ => ?_⟩
    · rw [hattempts, hqueued, hbefore]
      exact List.prefix_append _ _
    · rw [hattempts, hqueued, hbefore]
  | @judge record outcome hworker =>
    obtain ⟨hattempts, -⟩ := records_judge s record outcome
    obtain ⟨hqueued, -⟩ := silent_records (isSilent_verdictReports s record outcome)
    refine h.of_frame hattempts fun _ => ⟨by simp [hworker], ?_⟩
    change s.channel.toList = s.channel.toList ++ queued (s.verdictReports record outcome)
    rw [hqueued, List.append_nil]
  | finishFlush outcome hworker =>
    obtain ⟨hattempts, -⟩ := records_finishFlush outcome
    obtain ⟨hqueued, -⟩ := silent_records (isSilent_finishFlush outcome)
    exact h.of_frame hattempts fun _ => ⟨by simp [hworker], by rw [hqueued, List.append_nil]⟩
  | lose loss hlose => exact h.of_frame rfl fun hkept => absurd rfl (hkept loss)
  | awaitWrite hworker | awaitFlush hworker | wake hworker | flush hworker | release hworker
  | finish _ hworker =>
    exact h.of_frame rfl fun _ => ⟨by simp [hworker], (List.append_nil _).symm⟩
  | _ => exact h.of_frame rfl fun hkept => ⟨hkept, (List.append_nil _).symm⟩

/-- From any instant of a run to any later one, the sink is asked to write the records that stood in
the channel, unchanged and in their order, before those that joined it since. -/
theorem forwards_of_run {first t : Spool} {actions : List Action} {effects : List Effect}
    (h : first.run actions = some (t, effects)) : Forwards first t effects :=
  run_induction (P := fun _ t effects => Forwards first t effects)
    ⟨List.nil_prefix, fun _ => List.append_nil _⟩ (fun _ ih step => ih.preserve step) h

/-! ## Settled runs -/

/-- Every record of a run has come to its end. -/
structure Settled (effects : List Effect) : Prop where
  /-- The sink was asked to write every record that was queued. -/
  attempted : attempts effects = queued effects
  /-- Every record that was queued was counted, in order. -/
  counted : (verdicts effects).map (·.1) = queued effects
  /-- As many records were counted as were answered for. -/
  answered : (taken effects).length = counts .written effects + counts .dropped effects

/-- Where no slot is taken every record has come to its end. -/
theorem settled_of_run {capacity : Nat} (hcapacity : 0 < capacity) {s : Spool}
    {actions : List Action} {effects : List Effect}
    (h : (start capacity).run actions = some (s, effects)) (hnone : s.pending = 0) :
    Settled effects := by
  obtain ⟨ledger, hbooks⟩ := books_of_run hcapacity h
  have trail := trail_of_run hcapacity h
  have howing := hbooks.owing_of_pending hnone
  have hcounted : (verdicts effects).map (·.1) = queued effects := by
    rw [hbooks.inOrder, howing, List.append_nil]
  refine ⟨trail.attempted.eq_of_length_le ?_, hcounted, ?_⟩
  · rw [← hcounted]
    exact trail.counted.length_le
  · rw [← hbooks.answers, List.length_map, ledger.length_eq, hbooks.settled, hbooks.settled, howing]
    rfl

end Spool

end LogSpool

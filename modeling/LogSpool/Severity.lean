set_option autoImplicit false

/-!
# Severity

How severe an event is, from errors down to traces.
-/

namespace LogSpool

/-- The severity of an event. -/
inductive Severity where
  | error
  | warn
  | info
  | debug
  | trace
  deriving DecidableEq, Repr, Inhabited

namespace Severity

/-- The place of a severity, one for the most severe. -/
def rank : Severity → Nat
  | error => 1
  | warn => 2
  | info => 3
  | debug => 4
  | trace => 5

/-- The severities, the most severe first. -/
def all : List Severity := [error, warn, info, debug, trace]

/-- The name of a severity. -/
def name : Severity → String
  | error => "ERROR"
  | warn => "WARN"
  | info => "INFO"
  | debug => "DEBUG"
  | trace => "TRACE"

/-- An event of severity `s` passes a threshold at least as severe. -/
def passes (s threshold : Severity) : Bool := s.rank ≤ threshold.rank

/-- The severity with the given place. -/
def ofRank? (n : Nat) : Option Severity := all.find? (·.rank == n)

/-- The severity with exactly the given name. -/
def ofName? (s : String) : Option Severity := all.find? (·.name == s)

theorem ofRank?_rank (s : Severity) : ofRank? s.rank = some s := by cases s <;> rfl

end Severity

end LogSpool

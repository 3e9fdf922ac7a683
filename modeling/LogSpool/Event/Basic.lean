import LogSpool.Decimal.Binary
import LogSpool.Severity
set_option autoImplicit false

/-!
# Events

An event is what an application, or the spool itself, reports: a severity, a
target, where in the program it happened, and named field values.
-/

namespace LogSpool

/-- The value of a field, as it is shown to whoever records the event. -/
inductive FieldValue where
  /-- A string. -/
  | text (s : String)
  | integer (i : Int)
  | number (x : Decimal.Binary)
  | switch (b : Bool)
  /-- An error, by its message. -/
  | error (message : String)
  /-- Any other value, by its own text. -/
  | shown (s : String)
  /-- Nothing at all. -/
  | absent
  deriving DecidableEq, Repr, Inhabited

/-- The field that holds the message of an event. -/
def messageField : String := "message"

/-- What an application reports. -/
structure Event where
  severity : Severity
  target : String
  modulePath : Option String := none
  file : Option String := none
  line : Option UInt32 := none
  fields : List (String × FieldValue) := []
  deriving DecidableEq, Repr, Inhabited

end LogSpool

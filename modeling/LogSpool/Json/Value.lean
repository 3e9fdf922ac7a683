import LogSpool.Decimal.Binary
set_option autoImplicit false

/-!
# Json: values

The values that a record's fields can hold.  The members of an object are meant to
be a keyed list: in ascending order of their names, each name once.
-/

namespace LogSpool.Json

open LogSpool.Decimal (Binary)

/-- A JSON value. -/
inductive Value where
  | null
  | bool (b : Bool)
  | integer (i : Int)
  | number (x : Binary)
  | text (s : String)
  | array (items : List Value)
  | object (members : List (String × Value))
  deriving Repr, Inhabited

/-- A floating-point number as a value; JSON has no form for NaN and infinities,
which become null. -/
def Value.ofBinary (x : Binary) : Value :=
  if x.isFinite then .number x else .null

end LogSpool.Json

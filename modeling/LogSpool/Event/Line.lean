import LogSpool.Event.Basic
import LogSpool.Decimal.Layout
import LogSpool.Text.Quoted
set_option autoImplicit false

/-!
# Events: one line for people

The line that the console shows of an event: its severity, its target, and its
fields in their order, the message without its name.
-/

namespace LogSpool

open Text (quoted)

/-- Numbers are written positionally when the first digit stands between 10^-4 and
10^15, and a positive exponent has no sign. -/
def consoleLayout : Decimal.Layout where
  least := -4
  greatest := 15
  plusSign := false
  tie := .up
  nan := "NaN"
  infinity := "inf"
  negativeInfinity := "-inf"

/-- The text of a field's value; the message is shown without quotes. -/
def FieldValue.plain? (isMessage : Bool) : FieldValue → Option String
  | text s => some (if isMessage then s else quoted s)
  | integer i => some (toString i)
  | number x => some (String.ofList (consoleLayout.write x))
  | switch b => some (if b then "true" else "false")
  | error message => some message
  | shown s => some s
  | absent => none

namespace Event

/-- A field that only repeats what the line of an event shows already: one that comes
from a bridge to another way of logging. -/
def isBridged (name : String) : Bool := "log.".toList.isPrefixOf name.toList

/-- The name under which a field shows: without the mark of a raw name. -/
def shownName (name : String) : String :=
  match name.toList with
  | 'r' :: '#' :: rest => String.ofList rest
  | _ => name

/-- The text of one field: the message bare, any other field after its name. -/
def fieldText? (name : String) (value : FieldValue) : Option String :=
  if isBridged name then none
  else if name = messageField then value.plain? true
  else (value.plain? false).map fun s => shownName name ++ "=" ++ s

/-- The fields of an event that show, with a space between neighbours. -/
def fieldsText (e : Event) : String :=
  " ".intercalate (e.fields.filterMap fun f => fieldText? f.1 f.2)

/-- A text on the right of `width` places. -/
def padLeft (width : Nat) (s : String) : String :=
  String.ofList (List.replicate (width - s.length) ' ') ++ s

/-- The line of an event, without its end. -/
def plainLine (e : Event) : String :=
  padLeft 5 e.severity.name ++ " " ++ e.target ++ ": " ++ e.fieldsText

end Event

end LogSpool

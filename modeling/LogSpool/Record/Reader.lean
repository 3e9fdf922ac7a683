import LogSpool.Json.Reader
import LogSpool.Keyed
import LogSpool.Record
import LogSpool.Time.Reader
set_option autoImplicit false

/-!
# Records: reading

`Record.read?` reads a record back from its line.  A member that is missing is an
absent part of the record; one of a wrong kind makes the line none of a record.
-/

namespace LogSpool.Record

open Json (Value)

/-- A text member. -/
def textOf? : Value → Option String
  | .text s => some s
  | _ => none

/-- A line number. -/
def lineOf? : Value → Option UInt32
  | .integer i => if 0 ≤ i ∧ i < Nat.pow 2 32 then some (UInt32.ofNat i.toNat) else none
  | _ => none

/-- The members of an object. -/
def membersOf? : Value → Option (List (String × Value))
  | .object members => some members
  | _ => none

/-- A member that may be missing, but not of a wrong kind. -/
def optionalOf? {α : Type} (read? : Value → Option α) (members : List (String × Value))
    (name : String) : Option (Option α) :=
  match Keyed.get? members name with
  | none => some none
  | some value => (read? value).map some

/-- A member that must be there. -/
def requiredOf? {α : Type} (read? : Value → Option α) (members : List (String × Value))
    (name : String) : Option α :=
  (Keyed.get? members name).bind read?

/-- The record that an object's members stand for. -/
def ofMembers? (members : List (String × Value)) : Option Record := do
  let stampText ← requiredOf? textOf? members "timestamp"
  return {
    timestamp := ← Time.Stamp.ofText? stampText.toList
    level := ← requiredOf? textOf? members "level"
    target := ← requiredOf? textOf? members "target"
    modulePath := ← optionalOf? textOf? members "module_path"
    file := ← optionalOf? textOf? members "file"
    line := ← optionalOf? lineOf? members "line"
    message := ← optionalOf? textOf? members "message"
    fields := (← optionalOf? membersOf? members "fields").getD []
    serviceName := ← optionalOf? textOf? members "service_name" }

/-- The record of a line, given without its newline. -/
def read? (line : List Char) : Option Record := do
  let members ← membersOf? (← Value.read? line)
  ofMembers? members

end LogSpool.Record

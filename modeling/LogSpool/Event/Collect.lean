import LogSpool.Event.Basic
import LogSpool.Keyed
import LogSpool.Record
set_option autoImplicit false

/-!
# Events: collecting fields

The fields of an event become the fields of its record, by name; of several with one
name the last counts.  A message that is a text becomes the record's message, while
one that is a number, a switch or an error stays an ordinary field.
-/

namespace LogSpool

open Json (Value)

/-- What the fields of an event have come to. -/
structure Collected where
  message : Option String := none
  fields : List (String × Value) := []
  deriving Repr, Inhabited

namespace Collected

/-- Put a value under a name. -/
def put (c : Collected) (name : String) (value : Value) : Collected :=
  { c with fields := Keyed.insert name value c.fields }

/-- Put a text under a name, or make it the message. -/
def putText (c : Collected) (name s : String) : Collected :=
  if name = messageField then { c with message := some s } else c.put name (.text s)

/-- Take in one field. -/
def visit (c : Collected) (name : String) : FieldValue → Collected
  | .text s | .shown s => c.putText name s
  | .integer i => c.put name (.integer i)
  | .number x => c.put name (.ofBinary x)
  | .switch b => c.put name (.bool b)
  | .error message => c.put name (.text message)
  | .absent => c

/-- Take in the fields of an event one after another. -/
def ofFields (fields : List (String × FieldValue)) : Collected :=
  fields.foldl (fun c f => c.visit f.1 f.2) {}

end Collected

/-- The record of an event at an instant. -/
def Event.record (e : Event) (timestamp : Time.Stamp) (serviceName : Option String) : Record :=
  let collected := Collected.ofFields e.fields
  { timestamp
    level := e.severity.name
    target := e.target
    modulePath := e.modulePath
    file := e.file
    line := e.line
    message := collected.message
    fields := collected.fields
    serviceName }

end LogSpool

import LogSpool.Json.Printer
import LogSpool.Text.Utf8
import LogSpool.Time.Stamp
set_option autoImplicit false

/-!
# Records

A `Record` is one structured log line.  `Record.line` is its JSON object, with the
members in a fixed order and absent ones left out, and `Record.appendTo` adds it to
a buffer, ended by a newline.
-/

namespace LogSpool

open Json (Value renderText renderMembers renderFields)

/-- One structured log line. -/
structure Record where
  timestamp : Time.Stamp
  level : String
  target : String
  modulePath : Option String
  file : Option String
  line : Option UInt32
  message : Option String
  fields : List (String × Value)
  serviceName : Option String
  deriving Repr, Inhabited

namespace Record

/-- A member that is left out when it is absent. -/
def optional (name : String) (value : Option (List Char)) : List (String × List Char) :=
  match value with
  | some text => [(name, text)]
  | none => []

/-- The members of the record's object, names and texts, in their order. -/
def members (r : Record) : List (String × List Char) :=
  [("timestamp", renderText (String.ofList r.timestamp.text)),
    ("level", renderText r.level),
    ("target", renderText r.target)] ++
  optional "module_path" (r.modulePath.map renderText) ++
  optional "file" (r.file.map renderText) ++
  optional "line" (r.line.map fun n => Decimal.digitsOf n.toNat) ++
  optional "message" (r.message.map renderText) ++
  optional "fields" (if r.fields.isEmpty then none else some (renderMembers (renderFields r.fields))) ++
  optional "service_name" (r.serviceName.map renderText)

/-- The record as a JSON object, without the newline that ends its line. -/
def object (r : Record) : List Char := renderMembers r.members

/-- The record's line in bytes, newline included. -/
def encode (r : Record) : Bytes := Utf8.encode (r.object ++ ['\n'])

/-- Add the record's line to the end of a buffer. -/
def appendTo (r : Record) (buffer : Bytes) : Bytes := buffer ++ r.encode

/-- Add the lines of several records to the end of a buffer. -/
def appendAll (records : List Record) (buffer : Bytes) : Bytes :=
  records.foldl (fun buffer r => r.appendTo buffer) buffer

end Record

end LogSpool

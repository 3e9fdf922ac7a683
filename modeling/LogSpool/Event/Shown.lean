import LogSpool.Event.Basic
import LogSpool.Decimal.Layout
import LogSpool.Text.Quoted
import LogSpool.Text.Utf8
set_option autoImplicit false

/-!
# Events: values shown by their own text

The texts of values that have no kind of field of their own: quoted strings, optional
ones, lists of integers and byte strings.
-/

namespace LogSpool.FieldValue

open Text (quoted)

/-- A string in quotes. -/
def quotedText (s : String) : FieldValue := shown (quoted s)

/-- A string that may be missing. -/
def optionalText : Option String → FieldValue
  | some s => shown ("Some(" ++ quoted s ++ ")")
  | none => shown "None"

/-- Integers in brackets. -/
def integers (items : List Int) : FieldValue :=
  shown ("[" ++ ", ".intercalate (items.map toString) ++ "]")

/-- A byte in two hexadecimal digits. -/
def hexByte (b : UInt8) : String :=
  String.ofList [Nat.digitChar (b.toNat / 16), Nat.digitChar (b.toNat % 16)]

/-- A byte string in brackets, each byte in hexadecimal. -/
def byteString (bytes : Bytes) : FieldValue :=
  shown ("[" ++ " ".intercalate (bytes.map hexByte) ++ "]")

/-- An integer too wide for the fields of integers. -/
def wideInteger (i : Int) : FieldValue := shown (toString i)

end LogSpool.FieldValue

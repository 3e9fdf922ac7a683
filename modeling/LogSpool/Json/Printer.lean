import LogSpool.Json.Value
import LogSpool.Decimal.Layout
set_option autoImplicit false

/-!
# Json: printing

The compact text of a value, without any white space.  Inside a string only the
quote, the backslash and the control characters below U+0020 are escaped.
-/

namespace LogSpool.Json

open LogSpool.Decimal (Binary Layout ofInt)

/-- Numbers are written positionally when the first digit stands between 10^-5 and
10^15, and a positive exponent has its sign; what is not finite is null. -/
def numberLayout : Layout where
  least := -5
  greatest := 15
  plusSign := true
  tie := .even
  nan := "null"
  infinity := "null"
  negativeInfinity := "null"

/-- A digit of a `\u` escape. -/
def hexDigit (n : Nat) : Char := Nat.digitChar (n % 16)

/-- One character inside a string. -/
def escapeChar (c : Char) : List Char :=
  if c = '"' then ['\\', '"']
  else if c = '\\' then ['\\', '\\']
  else if c = '\x08' then ['\\', 'b']
  else if c = '\x0c' then ['\\', 'f']
  else if c = '\n' then ['\\', 'n']
  else if c = '\r' then ['\\', 'r']
  else if c = '\t' then ['\\', 't']
  else if c.toNat < 0x20 then ['\\', 'u', '0', '0', hexDigit (c.toNat / 16), hexDigit c.toNat]
  else [c]

/-- A string between quotes. -/
def renderText (s : String) : List Char :=
  '"' :: s.toList.flatMap escapeChar ++ ['"']

/-- Texts with a comma between neighbours. -/
def joinCommas : List (List Char) → List Char
  | [] => []
  | [item] => item
  | item :: rest => item ++ ',' :: joinCommas rest

/-- A member of an object: its name, a colon and the text of its value. -/
def renderMember (name : String) (value : List Char) : List Char :=
  renderText name ++ ':' :: value

/-- Members between braces. -/
def renderMembers (members : List (String × List Char)) : List Char :=
  '\x7b' :: joinCommas (members.map fun m => renderMember m.1 m.2) ++ ['\x7d']

mutual

/-- The text of a value. -/
def Value.render : Value → List Char
  | .null => "null".toList
  | .bool true => "true".toList
  | .bool false => "false".toList
  | .integer i => ofInt i
  | .number x => numberLayout.write x
  | .text s => renderText s
  | .array items => '[' :: joinCommas (renderItems items) ++ [']']
  | .object members => renderMembers (renderFields members)

/-- The texts of the items of an array. -/
def renderItems : List Value → List (List Char)
  | [] => []
  | v :: rest => v.render :: renderItems rest

/-- The names and texts of the members of an object. -/
def renderFields : List (String × Value) → List (String × List Char)
  | [] => []
  | (name, v) :: rest => (name, v.render) :: renderFields rest

end

end LogSpool.Json

import LogSpool.Decimal.Digits
import LogSpool.Decimal.Nearest
import LogSpool.Json.Value
set_option autoImplicit false

/-!
# Json: reading

A strict reader of RFC 8259 texts.  A number with neither fraction nor exponent is an
integer, any other is the binary number nearest to it.  Members keep the order in
which they are written, and a string must stand for whole characters: an escaped half
of a surrogate pair is refused.
-/

namespace LogSpool.Json

open LogSpool.Decimal (spanDigits ofDigits nearest)

/-- White space between tokens. -/
def isSpace (c : Char) : Bool := c == ' ' || c == '\t' || c == '\n' || c == '\r'

/-- A text without the white space at its start. -/
def skipSpace (text : List Char) : List Char := text.dropWhile isSpace

/-! ## Strings -/

/-- The value of a hexadecimal digit. -/
def hexValue? (c : Char) : Option Nat :=
  if '0' ≤ c ∧ c ≤ '9' then some (c.toNat - '0'.toNat)
  else if 'a' ≤ c ∧ c ≤ 'f' then some (c.toNat - 'a'.toNat + 10)
  else if 'A' ≤ c ∧ c ≤ 'F' then some (c.toNat - 'A'.toNat + 10)
  else none

/-- Four hexadecimal digits, and what follows. -/
def readUnit? : List Char → Option (Nat × List Char)
  | a :: b :: c :: d :: rest => do
    let a ← hexValue? a
    let b ← hexValue? b
    let c ← hexValue? c
    let d ← hexValue? d
    return (((a * 16 + b) * 16 + c) * 16 + d, rest)
  | _ => none

/-- The first half of a surrogate pair. -/
def isHighSurrogate (unit : Nat) : Bool := 0xd800 ≤ unit && unit < 0xdc00

/-- The second half of a surrogate pair. -/
def isLowSurrogate (unit : Nat) : Bool := 0xdc00 ≤ unit && unit < 0xe000

/-- A character given by one or two units after the first `\u`, and what follows. -/
def readUnicode? (text : List Char) : Option (Char × List Char) := do
  let (unit, rest) ← readUnit? text
  if isHighSurrogate unit then
    match rest with
    | '\\' :: 'u' :: rest =>
      let (low, rest) ← readUnit? rest
      if isLowSurrogate low then
        return (Char.ofNat (0x10000 + (unit - 0xd800) * 0x400 + (low - 0xdc00)), rest)
      else none
    | _ => none
  else if isLowSurrogate unit then none
  else return (Char.ofNat unit, rest)

/-- One character of a string, and what follows. -/
def readChar? : List Char → Option (Char × List Char)
  | '\\' :: '"' :: rest => some ('"', rest)
  | '\\' :: '\\' :: rest => some ('\\', rest)
  | '\\' :: '/' :: rest => some ('/', rest)
  | '\\' :: 'b' :: rest => some ('\x08', rest)
  | '\\' :: 'f' :: rest => some ('\x0c', rest)
  | '\\' :: 'n' :: rest => some ('\n', rest)
  | '\\' :: 'r' :: rest => some ('\r', rest)
  | '\\' :: 't' :: rest => some ('\t', rest)
  | '\\' :: 'u' :: rest => readUnicode? rest
  | '\\' :: _ => none
  | c :: rest => if c.toNat < 0x20 ∨ c = '"' then none else some (c, rest)
  | [] => none

/-- The characters of a string after its opening quote, and what follows the closing
one. -/
def readChars? : Nat → List Char → Option (List Char × List Char)
  | 0, _ => none
  | _ + 1, '"' :: rest => some ([], rest)
  | fuel + 1, text => do
    let (c, rest) ← readChar? text
    let (cs, rest) ← readChars? fuel rest
    return (c :: cs, rest)

/-- A string after its opening quote, and what follows. -/
def readText? (text : List Char) : Option (String × List Char) :=
  (readChars? text.length text).map fun r => (String.ofList r.1, r.2)

/-! ## Numbers -/

/-- A minus sign, if there is one, and what follows. -/
def readMinus : List Char → Bool × List Char
  | '-' :: rest => (true, rest)
  | text => (false, text)

/-- The digits before the point: no zero before another digit. -/
def readWhole? (text : List Char) : Option (List Char × List Char) :=
  let (digits, rest) := spanDigits text
  if digits.isEmpty || (1 < digits.length && digits.head? == some '0') then none
  else some (digits, rest)

/-- A point and the digits after it, if there is one. -/
def readFraction? : List Char → Option (Option (List Char) × List Char)
  | '.' :: rest =>
    let (digits, rest) := spanDigits rest
    if digits.isEmpty then none else some (some digits, rest)
  | text => some (none, text)

/-- The digits of an exponent, perhaps after a sign. -/
def readSigned? (text : List Char) : Option (Int × List Char) :=
  let (negative, text) := match text with
    | '-' :: rest => (true, rest)
    | '+' :: rest => (false, rest)
    | text => (false, text)
  let (digits, rest) := spanDigits text
  if digits.isEmpty then none
  else some (if negative then -(ofDigits digits : Int) else ofDigits digits, rest)

/-- An exponent, if there is one. -/
def readExponent? : List Char → Option (Option Int × List Char)
  | 'e' :: rest | 'E' :: rest => (readSigned? rest).map fun r => (some r.1, r.2)
  | text => some (none, text)

/-- The value of a number by its parts. -/
def numberOf (negative : Bool) (whole : List Char) (fraction : Option (List Char))
    (exponent : Option Int) : Value :=
  match fraction, exponent with
  | none, none => .integer (if negative then -(ofDigits whole : Int) else ofDigits whole)
  | _, _ =>
    let places := fraction.getD []
    .number (nearest negative ⟨ofDigits (whole ++ places), exponent.getD 0 - places.length⟩)

/-- A number, and what follows. -/
def readNumber? (text : List Char) : Option (Value × List Char) := do
  let (negative, rest) := readMinus text
  let (whole, rest) ← readWhole? rest
  let (fraction, rest) ← readFraction? rest
  let (exponent, rest) ← readExponent? rest
  return (numberOf negative whole fraction exponent, rest)

/-! ## Values -/

mutual

/-- A value at the start of a text, and what follows. -/
def readValue? : Nat → List Char → Option (Value × List Char)
  | 0, _ => none
  | fuel + 1, text =>
    match skipSpace text with
    | 'n' :: 'u' :: 'l' :: 'l' :: rest => some (.null, rest)
    | 't' :: 'r' :: 'u' :: 'e' :: rest => some (.bool true, rest)
    | 'f' :: 'a' :: 'l' :: 's' :: 'e' :: rest => some (.bool false, rest)
    | '"' :: rest => (readText? rest).map fun r => (.text r.1, r.2)
    | '[' :: rest =>
      match skipSpace rest with
      | ']' :: rest => some (.array [], rest)
      | rest => (readItems? fuel rest).map fun r => (.array r.1, r.2)
    | '\x7b' :: rest =>
      match skipSpace rest with
      | '\x7d' :: rest => some (.object [], rest)
      | rest => (readMembers? fuel rest).map fun r => (.object r.1, r.2)
    | rest => readNumber? rest

/-- The items of an array up to its end, at least one, and what follows. -/
def readItems? : Nat → List Char → Option (List Value × List Char)
  | 0, _ => none
  | fuel + 1, text => do
    let (item, rest) ← readValue? fuel text
    match skipSpace rest with
    | ']' :: rest => some ([item], rest)
    | ',' :: rest =>
      let (items, rest) ← readItems? fuel rest
      return (item :: items, rest)
    | _ => none

/-- The members of an object up to its end, at least one, and what follows. -/
def readMembers? : Nat → List Char → Option (List (String × Value) × List Char)
  | 0, _ => none
  | fuel + 1, text =>
    match skipSpace text with
    | '"' :: rest => do
      let (name, rest) ← readText? rest
      match skipSpace rest with
      | ':' :: rest =>
        let (value, rest) ← readValue? fuel rest
        match skipSpace rest with
        | '\x7d' :: rest => some ([(name, value)], rest)
        | ',' :: rest =>
          let (members, rest) ← readMembers? fuel rest
          return ((name, value) :: members, rest)
        | _ => none
      | _ => none
    | _ => none

end

/-- The value that a whole text stands for. -/
def Value.read? (text : List Char) : Option Value := do
  let (value, rest) ← readValue? (2 * text.length + 1) text
  if (skipSpace rest).isEmpty then return value else none

end LogSpool.Json

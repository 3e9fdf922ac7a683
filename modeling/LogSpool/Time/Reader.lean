import LogSpool.Decimal.Digits
import LogSpool.Time.Stamp
set_option autoImplicit false

/-!
# Time: reading time stamps

`Stamp.read?` reads an instant from the start of a text, in the form that
`Stamp.text` writes, and `Stamp.maskLine` puts a placeholder for the time stamp at
the start of a line.
-/

namespace LogSpool.Time

open LogSpool.Decimal (isDigit spanDigits ofDigits)

/-- A number of exactly `count` digits at the start of a text, and what follows. -/
def readDigits? (count : Nat) (text : List Char) : Option (Nat × List Char) :=
  let digits := text.take count
  if digits.length = count ∧ digits.all isDigit then some (ofDigits digits, text.drop count)
  else none

/-- What follows a character at the start of a text. -/
def readChar? (c : Char) : List Char → Option (List Char)
  | [] => none
  | first :: rest => if first = c then some rest else none

/-- A year: four digits, or a sign and at least four. -/
def readYear? : List Char → Option (Int × List Char)
  | '-' :: rest =>
    let (digits, rest) := spanDigits rest
    if digits.length < 4 then none else some (-(ofDigits digits : Int), rest)
  | '+' :: rest =>
    let (digits, rest) := spanDigits rest
    if digits.length < 4 then none else some ((ofDigits digits : Int), rest)
  | text => (readDigits? 4 text).map fun r => ((r.1 : Int), r.2)

/-- A fraction of a second in nanoseconds: a point and one to nine digits, or nothing. -/
def readFraction? : List Char → Option (Nat × List Char)
  | '.' :: rest =>
    let (digits, rest) := spanDigits rest
    if digits.isEmpty ∨ 9 < digits.length then none
    else some (ofDigits digits * Nat.pow 10 (9 - digits.length), rest)
  | text => some (0, text)

/-- An instant at the start of a text, and what follows. -/
def Stamp.read? (text : List Char) : Option (Stamp × List Char) := do
  let (year, text) ← readYear? text
  let (month, text) ← readDigits? 2 (← readChar? '-' text)
  let (day, text) ← readDigits? 2 (← readChar? '-' text)
  let (hour, text) ← readDigits? 2 (← readChar? 'T' text)
  let (minute, text) ← readDigits? 2 (← readChar? ':' text)
  let (second, text) ← readDigits? 2 (← readChar? ':' text)
  let (nanos, text) ← readFraction? text
  let rest ← readChar? 'Z' text
  let leap := second == 60
  let seconds := (Date.toDay ⟨year, month, day⟩) * secondsPerDay + (hour * 3600 + minute * 60 : Nat) +
    (if leap then 59 else second : Nat)
  return (⟨seconds, if leap then nanosPerSecond + nanos else nanos⟩, rest)

/-- The instant that a whole text stands for. -/
def Stamp.ofText? (text : List Char) : Option Stamp := do
  let (stamp, rest) ← Stamp.read? text
  if rest.isEmpty then return stamp else none

/-- What stands for a time stamp in a masked line. -/
def mask : List Char := "<ts>".toList

/-- How the line of a record begins, up to its time stamp. -/
def recordOpening : List Char := "\x7b\"timestamp\":\"".toList

/-- Put the placeholder for the time stamp that a line begins with: that of a record's
line, or a first word that is one. -/
def maskLine (line : List Char) : List Char :=
  if recordOpening.isPrefixOf line then
    match Stamp.read? (line.drop recordOpening.length) with
    | some (_, '"' :: rest) => recordOpening ++ mask ++ '"' :: rest
    | _ => line
  else
    match Stamp.read? line with
    | some (_, []) => mask
    | some (_, ' ' :: rest) => mask ++ ' ' :: rest
    | _ => line

end LogSpool.Time

import LogSpool.Severity
import LogSpool.Text.Blank
set_option autoImplicit false

/-!
# Environment: how values are read

The texts that stand for numbers, switches, severities and characters.  Each
reader takes the whole text; blank characters around it are trimmed beforehand.
-/

namespace LogSpool.Reading

/-- The value of an ASCII digit. -/
def digit? (c : Char) : Option Nat :=
  if '0' ≤ c ∧ c ≤ '9' then some (c.toNat - '0'.toNat) else none

/-- The value of one or more ASCII digits. -/
def digits? (text : List Char) : Option Nat :=
  if text.isEmpty then none
  else text.foldlM (fun value c => (digit? c).map (value * 10 + ·)) 0

/-- A natural number below `bound`: digits, after one plus sign or none. -/
def natural? (bound : Nat) (text : List Char) : Option Nat :=
  let unsigned := match text with
    | '+' :: rest => rest
    | _ => text
  (digits? unsigned).filter (· < bound)

/-- An integer from `-bound` up to but not including `bound`: digits, after one
sign or none. -/
def integer? (bound : Nat) (text : List Char) : Option Int :=
  match text with
  | '-' :: rest => ((digits? rest).filter (· ≤ bound)).map fun n => -(n : Int)
  | _ => (natural? bound text).map Int.ofNat

/-- A switch: exactly `true` or exactly `false`. -/
def switch? (text : List Char) : Option Bool :=
  if text = "true".toList then some true
  else if text = "false".toList then some false
  else none

/-- A severity: its name in any ASCII case, or its place. -/
def severity? (text : List Char) : Option Severity :=
  match (natural? (Nat.pow 2 64) text).bind Severity.ofRank? with
  | some s => some s
  | none => Severity.all.find? fun s => s.name.toList == text.map Char.toUpper

/-- A single character. -/
def character? : List Char → Option Char
  | [c] => some c
  | _ => none

/-- The kinds of values that can be asked for. -/
inductive Form where
  /-- A natural number of so many bits. -/
  | natural (bits : Nat)
  /-- An integer of so many bits, the sign included. -/
  | integer (bits : Nat)
  | switch
  | character
  | text
  | severity
  deriving DecidableEq, Repr, Inhabited

/-- Read a value of the given form and write it in its plain form again. -/
def Form.normalise? (form : Form) (text : List Char) : Option String :=
  match form with
  | .natural bits => (natural? (Nat.pow 2 bits) text).map toString
  | .integer bits => (integer? (Nat.pow 2 (bits - 1)) text).map toString
  | .switch => (switch? text).map fun b => if b then "true" else "false"
  | .character => (character? text).map String.singleton
  | .text => some (String.ofList text)
  | .severity => (severity? text).map Severity.name

end LogSpool.Reading

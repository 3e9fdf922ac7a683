set_option autoImplicit false

/-!
# Text: UTF-8

Bytes and text.  `encode` writes characters as bytes, `scan` reads bytes back as
a sequence of characters and ill-formed parts, and the two readers built on it
differ only in what they make of an ill-formed part: `decode?` refuses the whole
input and `decodeLossy` puts U+FFFD in its place.
-/

namespace LogSpool

/-- A string of bytes. -/
abbrev Bytes := List UInt8

namespace Utf8

/-- The UTF-8 form of a sequence of characters. -/
def encode (text : List Char) : Bytes :=
  text.flatMap String.utf8EncodeChar

/-- What a lead byte announces: how many continuation bytes follow it, and the
least and the greatest byte allowed right after it. -/
def lead? (b : UInt8) : Option (Nat × UInt8 × UInt8) :=
  if 0xC2 ≤ b ∧ b ≤ 0xDF then some (1, 0x80, 0xBF)
  else if b = 0xE0 then some (2, 0xA0, 0xBF)
  else if b = 0xED then some (2, 0x80, 0x9F)
  else if 0xE1 ≤ b ∧ b ≤ 0xEF then some (2, 0x80, 0xBF)
  else if b = 0xF0 then some (3, 0x90, 0xBF)
  else if 0xF1 ≤ b ∧ b ≤ 0xF3 then some (3, 0x80, 0xBF)
  else if b = 0xF4 then some (3, 0x80, 0x8F)
  else none

/-- The bytes of `rest` that continue a character: at most `count`, the first of
them between `low` and `high` and the others between 0x80 and 0xBF. -/
def continuation : Nat → UInt8 → UInt8 → Bytes → Bytes
  | 0, _, _, _ => []
  | _, _, _, [] => []
  | count + 1, low, high, b :: rest =>
    if low ≤ b ∧ b ≤ high then b :: continuation count 0x80 0xBF rest else []

/-- The payload of a lead byte that announces `count` continuation bytes. -/
def leadBits (count : Nat) (b : UInt8) : Nat :=
  b.toNat % Nat.pow 2 (6 - count)

/-- The scalar value of a lead byte and its continuation bytes. -/
def scalar (b : UInt8) (tail : Bytes) : Nat :=
  tail.foldl (fun value c => value * 64 + c.toNat % 64) (leadBits tail.length b)

/-- The first character or ill-formed part of `b :: rest`, and the number of
bytes of `rest` that belong to it.  An ill-formed part is as long as a well-formed
character could still have started with it. -/
def readOne (b : UInt8) (rest : Bytes) : Option Char × Nat :=
  if b < 0x80 then (some (Char.ofNat b.toNat), 0)
  else match lead? b with
    | none => (none, 0)
    | some (count, low, high) =>
      let tail := continuation count low high rest
      if tail.length = count then (some (Char.ofNat (scalar b tail)), count)
      else (none, tail.length)

/-- The characters of a byte string in order, `none` for each ill-formed part. -/
def scan : Bytes → List (Option Char)
  | [] => []
  | b :: rest =>
    let (first, used) := readOne b rest
    first :: scan (rest.drop used)
termination_by bytes => bytes.length
decreasing_by simp only [List.length_drop, List.length_cons]; omega

/-- The text of a byte string that is UTF-8 throughout. -/
def decode? (bytes : Bytes) : Option (List Char) :=
  (scan bytes).mapM id

/-- The text of a byte string, with U+FFFD for each ill-formed part. -/
def decodeLossy (bytes : Bytes) : List Char :=
  (scan bytes).map (·.getD '\uFFFD')

end Utf8

/-- The UTF-8 bytes of a string. -/
def utf8 (s : String) : Bytes :=
  Utf8.encode s.toList

/-- The string that a byte string encodes, if it is UTF-8. -/
def ofUtf8? (bytes : Bytes) : Option String :=
  (Utf8.decode? bytes).map String.ofList

end LogSpool

import LogSpool.Json.Printer
import LogSpool.Json.Reader
set_option autoImplicit false

/-!
# Json: the grammar

The grammar of RFC 8259 as relations between a text and what it stands for, one for each
production.  They mention no reader of values: only how digits count, and which number a
numeral is.  A reader is `Sound` when it invents nothing and `Complete` when it takes every
derived text whole and hands the rest back untouched.
-/

namespace LogSpool.Json

open LogSpool.Decimal (isDigit ofDigits)

/-! ## Readers -/

section Readers

variable {α : Type}

/-- Reads a value at the start of a text and gives back what follows. -/
abbrev Reads (α : Type) : Type := List Char → Option (α × List Char)

/-- What is read was derived. -/
def Sound (G : List Char → α → Prop) (p : Reads α) : Prop :=
  ∀ {text rest : List Char} {x : α}, p text = some (x, rest) → ∃ t, text = t ++ rest ∧ G t x

/-- What is derived is read, before everything that does not go on with it. -/
def Complete (G : List Char → α → Prop) (stops : List Char → Prop) (p : Reads α) : Prop :=
  ∀ {t rest : List Char} {x : α}, G t x → stops rest → p (t ++ rest) = some (x, rest)

end Readers

/-! ## White space -/

/-- White space and nothing else. -/
def Blank (text : List Char) : Prop := ∀ c ∈ text, isSpace c = true

theorem blank_nil : Blank [] := by
  intro c hc
  cases hc

/-! ## Numbers -/

/-- One digit or more. -/
structure IsDigits (digits : List Char) : Prop where
  nonempty : digits ≠ []
  digit : ∀ c ∈ digits, isDigit c = true

/-- The digits before the point: no zero before another digit. -/
structure IsWhole (digits : List Char) : Prop extends IsDigits digits where
  noZeroFirst : ∀ rest, digits = '0' :: rest → rest = []

/-- A point and digits, or nothing. -/
inductive IsFraction : List Char → Option (List Char) → Prop
  | none : IsFraction [] none
  | some {digits : List Char} (h : IsDigits digits) : IsFraction ('.' :: digits) (some digits)

/-- Digits, perhaps after a sign. -/
inductive IsSigned : List Char → Int → Prop
  | bare {digits : List Char} (h : IsDigits digits) : IsSigned digits (ofDigits digits)
  | plus {digits : List Char} (h : IsDigits digits) : IsSigned ('+' :: digits) (ofDigits digits)
  | minus {digits : List Char} (h : IsDigits digits) : IsSigned ('-' :: digits) (-(ofDigits digits : Int))

/-- A letter and an exponent, or nothing. -/
inductive IsExponent : List Char → Option Int → Prop
  | none : IsExponent [] none
  | some {c : Char} {text : List Char} {e : Int} (hc : c = 'e' ∨ c = 'E') (h : IsSigned text e) :
      IsExponent (c :: text) (some e)

/-- A minus sign, or nothing. -/
inductive IsMinus : List Char → Bool → Prop
  | plus : IsMinus [] false
  | minus : IsMinus ['-'] true

/-- A number: sign, digits, fraction and exponent. -/
inductive IsNumber : List Char → Value → Prop
  | mk {sign whole fraction exponent : List Char} {negative : Bool} {places : Option (List Char)}
      {e : Option Int} (hsign : IsMinus sign negative) (hwhole : IsWhole whole)
      (hfraction : IsFraction fraction places) (hexponent : IsExponent exponent e) :
      IsNumber (sign ++ whole ++ fraction ++ exponent) (numberOf negative whole places e)

/-! ## Strings -/

/-- The escapes of one letter, and the characters that they stand for. -/
def shortEscapes : List (Char × Char) :=
  [('"', '"'), ('\\', '\\'), ('/', '/'), ('b', '\x08'), ('f', '\x0c'), ('n', '\n'), ('r', '\r'),
    ('t', '\t')]

/-- Four hexadecimal digits. -/
inductive IsUnit : List Char → Nat → Prop
  | mk {a b c d : Char} {w x y z : Nat} (ha : hexValue? a = some w) (hb : hexValue? b = some x)
      (hc : hexValue? c = some y) (hd : hexValue? d = some z) :
      IsUnit [a, b, c, d] (((w * 16 + x) * 16 + y) * 16 + z)

/-- One character of a string: itself, or an escape that stands for it. -/
inductive IsChar : List Char → Char → Prop
  | plain {c : Char} (hcontrol : 0x20 ≤ c.toNat) (hquote : c ≠ '"') (hslash : c ≠ '\\') : IsChar [c] c
  | short {letter c : Char} (h : (letter, c) ∈ shortEscapes) : IsChar ['\\', letter] c
  | unit {text : List Char} {n : Nat} (h : IsUnit text n) (hhigh : isHighSurrogate n = false)
      (hlow : isLowSurrogate n = false) : IsChar ('\\' :: 'u' :: text) (Char.ofNat n)
  | pair {text more : List Char} {n low : Nat} (h : IsUnit text n) (hhigh : isHighSurrogate n = true)
      (hmore : IsUnit more low) (hlow : isLowSurrogate low = true) :
      IsChar ('\\' :: 'u' :: (text ++ '\\' :: 'u' :: more))
        (Char.ofNat (0x10000 + (n - 0xd800) * 0x400 + (low - 0xdc00)))

/-- The characters of a string, one after another. -/
inductive IsChars : List Char → List Char → Prop
  | nil : IsChars [] []
  | cons {text more : List Char} {c : Char} {cs : List Char} (h : IsChar text c)
      (hmore : IsChars more cs) : IsChars (text ++ more) (c :: cs)

/-- The characters of a string and the quote that ends it. -/
inductive IsBody : List Char → String → Prop
  | mk {text cs : List Char} (h : IsChars text cs) : IsBody (text ++ ['"']) (String.ofList cs)

/-! ## Values -/

/-- One value with white space around it. -/
structure Item where
  before : List Char
  text : List Char
  after : List Char
  value : Value

/-- The text of an item. -/
def Item.spaced (i : Item) : List Char := i.before ++ i.text ++ i.after

/-- The white space of an item is white space. -/
def Item.IsSpaced (i : Item) : Prop := Blank i.before ∧ Blank i.after

/-- A name, with white space around it, and an item. -/
structure Member where
  before : List Char
  body : List Char
  after : List Char
  name : String
  item : Item

/-- The text of a member. -/
def Member.spaced (m : Member) : List Char :=
  m.before ++ '"' :: m.body ++ m.after ++ ':' :: m.item.spaced

/-- The white space of a member is white space, and its name is a string. -/
def Member.IsNamed (m : Member) : Prop :=
  Blank m.before ∧ IsBody m.body m.name ∧ Blank m.after ∧ m.item.IsSpaced

/-- A value. -/
inductive IsValue : List Char → Value → Prop
  | null : IsValue ['n', 'u', 'l', 'l'] .null
  | yes : IsValue ['t', 'r', 'u', 'e'] (.bool true)
  | no : IsValue ['f', 'a', 'l', 's', 'e'] (.bool false)
  | number {text : List Char} {v : Value} (h : IsNumber text v) : IsValue text v
  | text {body : List Char} {s : String} (h : IsBody body s) : IsValue ('"' :: body) (.text s)
  | emptyArray {blank : List Char} (h : Blank blank) : IsValue ('[' :: blank ++ [']']) (.array [])
  | array {items : List Item} (hsome : items ≠ []) (hspaced : ∀ i ∈ items, i.IsSpaced)
      (h : ∀ i ∈ items, IsValue i.text i.value) :
      IsValue ('[' :: joinCommas (items.map Item.spaced) ++ [']']) (.array (items.map Item.value))
  | emptyObject {blank : List Char} (h : Blank blank) :
      IsValue ('\x7b' :: blank ++ ['\x7d']) (.object [])
  | object {members : List Member} (hsome : members ≠ []) (hnamed : ∀ m ∈ members, m.IsNamed)
      (h : ∀ m ∈ members, IsValue m.item.text m.item.value) :
      IsValue ('\x7b' :: joinCommas (members.map Member.spaced) ++ ['\x7d'])
        (.object (members.map fun m => (m.name, m.item.value)))

/-- A whole text: a value with white space around it. -/
inductive IsJson : List Char → Value → Prop
  | mk {before text after : List Char} {v : Value} (hbefore : Blank before) (h : IsValue text v)
      (hafter : Blank after) : IsJson (before ++ text ++ after) v

end LogSpool.Json

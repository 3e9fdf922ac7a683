import LogSpool.Text.Utf8
set_option autoImplicit false

/-!
# Text: lines

A text is cut into lines at its newlines.  One carriage return right before a
newline belongs to the line end, and a text that ends with a newline has no
further, empty line.
-/

namespace LogSpool.Text

/-- The parts of a text between its newlines; one more part than newlines. -/
def splitNewlines : List Char → List (List Char)
  | [] => [[]]
  | c :: rest =>
    match splitNewlines rest with
    | [] => [[]]
    | part :: parts => if c = '\n' then [] :: part :: parts else (c :: part) :: parts

/-- A text without the one carriage return at its end, if it has one there. -/
def dropReturn (text : List Char) : List Char :=
  if text.getLast? = some '\r' then text.dropLast else text

/-- The lines of the parts between newlines: each part but the last was ended by
a newline, and the last is a line only if it is not empty. -/
def linesOfParts : List (List Char) → List (List Char)
  | [] => []
  | [last] => if last.isEmpty then [] else [last]
  | part :: parts => dropReturn part :: linesOfParts parts

/-- The lines of a text, without their line ends. -/
def lines (text : List Char) : List (List Char) :=
  linesOfParts (splitNewlines text)

/-- The lines of a byte string, read as UTF-8 with U+FFFD for each ill-formed part. -/
def linesOfBytes (bytes : Bytes) : List String :=
  (lines (Utf8.decodeLossy bytes)).map String.ofList

end LogSpool.Text

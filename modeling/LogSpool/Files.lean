import LogSpool.Error
import LogSpool.Text.Utf8
set_option autoImplicit false

/-!
# Files

A tree of directories and files, and how a path leads through it.  Files are opened
for appending and created when they are missing; every other failure to open one has
an error of the operating system.
-/

namespace LogSpool

/-- A place in the tree: the names on the way from the root. -/
abbrev Place := List String

/-- What stands at a place. -/
inductive Node where
  | directory
  /-- A file and the pieces of its content in order. -/
  | file (content : Array Bytes)
  deriving DecidableEq, Repr, Inhabited

/-- Everything that stands in the tree. -/
structure Files where
  nodes : List (Place × Node)
  deriving DecidableEq, Repr, Inhabited

/-- The directory that relative paths start from. -/
def workingDirectory : Place := ["work"]

/-- A path, split into its names. -/
structure Path where
  absolute : Bool
  /-- The names on the way to the last one. -/
  way : List String
  /-- The last name; empty for the starting point itself. -/
  last : String
  /-- The path ends with a slash. -/
  slash : Bool
  deriving DecidableEq, Repr, Inhabited

namespace Path

/-- The names between the slashes of a text, the empty ones included. -/
def names (text : List Char) : List (List Char) :=
  text.foldr (fun c parts => if c = '/' then [] :: parts else
    match parts with
    | part :: rest => (c :: part) :: rest
    | [] => [[c]]) [[]]

/-- The longest name, in bytes. -/
def longestName : Nat := 255

/-- The longest path, in bytes, with the byte that ends it. -/
def longestPath : Nat := 4096

/-- The error of a path that holds a NUL character. -/
def nulError : IoError := .malformed "file name contained an unexpected NUL byte"

/-- Split a path at its slashes; slashes in a row count as one. -/
def ofString (s : String) : Except IoError Path :=
  let text := s.toList
  if text.contains '\x00' then .error nulError
  else if text.isEmpty then .error .notFound
  else if longestPath ≤ s.utf8ByteSize then .error .nameTooLong
  else
    let parts := ((names text).filter (!·.isEmpty)).map String.ofList
    .ok { absolute := text.head? = some '/'
          way := parts.dropLast
          last := parts.getLast?.getD ""
          slash := text.getLast? = some '/' }

end Path

namespace Files

/-- A tree with nothing in it but the working directory. -/
def empty : Files := ⟨[([], .directory), (workingDirectory, .directory)]⟩

/-- What stands at a place. -/
def at? (f : Files) (place : Place) : Option Node :=
  (f.nodes.find? (·.1 == place)).map (·.2)

/-- Put something at a place. -/
def put (f : Files) (place : Place) (node : Node) : Files :=
  ⟨(place, node) :: f.nodes.filter (·.1 != place)⟩

theorem at?_put_self (f : Files) (place : Place) (node : Node) :
    (f.put place node).at? place = some node := by
  simp [at?, put]

theorem at?_put_of_ne (f : Files) {place other : Place} (h : other ≠ place) (node : Node) :
    (f.put place node).at? other = f.at? other := by
  have hp : (place == other) = false := by simpa using fun e => h e.symm
  simp only [at?, put, List.find?_cons, hp, List.find?_filter]
  congr 1
  congr 1
  funext entry
  cases he : entry.1 == other
  · simp
  · have : entry.1 = other := by simpa using he
    simp [this, h]

/-- The place one name further on, from a directory. -/
def enter (place : Place) (name : String) : Place :=
  if name = "" || name = "." then place
  else if name = ".." then place.dropLast
  else place ++ [name]

/-- Follow names from a directory, each of them to a directory. -/
def follow (f : Files) : Place → List String → Except IoError Place
  | place, [] => .ok place
  | place, name :: rest =>
    if Path.longestName < name.utf8ByteSize then .error .nameTooLong
    else
      let next := enter place name
      match f.at? next with
      | some .directory => f.follow next rest
      | some (.file _) => .error .notADirectory
      | none => .error .notFound

/-- The place that a path leads to; all but its last name must be directories. -/
def locate (f : Files) (path : Path) : Except IoError Place := do
  let start := if path.absolute then [] else workingDirectory
  let parent ← f.follow start path.way
  if Path.longestName < path.last.utf8ByteSize then .error .nameTooLong
  else .ok (enter parent path.last)

/-- Create a directory. -/
def makeDirectory (f : Files) (s : String) : Except IoError Files := do
  let place ← f.locate (← Path.ofString s)
  match f.at? place with
  | some _ => .error .fileExists
  | none => .ok (f.put place .directory)

/-- The place of a file to write to, and what it holds. -/
def writable (f : Files) (s : String) : Except IoError (Place × Option (Array Bytes)) := do
  let path ← Path.ofString s
  let place ← f.locate path
  if path.slash then .error .isADirectory
  else match f.at? place with
    | some .directory => .error .isADirectory
    | some (.file content) => .ok (place, some content)
    | none => .ok (place, none)

/-- Replace a file. -/
def replaceFile (f : Files) (s : String) (content : Bytes) : Except IoError Files := do
  let (place, _) ← f.writable s
  .ok (f.put place (.file #[content]))

/-- Open a file for appending, creating it if it is missing. -/
def openAppend (f : Files) (s : String) : Except IoError (Place × Files) := do
  let (place, content) ← f.writable s
  .ok (place, if content.isSome then f else f.put place (.file #[]))

/-- Add bytes to the end of an open file. -/
def append (f : Files) (place : Place) (bytes : Bytes) : Files :=
  match f.at? place with
  | some (.file content) => f.put place (.file (content.push bytes))
  | _ => f

/-- The content of a file. -/
def read (f : Files) (s : String) : Except IoError Bytes := do
  let path ← Path.ofString s
  let place ← f.locate path
  match f.at? place with
  | some .directory => .error .isADirectory
  | some (.file content) =>
    if path.slash then .error .notADirectory else .ok content.toList.flatten
  | none => .error .notFound

end Files

end LogSpool

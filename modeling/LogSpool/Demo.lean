import LogSpool.Json.Reader
import LogSpool.Session.Play
set_option autoImplicit false

/-!
# A small program

A program that sends its events to a collector of its own: it installs a pipeline with
all defaults over the collector, reports that it has started, reports an error, and
shuts the pipeline down.  `Demo.report` sorts what it prints.
-/

namespace LogSpool.Demo

open Json (Value)
open Session (Step)

/-- The name of the program's collector. -/
def collectorName : String := "my-collector"

/-- The target of the program's events. -/
def target : String := "example"

/-- The program has started. -/
def started : Event where
  severity := .info
  target := target
  fields := [(messageField, .shown "custom backend example started")]

/-- Something went wrong. -/
def failed : Event where
  severity := .error
  target := target
  fields := [(messageField, .shown "simulated error sent via custom backend"),
    ("collector", .text collectorName)]

/-- What the program does, and a look at the console after it. -/
def steps : List Step :=
  [.install (.collector collectorName) {}, .event started, .event failed,
    .shutdown 0 (.ms 5000), .console]

/-- The lines that the program prints to standard output and to standard error, with the
time stamps at their beginnings masked. -/
def printed : List String × List String :=
  match (Session.play steps).getLast? with
  | some { result := .console out err, .. } => (out, err)
  | _ => ([], [])

/-- What a program prints, sorted by who prints it. -/
structure Report where
  /-- The collector's records: its tag, and the members of the record. -/
  records : List (String × List (String × Value))
  /-- The lines of events for people. -/
  events : List String
  /-- The debugging lines among them, which may come in any order. -/
  debugging : List String
  /-- The lines printed to standard error. -/
  errors : List String
  deriving Repr, Inhabited

/-- The members of a record that depend on when and where the program runs. -/
def incidental : List String := ["timestamp", "module_path", "file", "line"]

/-- The tag and the record of a line that the collector printed. -/
def record? (line : String) : Option (String × List (String × Value)) :=
  let text := line.toList
  if ("[" ++ collectorName ++ " #").toList.isPrefixOf text then
    match text.dropWhile (· ≠ ']') with
    | ']' :: ' ' :: object =>
      match Value.read? object with
      | some (.object members) =>
        some (String.ofList (text.takeWhile (· ≠ ']') ++ [']']),
          members.filter fun m => !incidental.contains m.1)
      | _ => none
    | _ => none
  else none

/-- The line is for debugging. -/
def isDebugging (line : String) : Bool :=
  (Time.mask ++ " DEBUG ".toList).isPrefixOf line.toList

/-- A text up to the first place where another one stands. -/
def upTo (mark : List Char) : List Char → List Char
  | [] => []
  | c :: rest => if mark.isPrefixOf (c :: rest) then [] else c :: upTo mark rest

/-- A debugging line without the number of pending records. -/
def withoutPending (line : String) : String :=
  String.ofList (upTo " pending=".toList line.toList)

/-- What the program prints. -/
def report : Report :=
  let (out, err) := printed
  let lines := out.filter fun line => (record? line).isNone
  { records := out.filterMap record?
    events := lines.filter fun line => !isDebugging line
    debugging := ((lines.filter isDebugging).map withoutPending).mergeSort (· ≤ ·)
    errors := err }

end LogSpool.Demo

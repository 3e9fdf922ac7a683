import LogSpool.Text.Blank
set_option autoImplicit false

/-!
# Backends

A DSN names a backend: a scheme, `://` and what follows.  `Backend.parse` reads
one after trimming it.  The scheme is compared without regard to ASCII case; a
network address loses its trailing slashes and must not be empty then; a path is
taken as it stands and must not be empty; the other backends have no target.
-/

namespace LogSpool

open Text (trim dropEnd)

/-- Where records can be sent. -/
inductive BackendKind where
  | stdout
  | stderr
  | tcp
  | file
  | noop
  deriving DecidableEq, Repr, Inhabited

namespace BackendKind

/-- The kinds of backends. -/
def all : List BackendKind := [stdout, stderr, tcp, file, noop]

/-- The name of a kind. -/
def name : BackendKind → String
  | stdout => "Stdout"
  | stderr => "Stderr"
  | tcp => "Tcp"
  | file => "File"
  | noop => "Noop"

/-- The scheme of a kind, in lower case. -/
def scheme : BackendKind → List Char
  | stdout => "stdout".toList
  | stderr => "stderr".toList
  | tcp => "tcp".toList
  | file => "file".toList
  | noop => "noop".toList

/-- The kind with the given name. -/
def ofName? (s : String) : Option BackendKind := all.find? (·.name == s)

/-- The kind whose scheme is exactly the given text. -/
def ofScheme? (scheme : List Char) : Option BackendKind := all.find? (·.scheme == scheme)

theorem ofScheme?_scheme (k : BackendKind) : ofScheme? k.scheme = some k := by cases k <;> decide

theorem ofName?_name (k : BackendKind) : ofName? k.name = some k := by cases k <;> decide

end BackendKind

/-- Why a DSN names no backend. -/
inductive DsnError where
  /-- The scheme is none of the known ones, or there is no `://` and the whole
  text counts as the scheme. -/
  | unknownScheme (scheme : String)
  /-- The scheme needs a target, described here, and there is none. -/
  | missingTarget (what : String)
  deriving DecidableEq, Repr, Inhabited

/-- A backend: its kind, its target, and the DSN it was read from. -/
structure Backend where
  kind : BackendKind
  target : String
  dsn : String
  deriving DecidableEq, Repr, Inhabited

namespace Backend

/-- What stands between a scheme and its rest. -/
def separator : List Char := [':', '/', '/']

/-- Split a text at the first separator. -/
def splitScheme? : List Char → Option (List Char × List Char)
  | [] => none
  | c :: rest =>
    if separator.isPrefixOf (c :: rest) then some ([], rest.drop 2)
    else (splitScheme? rest).map fun parts => (c :: parts.1, parts.2)

/-- The target of a backend, read from what follows the separator. -/
def targetOf (kind : BackendKind) (rest : List Char) : Except DsnError (List Char) :=
  match kind with
  | .tcp =>
    let address := dropEnd (· == '/') rest
    if address.isEmpty then .error (.missingTarget "host:port") else .ok address
  | .file => if rest.isEmpty then .error (.missingTarget "path") else .ok rest
  | .stdout | .stderr | .noop => .ok []

/-- Read a DSN. -/
def parse (s : String) : Except DsnError Backend :=
  let dsn := trim s.toList
  match splitScheme? dsn with
  | none => .error (.unknownScheme (String.ofList dsn))
  | some (scheme, rest) =>
    let lowered := scheme.map Char.toLower
    match BackendKind.ofScheme? lowered with
    | none => .error (.unknownScheme (String.ofList lowered))
    | some kind =>
      (targetOf kind rest).map fun target => ⟨kind, String.ofList target, String.ofList dsn⟩

end Backend

end LogSpool

import LogSpool.Backend
import LogSpool.Text.Quoted
set_option autoImplicit false

/-!
# Errors

Everything that can go wrong, each kind of error with its message, the message of
its cause, and its structure as text.
-/

namespace LogSpool

open Text (quoted)

/-- Why a call on a spool failed. -/
inductive SpoolError where
  /-- The spool no longer takes records. -/
  | closed
  /-- Records were still pending when the time was up. -/
  | drainTimeout (pending : Nat)
  deriving DecidableEq, Repr, Inhabited

namespace SpoolError

/-- The message of an error. -/
def message : SpoolError → String
  | closed => "write to closed asyncWriter"
  | drainTimeout pending => s!"drain timed out with {pending} record(s) still queued"

/-- The structure of an error. -/
def inspect : SpoolError → String
  | closed => "Closed"
  | drainTimeout pending => s!"DrainTimeout \x7b pending: {pending} \x7d"

end SpoolError

namespace DsnError

/-- The message of an error. -/
def message : DsnError → String
  | unknownScheme scheme => "unknown or unsupported DSN scheme: " ++ scheme
  | missingTarget what => "DSN is missing its " ++ what

/-- The structure of an error. -/
def inspect : DsnError → String
  | unknownScheme scheme => "UnknownScheme(" ++ quoted scheme ++ ")"
  | missingTarget what => "MissingTarget(" ++ quoted what ++ ")"

end DsnError

/-- The kinds of input and output errors. -/
inductive IoErrorKind where
  | alreadyExists
  | brokenPipe
  | invalidFilename
  | invalidInput
  | isADirectory
  | networkUnreachable
  | notADirectory
  | notFound
  | other
  | writeZero
  deriving DecidableEq, Repr, Inhabited

/-- The name of a kind. -/
def IoErrorKind.name : IoErrorKind → String
  | alreadyExists => "AlreadyExists"
  | brokenPipe => "BrokenPipe"
  | invalidFilename => "InvalidFilename"
  | invalidInput => "InvalidInput"
  | isADirectory => "IsADirectory"
  | networkUnreachable => "NetworkUnreachable"
  | notADirectory => "NotADirectory"
  | notFound => "NotFound"
  | other => "Other"
  | writeZero => "WriteZero"

/-- An input or output error. -/
inductive IoError where
  /-- An error of the operating system, with its number and description. -/
  | system (code : Nat) (kind : IoErrorKind) (description : String)
  /-- An error found before the operating system was asked, with a description that is always the
  same. -/
  | plain (kind : IoErrorKind) (description : String)
  /-- An error raised by something above the operating system. -/
  | custom (kind : IoErrorKind) (description : String)
  deriving DecidableEq, Repr, Inhabited

namespace IoError

/-- Nothing has the name. -/
def notFound : IoError := system 2 .notFound "No such file or directory"

/-- Something has the name already. -/
def fileExists : IoError := system 17 .alreadyExists "File exists"

/-- Something on the way is a file. -/
def notADirectory : IoError := system 20 .notADirectory "Not a directory"

/-- A directory stands where a file is needed. -/
def isADirectory : IoError := system 21 .isADirectory "Is a directory"

/-- A name or a path is too long. -/
def nameTooLong : IoError := system 36 .invalidFilename "File name too long"

/-- The request makes no sense in itself. -/
def malformed (description : String) : IoError := plain .invalidInput description

/-- An output took no more bytes while some were left. -/
def writeZero : IoError := plain .writeZero "failed to write whole buffer"

/-- The network does not lead to the address. -/
def networkUnreachable : IoError := system 101 .networkUnreachable "Network is unreachable"

/-- The kind of an error. -/
def kind : IoError → IoErrorKind
  | system _ kind _ => kind
  | plain kind _ => kind
  | custom kind _ => kind

/-- The message of an error. -/
def message : IoError → String
  | system code _ description => s!"{description} (os error {code})"
  | plain _ description => description
  | custom _ description => description

/-- The structure of an error. -/
def inspect : IoError → String
  | system code kind description =>
    "Os \x7b code: " ++ toString code ++ ", kind: " ++ kind.name ++ ", message: " ++
      quoted description ++ " \x7d"
  | plain kind description =>
    "Error \x7b kind: " ++ kind.name ++ ", message: " ++ quoted description ++ " \x7d"
  | custom kind description =>
    "Custom \x7b kind: " ++ kind.name ++ ", error: " ++ quoted description ++ " \x7d"

end IoError

/-- Why a backend's sink could not be opened. -/
inductive OpenError where
  /-- The backend was left out of this build. -/
  | featureDisabled (kind : BackendKind)
  /-- The backend could not be reached. -/
  | io (cause : IoError)
  deriving DecidableEq, Repr, Inhabited

namespace OpenError

/-- The message of an error. -/
def message : OpenError → String
  | featureDisabled kind => "backend " ++ kind.name ++ " requires a crate feature that is not enabled"
  | io cause => "failed to open backend: " ++ cause.message

/-- The structure of an error. -/
def inspect : OpenError → String
  | featureDisabled kind => "FeatureDisabled(" ++ kind.name ++ ")"
  | io cause => "Io(" ++ cause.inspect ++ ")"

/-- The message of what caused the error. -/
def source? : OpenError → Option String
  | featureDisabled _ => none
  | io cause => some cause.message

end OpenError

/-- Why a logging pipeline could not be installed. -/
inductive InitError where
  | dsn (cause : DsnError)
  | backend (cause : OpenError)
  /-- Another pipeline is installed already. -/
  | alreadyInstalled
  deriving DecidableEq, Repr, Inhabited

namespace InitError

/-- The message of an error: that of its cause, where it has one. -/
def message : InitError → String
  | dsn cause => cause.message
  | backend cause => cause.message
  | alreadyInstalled =>
    "failed to install global subscriber: a global default trace dispatcher has already been set"

/-- The structure of an error. -/
def inspect : InitError → String
  | dsn cause => "Dsn(" ++ cause.inspect ++ ")"
  | backend cause => "Backend(" ++ cause.inspect ++ ")"
  | alreadyInstalled => "SetGlobalDefault(SetGlobalDefaultError(\"a global default trace dispatcher has already been set\"))"

/-- The message of what caused the error. -/
def source? : InitError → Option String
  | dsn _ => none
  | backend cause => cause.source?
  | alreadyInstalled => some "a global default trace dispatcher has already been set"

end InitError

end LogSpool

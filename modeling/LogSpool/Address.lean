import LogSpool.Environment.Reading
import LogSpool.Error
set_option autoImplicit false

/-!
# Network addresses

The host and port of a network address.  Nothing here reaches a network: an address
that can be read leads nowhere.
-/

namespace LogSpool

/-- A host and a port. -/
structure Address where
  host : String
  port : Nat
  deriving DecidableEq, Repr, Inhabited

namespace Address

/-- Split a text at its last colon. -/
def splitPort? (text : List Char) : Option (List Char × List Char) :=
  let reversed := text.reverse
  match reversed.dropWhile (· ≠ ':') with
  | [] => none
  | _ :: host => some (host.reverse, (reversed.takeWhile (· ≠ ':')).reverse)

/-- Read an address: a host, a colon, and a port of sixteen bits. -/
def parse (s : String) : Except IoError Address :=
  match splitPort? s.toList with
  | none => .error (.malformed "invalid socket address")
  | some (host, port) =>
    match Reading.natural? (Nat.pow 2 16) port with
    | none => .error (.malformed "invalid port value")
    | some port => .ok ⟨String.ofList host, port⟩

/-- Connect to an address. -/
def connect (s : String) : Except IoError Unit := do
  let _ ← parse s
  .error .networkUnreachable

end Address

end LogSpool

import LogSpool.Session.Step
set_option autoImplicit false

/-!
# Sessions: the output interface

A handle can be written to like any output.  A call that writes all of some bytes offers
what is left until nothing is, and formatted output writes its pieces one by one.
-/

namespace LogSpool.Session

/-- The error of writing to a closed spool through the output interface. -/
def closedError : IoError := .custom .brokenPipe SpoolError.closed.message

/-- Write all of some bytes: offer what is left until nothing is. -/
def writeAll (s : Session) (i : Nat) (bytes : Bytes) : Session × Except IoError Unit :=
  match bytes with
  | [] => (s, .ok ())
  | b :: rest =>
    match s.write i (b :: rest) with
    | (s, .closed) => (s, .error closedError)
    | (s, .accepted 0) => (s, .error .writeZero)
    | (s, .accepted (n + 1)) => s.writeAll i (rest.drop n)
termination_by bytes.length
decreasing_by simp only [List.length_drop, List.length_cons]; omega

/-- Write all of several pieces, up to the first that fails. -/
def writePieces (i : Nat) : List Bytes → Session → Session × Except IoError Unit
  | [], s => (s, .ok ())
  | piece :: rest, s =>
    match s.writeAll i piece with
    | (s, .ok ()) => writePieces i rest s
    | (s, .error e) => (s, .error e)

/-- The pieces of a number: a minus sign stands alone. -/
def numberPieces (n : Int) : List Bytes :=
  if n < 0 then [utf8 "-", utf8 (toString n.natAbs)] else [utf8 (toString n.natAbs)]

/-- Use the output interface of a handle. -/
def output (s : Session) (i : Nat) (method : OutputMethod) (bytes : Bytes) : Session × Result :=
  let unit : Except IoError Unit → Result
    | .ok () => .ok
    | .error e => .ioError e
  match method with
  | .write =>
    match s.write i bytes with
    | (s, .accepted n) => (s, .count n)
    | (s, .closed) => (s, .ioError closedError)
  | .writeAll =>
    let (s, result) := s.writeAll i bytes
    (s, unit result)
  | .flush => (s, .ok)
  | .format number =>
    let text := Utf8.encode (Utf8.decodeLossy bytes)
    let (s, result) := writePieces i (text :: utf8 "|" :: numberPieces number) s
    (s, unit result)

end LogSpool.Session

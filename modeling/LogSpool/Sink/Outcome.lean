import LogSpool.Text.Quoted
import LogSpool.Text.Utf8
set_option autoImplicit false

/-!
# Sinks: how a call ends

A call on a sink returns, fails or panics.  A write has succeeded only if the sink
returned exactly the length of the record; every other end has a reason.
-/

namespace LogSpool

/-- What a panic carries. -/
inductive Payload where
  | text (s : String)
  | other
  deriving DecidableEq, Repr, Inhabited

/-- The words of a panic, where it carries none a fixed phrase. -/
def Payload.words : Payload → String
  | text s => s
  | other => "non-string panic payload"

/-- How a call that writes a record ends. -/
inductive Outcome where
  | returned (count : Nat)
  | failed (error : String)
  | panicked (payload : Payload)
  deriving DecidableEq, Repr, Inhabited

namespace Outcome

/-- Why a write of `length` bytes counts as failed, if it does. -/
def failure? (length : Nat) : Outcome → Option String
  | returned count =>
    if count = length then none else some s!"short write: {count} of {length} bytes"
  | failed error => some error
  | panicked payload => some ("sink panicked: " ++ payload.words)

/-- The write of a record succeeded. -/
def succeeds (record : Bytes) (o : Outcome) : Bool := (o.failure? record.length).isNone

end Outcome

/-- How a call that flushes a sink ends. -/
inductive FlushOutcome where
  | done
  | failed (error : String)
  | panicked (payload : Payload)
  deriving DecidableEq, Repr, Inhabited

/-- How a worker was lost before its work was done. -/
inductive Loss where
  /-- The sink panicked in the call itself, where nothing holds a panic up. -/
  | panicked (payload : Payload)
  /-- The worker was stopped from outside. -/
  | cancelled
  deriving DecidableEq, Repr, Inhabited

/-- The description of a lost worker; `#` stands for the number of its task. -/
def Loss.description : Loss → String
  | panicked (.text s) => "task # panicked with message " ++ Text.quoted s
  | panicked .other => "task # panicked"
  | cancelled => "task # was cancelled"

end LogSpool

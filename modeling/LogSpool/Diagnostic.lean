import LogSpool.Event.Basic
import LogSpool.Sink.Outcome
set_option autoImplicit false

/-!
# Diagnostics

What a spool reports about itself.  Its diagnostics are ordinary events with a target
of its own, so that whoever records events can tell them apart: `isOwnTarget` holds
of that target and of those below it, and of no other that merely begins alike.
-/

namespace LogSpool

/-- The target of everything the spool reports. -/
def ownTarget : String := "tracing_async_writer"

/-- The target of the spool's diagnostics. -/
def diagnosticTarget : String := ownTarget ++ "::writer"

/-- The target is the spool's own or lies below it. -/
def isOwnTarget (target : String) : Bool :=
  let own := ownTarget.toList
  let given := target.toList
  own.isPrefixOf given &&
    (let rest := given.drop own.length
     rest.isEmpty || "::".toList.isPrefixOf rest)

/-- What a spool reports about itself. -/
inductive Diagnostic where
  /-- A write failed after one that succeeded. -/
  | failing (error : String)
  /-- A write succeeded after one that failed. -/
  | recovered
  /-- The spool was closed, with so many records pending. -/
  | closed (pending : Nat)
  | flushFailed (error : String)
  | flushPanicked (words : String)
  /-- The worker is done. -/
  | exiting
  /-- The worker was lost before it was done. -/
  | lost (loss : Loss)
  deriving DecidableEq, Repr, Inhabited

namespace Diagnostic

/-- The severity of a diagnostic. -/
def severity : Diagnostic → Severity
  | failing _ | flushFailed _ | flushPanicked _ | lost _ => .warn
  | recovered => .info
  | closed _ | exiting => .debug

/-- The message of a diagnostic. -/
def message : Diagnostic → String
  | failing _ => "log sink write failed, dropping records until it recovers"
  | recovered => "log sink recovered"
  | closed _ => "async writer closed"
  | flushFailed _ => "failed to flush log sink on shutdown"
  | flushPanicked _ => "log sink panicked during flush"
  | exiting => "async writer worker exiting"
  | lost _ => "async writer worker terminated abnormally"

/-- The field of a diagnostic beside its message. -/
def detail? : Diagnostic → Option (String × FieldValue)
  | failing error | flushFailed error => some ("error", .shown error)
  | flushPanicked words => some ("error", .shown words)
  | lost loss => some ("error", .shown loss.description)
  | closed pending => some ("pending", .integer pending)
  | recovered | exiting => none

/-- A diagnostic as an event. -/
def event (d : Diagnostic) : Event where
  severity := d.severity
  target := diagnosticTarget
  fields := (messageField, .shown d.message) :: d.detail?.toList

end Diagnostic

end LogSpool

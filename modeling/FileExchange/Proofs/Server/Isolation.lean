import FileExchange.Proofs.Server.AcceptLoop

/-!
# Connections kept apart

Whatever goes wrong on a connection stays with it. Every connection that is accepted gets a handler in its
turn and is closed in the end, one access record tells of each that was served, and the next connection is
accepted as if nothing had happened.
-/

set_option autoImplicit false

namespace FileExchange

namespace Host

/-! ## Shutting down -/

/-- The configuration suits the server, and its socket can be opened. -/
def Opens (o : RunOptions) (x : Listening Host) : Prop :=
  let config := override o x.owner.config
  let x := { x with owner := { x.owner with config } }
  ∃ w y, (do announce config (← setUpReports o config x.world)) = .ok w ∧
    Listening.openSocket config { x with world := w } = .ok y

end Host

end FileExchange

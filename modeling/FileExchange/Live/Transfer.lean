import FileExchange.Client.Shell
import FileExchange.Live.Service

/-!
# Sending on the network

A step of the client is tried on a connection on which nothing fails, and what it sends there is sent
in earnest. Where that fails the step is taken again with the fault.
-/

set_option autoImplicit false

namespace FileExchange.Live

open Std.Async
open Std.Net

def dialUp (host : String) (port : Int) : IO (Except Fault TCP.Socket.Client) := do
  try
    let s ← TCP.Socket.Client.mk
    (s.connect (← Socket.addressOf host (UInt16.ofNat port.toNat))).block
    return .ok s
  catch _ => return .error (.plain .connectionRefused)

/-- Makes the sends of a call, ends the stream and waits for the other end to do the same. -/
def callUp (call : Call) (p : Peer) : IO Dial := do
  match ← dialUp call.host call.port with
  | .error f => return { fault := some f }
  | .ok s =>
    match ← Socket.sendEach s 0 p.sends.toList with
    | (sent, some f) => return { peer := { refusal := fun turn _ => if sent < turn then some f else none } }
    | (_, none) =>
      try s.shutdown.block catch _ => return { peer := { shutdownFault := some (.plain .notConnected) } }
      let inbound ← Socket.receiveUntil (fun _ => false) s 1024 none [] []
      return { peer := { inbound } }

/-- Takes a step that makes at most one call. -/
def perform {α : Type} (step : Sending α) (w : ClientWorld) : IO (Except Failure α × ClientWorld) := do
  let w := { w with calls := #[], dials := [] }
  let rehearsal := step w
  match rehearsal.2.calls[0]? with
  | none => return rehearsal
  | some call => return step { w with dials := [← callUp call (call.peer.getD {})] }

end FileExchange.Live

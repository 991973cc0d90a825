import FileExchange.Live.Disk
import FileExchange.Live.Socket
import FileExchange.Server.Host
import FileExchange.Time.LogStamp

/-!
# Serving on the network

Each connection is served on the tree as the disk shows it when the request has arrived; what the
serving did is then done to the disk and sent on the socket.
-/

set_option autoImplicit false

namespace FileExchange.Live

open Std.Async
open Std.Net

/-! ## The world -/

/-- Digits and small letters for the names of temporary files and connections. -/
def tokenOf (seed n : Nat) : String :=
  String.ofList ((List.range 8).map fun k => Quoted.hexDigit ((seed + n) / Nat.pow 36 k % 36))

def worldOf (t : Tree) (threshold : Level) (elapsedMs : Nat) : IO World := do
  let now := (Instant.ofEpoch? (← Std.Time.Timestamp.now).toSecondsSinceUnixEpoch.val).getD ⟨0⟩
  let seed ← IO.rand 0 (Nat.pow 36 8 - 1)
  return {
    tree := t
    clock := { now, stamp := LogStamp.text now, elapsedMs := Binary64.nearest false elapsedMs 1 }
    tokens := tokenOf seed
    connectionNames := tokenOf seed
    journal := { threshold } }

def printJournal (w : World) : IO Unit :=
  w.journal.records.forM fun r => IO.eprintln r.text

/-! ## One connection -/

/-- A server at work: its settings and handlers, the places it looks at, and what it reports. -/
structure Service where
  host : Host
  places : List String
  threshold : Level

/-- A number of seconds in whole milliseconds; for ever if it is not finite. -/
def millisecondsOf : Binary64 → Option Nat
  | .finite _ m e => let (n, d) := Binary64.fraction m e; some (n * 1000 / d)
  | _ => none

/-- Sends what was sent in the exchange, and waits a little for the other end to finish. -/
def finishSocket (s : TCP.Socket.Client) (sends : List Bytes) : IO Unit := do
  let _ ← Socket.sendEach s 0 sends
  try s.shutdown.block catch _ => return
  let _ ← Socket.receiveUntil (fun _ => false) s 1024 (some 500) [] []

def Service.serve (v : Service) (s : TCP.Socket.Client) : IO Unit := do
  let started ← IO.monoMsNow
  let timeout := v.host.config.timeout
  let inbound ← Socket.receiveUntil (Socket.isEnough 65536) s 8192 (timeout.bind millisecondsOf) [] []
  let before ← Disk.load v.places
  let w ← worldOf before v.threshold ((← IO.monoMsNow) - started)
  let ip := (← s.getPeerName).ipAddr.toString
  let .ok c := Connection.accept (w.connectionNames 0) ip timeout { inbound } | return
  let (c, w) := Host.process v.host.site c w
  Disk.store before w.tree
  printJournal w
  finishSocket s c.peer.sends.toList

/-- Serves every connection in a task of its own. A timeout that sockets do not take ends it. -/
partial def Service.acceptAll (v : Service) (server : TCP.Socket.Server) : IO Unit := do
  let s ← server.accept.block
  if let some e := Peer.timeoutFailure? v.host.config.timeout then throw (IO.userError e.message)
  let _ ← IO.asTask (v.serve s) Task.Priority.dedicated
  v.acceptAll server

def listen (c : ServerConfig) : IO TCP.Socket.Server := do
  let server ← TCP.Socket.Server.mk
  server.bind (← Socket.addressOf c.host (UInt16.ofNat c.port.toNat))
  server.listen (UInt32.ofNat c.backlog.toNat)
  return server

end FileExchange.Live

import FileExchange.Connection
import FileExchange.Http.Request
import Std.Async.DNS
import Std.Async.TCP
import Std.Async.Timer

/-!
# Sockets of the network

What arrives on a socket as segments, and the sends of a finished exchange made in earnest.
-/

set_option autoImplicit false

namespace FileExchange.Socket

open Std.Async
open Std.Net

/-! ## Receiving -/

/-- Whether a server needs no more of a stream: its first line is complete and announces no upload,
or there is no line within the limit. -/
def isEnough (maxLine : Nat) (bytes : Bytes) : Bool :=
  match Connection.splitLine bytes with
  | some (line, _) =>
    !(Request.parse (some (Request.decodeLine line))).toOption.any Request.isUpload
  | none => maxLine < bytes.length

/-- One piece of the stream, nothing at its end, or a fault if it does not come in time. -/
def receivePiece (s : TCP.Socket.Client) (size : UInt64) (timeoutMs : Option Nat) :
    IO (Option Segment) := do
  let data (d : Option ByteArray) : Option Segment := d.map fun b => .data b.toList
  try
    match timeoutMs with
    | none => return data (← (s.recv? size).block)
    | some ms =>
      let late ← (Selector.sleep (Std.Time.Millisecond.Offset.ofNat ms)).block
      (Selectable.one #[
        .case (s.recvSelector size) fun d => return data d,
        .case late fun _ => return some (.failure .timedOut)]).block
  catch _ => return some (.failure (.plain .connectionReset))

/-- The segments of a stream until they are enough, the last one first. -/
partial def receiveUntil (enough : Bytes → Bool) (s : TCP.Socket.Client) (size : UInt64)
    (timeoutMs : Option Nat) (before : List Segment) (bytes : Bytes) : IO (List Segment) := do
  match ← receivePiece s size timeoutMs with
  | none => return before.reverse
  | some (.failure f) => return (.failure f :: before).reverse
  | some (.data piece) =>
    let bytes := bytes ++ piece
    if enough bytes then return (.data piece :: before).reverse
    else receiveUntil enough s size timeoutMs (.data piece :: before) bytes

/-! ## Sending -/

/-- Sends one after another; the result is how many of them were sent, and the fault that ended it. -/
def sendEach (s : TCP.Socket.Client) (sent : Nat) : List Bytes → IO (Nat × Option Fault)
  | [] => return (sent, none)
  | bytes :: rest => do
    try (s.send ⟨bytes.toArray⟩).block
    catch _ => return (sent, some (.plain .brokenPipe))
    sendEach s (sent + 1) rest

/-! ## Addresses -/

def addressOf (host : String) (port : UInt16) : IO SocketAddress := do
  match IPv4Addr.ofString host with
  | some a => return .v4 ⟨a, port⟩
  | none =>
    let found : Array IPAddr ← (DNS.getAddrInfo host "" (some .ipv4)).block
    match found.toList with
    | .v4 a :: _ => return .v4 ⟨a, port⟩
    | .v6 a :: _ => return .v6 ⟨a, port⟩
    | [] => throw (IO.userError (Fault.message .unknownHost))

end FileExchange.Socket

import FileExchange.Peer

/-!
# Connections

One accepted connection: reading its request line, reading what follows the line, sending, and
letting the socket go. Bytes that arrive together with the line stay in a buffer and come first.
-/

set_option autoImplicit false

namespace FileExchange

inductive Phase where
  | new
  | reading
  | processing
  | writing
  | receiving
  | closing
  | closed
  deriving Repr, DecidableEq

def Phase.name : Phase → String
  | .new => "new"
  | .reading => "reading"
  | .processing => "processing"
  | .writing => "writing"
  | .receiving => "receiving"
  | .closing => "closing"
  | .closed => "closed"

structure Connection where
  id : String
  clientIp : String
  /-- When it was accepted, in milliseconds. -/
  openedAt : Nat := 0
  phase : Phase := .new
  bytesReceived : Nat := 0
  bytesSent : Nat := 0
  bufferSize : Nat := 8192
  maxLine : Nat := 65536
  buffer : Bytes := []
  peer : Peer

namespace Connection

/-- Takes a socket over; from now on it waits as long as the timeout says, if it takes that. -/
def accept (id clientIp : String) (timeout : Option Binary64) (peer : Peer) : Except Failure Connection :=
  match peer.setTimeout timeout with
  | (.error e, _) => .error e
  | (.ok (), peer) => .ok { id, clientIp, peer }

def age (c : Connection) (now : Nat) : Binary64 :=
  Binary64.nearest false (now - c.openedAt) 1000

/-! ## Receiving -/

def receive (c : Connection) (size : Nat) : Except Fault Bytes × Connection :=
  match c.peer.receive size with
  | (.ok bytes, peer) => (.ok bytes, { c with peer, bytesReceived := c.bytesReceived + bytes.length })
  | (.error fault, peer) => (.error fault, { c with peer })

theorem receive_unread_lt {c c' : Connection} {size : Nat} {bytes : Bytes}
    (h : c.receive size = (.ok bytes, c')) (hne : bytes ≠ []) :
    c'.peer.unread < c.peer.unread := by
  unfold receive at h
  split at h
  · rename_i got peer hp
    simp only [Prod.mk.injEq, Except.ok.injEq] at h
    obtain ⟨rfl, rfl⟩ := h
    exact Peer.receive_unread_lt hp hne
  · simp at h

/-! ## The request line -/

/-- The bytes up to the first line feed and with it, and those behind it. -/
def splitLine (bytes : Bytes) : Option (Bytes × Bytes) :=
  let front := bytes.takeWhile (· != 0x0A)
  match bytes.drop front.length with
  | [] => none
  | b :: rest => some (front ++ [b], rest)

/-- Receives until a line is complete. `held` are the bytes so far, last one first, no line feed
among them, and `size` is their number. -/
def fillLine (c : Connection) (held : Bytes) (size : Nat) :
    Except Failure (Option Bytes) × Connection :=
  if c.maxLine < size then (.error (.lineTooLong c.maxLine), { c with buffer := held.reverse })
  else
    match _h : c.receive c.bufferSize with
    | (.error fault, c') => (.error (.system fault), { c' with buffer := held.reverse })
    | (.ok chunk, c') =>
      if _hne : chunk = [] then
        (.ok (if held.isEmpty then none else some held.reverse), { c' with buffer := [] })
      else
        match splitLine chunk with
        | some (line, rest) => (.ok (some (held.reverse ++ line)), { c' with buffer := rest })
        | none => fillLine c' (chunk.reverseAux held) (size + chunk.length)
termination_by c.peer.unread
decreasing_by exact receive_unread_lt _h _hne

/-- One line with its line feed. A stream that ends early gives what came, or nothing. -/
def readLine (c : Connection) : Except Failure (Option Bytes) × Connection :=
  let c := { c with phase := .reading }
  match splitLine c.buffer with
  | some (line, rest) => (.ok (some line), { c with buffer := rest })
  | none => fillLine c c.buffer.reverse c.buffer.length

/-! ## What follows the line -/

inductive ChunkStage where
  | fresh
  | buffered
  | live
  | finished
  deriving Repr, DecidableEq

/-- A piece from the socket; the end of the stream and a fault both end the reading. -/
def nextLive (c : Connection) (size : Nat) : Except Fault (Option Bytes) × Connection × ChunkStage :=
  match c.receive size with
  | (.error fault, c) => (.error fault, c, .finished)
  | (.ok [], c) => (.ok none, c, .finished)
  | (.ok chunk, c) => (.ok (some chunk), c, .live)

/-- A piece of the buffer, or one from the socket when the buffer is empty. -/
def nextBuffered (c : Connection) (size : Nat) :
    Except Fault (Option Bytes) × Connection × ChunkStage :=
  if c.buffer.isEmpty then c.nextLive size
  else (.ok (some (c.buffer.take size)), { c with buffer := c.buffer.drop size }, .buffered)

/-- The next piece of at most `size` bytes, and how far the reading is then. -/
def nextChunk (c : Connection) (size : Nat) : ChunkStage →
    Except Fault (Option Bytes) × Connection × ChunkStage
  | .fresh => { c with phase := .receiving }.nextBuffered size
  | .buffered => c.nextBuffered size
  | .live => c.nextLive size
  | .finished => (.ok none, c, .finished)

structure Body where
  chunks : List Bytes
  fault : Option Fault
  deriving Repr, DecidableEq

def Body.bytes (b : Body) : Bytes :=
  b.chunks.flatten

/-- All pieces from the socket, those before them given last one first. -/
def takeLive (c : Connection) (size : Nat) (before : List Bytes) : Body × Connection :=
  match _h : c.receive size with
  | (.error fault, c') => (⟨before.reverse, some fault⟩, c')
  | (.ok chunk, c') =>
    if _hne : chunk = [] then (⟨before.reverse, none⟩, c')
    else takeLive c' size (chunk :: before)
termination_by c.peer.unread
decreasing_by exact receive_unread_lt _h _hne

/-- The buffer in pieces of `size` bytes, put in front of those given, last one first. -/
def piecesOnto (size : Nat) (before : List Bytes) (bytes : Bytes) : List Bytes :=
  if _h : bytes = [] ∨ size = 0 then before
  else piecesOnto size (bytes.take size :: before) (bytes.drop size)
termination_by bytes.length
decreasing_by
  have : 0 < bytes.length := List.length_pos_iff.mpr fun e => _h (Or.inl e)
  simp only [List.length_drop]
  omega

/-- Everything up to the end of the stream, in pieces of at most `size` bytes. -/
def takeBody (c : Connection) (size : Nat) : Body × Connection :=
  takeLive { c with phase := .receiving, buffer := [] } size (piecesOnto size [] c.buffer)

/-! ## Closing -/

/-- How many milliseconds closing waits for what the other end still sends. -/
def lingerTime : Option Binary64 := some (Binary64.nearest false 1 2)

/-- Tells the other end that all is sent, takes in what it still sends, and lets the socket go. No
fault on the way keeps it from that; a second close does nothing. -/
def close (c : Connection) : Connection :=
  if c.phase == .closed then c
  else
    let peer := c.peer.shutdown.2
    let peer :=
      match peer.setTimeout lingerTime with
      | (.ok (), peer) => (peer.drain 1024).2
      | (.error _, peer) => peer
    { c with phase := .closed, peer := peer.close.2 }

end Connection

end FileExchange

import FileExchange.Config.ClientConfig
import FileExchange.Peer
import FileExchange.Text.Blank
import FileExchange.Tree.Reader
import FileExchange.World

/-!
# Sending files

One file on one connection: a line that announces the name, the bytes of the file, and the end of the
stream, which tells the server that the file is complete.
-/

set_option autoImplicit false

namespace FileExchange

/-- What trying to connect leads to: a fault or a socket. -/
structure Dial where
  fault : Option Fault := none
  peer : Peer := {}

structure Call where
  host : String
  port : Int
  timeout : Option Binary64
  peer : Option Peer

/-- The client's state: its world, what further connections lead to, and those tried so far. -/
structure ClientWorld extends World where
  dials : List Dial := []
  calls : Array Call := #[]

/-- A step of the client: a result or a failure, and the state afterwards. -/
abbrev Sending (α : Type) : Type := ExceptT Failure (StateM ClientWorld) α

namespace Sender

/-! ## The announcing line -/

/-- A request line can carry a name only as one word. -/
def isSendable (name : String) : Bool :=
  name != "" && !name.toList.any Text.isBlank

def preamble (name : String) : Except Failure Bytes :=
  if isSendable name then .ok (Utf8.encode ("UPLOAD " ++ name ++ "\r\n"))
  else .error (.unsendable name)

/-! ## On the socket -/

/-- The socket and the file tree, which others may change just when a send starts. -/
structure Line where
  tree : Tree
  peer : Peer

def sendBytes (bytes : Bytes) (l : Line) : Except Failure Unit × Line :=
  let tree := if l.peer.closed then l.tree else l.tree.applyAll l.peer.dueEdits
  match l.peer.send bytes with
  | (.ok (), peer) => (.ok (), ⟨tree, peer⟩)
  | (.error fault, peer) => (.error (.system fault), ⟨tree, peer⟩)

/-- Sends a file piece by piece; `most` is an upper bound of the number of pieces. -/
def sendPieces (chunkSize : Nat) (r : Reader) (sent : Nat) :
    Nat → Line → Except Failure Nat × Line
  | 0, l => (.ok sent, l)
  | most + 1, l =>
    let (piece, r) := r.read l.tree chunkSize
    if piece.isEmpty then (.ok sent, l)
    else
      match sendBytes piece l with
      | (.error e, l) => (.error e, l)
      | (.ok (), l) => sendPieces chunkSize r (sent + piece.length) most l

/-- While it is sent, a file never becomes longer than what it holds and what others write. -/
def lengthBound (l : Line) (id : FileId) : Nat :=
  (l.tree.content id).length + l.peer.meddledSize

def endStream (sent : Nat) (l : Line) : Except Failure Nat × Line :=
  match l.peer.shutdown with
  | (.error fault, peer) => (.error (.system fault), { l with peer })
  | (.ok (), peer) =>
    match peer.drain 1024 with
    | (.error fault, peer) => (.error (.system fault), { l with peer })
    | (.ok (), peer) => (.ok sent, { l with peer })

def transfer (chunkSize : Nat) (line : Bytes) (file : FileId) (l : Line) : Except Failure Nat × Line :=
  let l := { l with peer := (l.peer.setTimeout none).2 }
  match sendBytes line l with
  | (.error e, l) => (.error e, l)
  | (.ok (), l) =>
    match sendPieces chunkSize { file } 0 (lengthBound l file + 1) l with
    | (.error e, l) => (.error e, l)
    | (.ok sent, l) => endStream sent l

/-- The socket is let go in any case; a fault of that hides every other. -/
def letGo (result : Except Failure Nat) (l : Line) : Except Failure Nat × Line :=
  match l.peer.close with
  | (.error fault, peer) => (.error (.system fault), { l with peer })
  | (.ok (), peer) => (result, { l with peer })

/-! ## One upload -/

/-- Connects, transfers and lets go; without a further dial the connection is an empty one. -/
def connectAndSend (c : ClientConfig) (line : Bytes) (file : FileId) : Sending Nat := fun w =>
  let dial := w.dials.headD {}
  let w := { w with dials := w.dials.tail }
  let call (peer : Option Peer) : Call := ⟨c.host, c.port, c.connectTimeout, peer⟩
  match dial.fault with
  | some fault => (.error (.system fault), { w with calls := w.calls.push (call none) })
  | none =>
    let (result, l) := transfer c.chunkSize.toNat line file ⟨w.tree, dial.peer⟩
    let (result, l) := letGo result l
    (result, { w with tree := l.tree, calls := w.calls.push (call (some l.peer)) })

def upload (c : ClientConfig) (p : Path) (remoteName : Option String) : Sending Nat := do
  let name := match remoteName with
    | some name => if name == "" then p.name else name
    | none => p.name
  let line ← fun w => (preamble name, w)
  let file ← fun w => (w.tree.openFile p, w)
  let sent ← connectAndSend c line file
  fun w =>
    (.ok sent, { w with
      toWorld := w.toWorld.log .info .client
        ("Uploaded " ++ p.text ++ " (" ++ toString sent ++ " bytes)") })

/-! ## Several uploads -/

/-- Results by written path; a path given again keeps its place and takes the new result. -/
abbrev Results := List (String × Except Failure Nat)

def putResult (path : String) (result : Except Failure Nat) : Results → Results
  | [] => [(path, result)]
  | (p, r) :: rest => if p == path then (p, result) :: rest else (p, r) :: putResult path result rest

def uploadAll (c : ClientConfig) (results : Results) (w : ClientWorld) :
    List String → Results × ClientWorld
  | [] => (results, w)
  | path :: rest =>
    let (result, w) := upload c (Path.ofString path) none w
    uploadAll c (putResult path result results) w rest

def uploadMany (c : ClientConfig) (paths : List String) (w : ClientWorld) : Results × ClientWorld :=
  uploadAll c [] w paths

end Sender

end FileExchange

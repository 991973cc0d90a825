import FileExchange.Connection
import FileExchange.World

/-!
# Exchanges

Serving one connection in its world: steps that look at the file tree, send, receive and report. What
a step did before it failed stays done.
-/

set_option autoImplicit false

namespace FileExchange

structure Exchange extends World where
  connection : Connection

/-- A step of serving: a result or a failure, and what the exchange is afterwards. -/
abbrev Serving (α : Type) : Type := ExceptT Failure (StateM Exchange) α

namespace Serving

/-- A step that only looks. -/
def ask {α : Type} (f : Exchange → Except Failure α) : Serving α :=
  fun s => (f s, s)

def inspect {α : Type} (f : Exchange → α) : Serving α :=
  fun s => (.ok (f s), s)

def change (f : Exchange → Exchange) : Serving Unit :=
  fun s => (.ok (), f s)

/-- A step with its failure as part of its result. -/
def attempt {α : Type} (step : Serving α) : Serving (Except Failure α) :=
  fun s =>
    let (result, s) := step s
    (.ok result, s)

/-! ## Reporting -/

def log (level : Level) (speaker : Speaker) (message : String) : Serving Unit :=
  change fun s => { s with toWorld := s.toWorld.log level speaker message }

/-- A report about this connection starts with its name. -/
def report (level : Level) (speaker : Speaker) (message : String) : Serving Unit := do
  let c ← inspect (·.connection)
  log level speaker ("[" ++ c.id ++ "] " ++ message)

/-! ## The connection -/

def enter (phase : Phase) : Serving Unit :=
  change fun s => { s with connection := { s.connection with phase } }

def readLine : Serving (Option Bytes) :=
  fun s =>
    let (result, connection) := s.connection.readLine
    (result, { s with connection })

/-- Others may change the tree just when a send starts. -/
def meddle : Serving Unit :=
  change fun s =>
    if s.connection.peer.closed then s
    else { s with tree := s.tree.applyAll s.connection.peer.dueEdits }

def sendBytes (bytes : Bytes) : Serving Unit :=
  fun s =>
    match s.connection.peer.send bytes with
    | (.ok (), peer) =>
      let sent := s.connection.bytesSent + bytes.length
      (.ok (), { s with connection := { s.connection with peer, bytesSent := sent } })
    | (.error fault, peer) =>
      (.error (.system fault), { s with connection := { s.connection with peer } })

def send (bytes : Bytes) : Serving Unit := do
  enter .writing
  meddle
  sendBytes bytes

/-- Sends a complete response; a system fault is reported and is no failure. -/
def sendResponse (bytes : Bytes) : Serving Bool := do
  match ← attempt (send bytes) with
  | .ok () => return true
  | .error (.system fault) =>
    report .warning .connection ("Send failed: " ++ fault.message)
    return false
  | .error e => throw e

end Serving

end FileExchange

import FileExchange.Config.ServerConfig
import FileExchange.Connection
import FileExchange.World

/-!
# The listener

The listening socket and the loop that accepts connections one at a time and hands each of them over.
What its owner does with a connection is a parameter.
-/

set_option autoImplicit false

namespace FileExchange

/-! ## What happens outside -/

inductive Signal where
  | terminate
  | interrupt
  deriving Repr, DecidableEq

def Signal.name : Signal → String
  | .terminate => "SIGTERM"
  | .interrupt => "SIGINT"

/-- A connection that comes in. Its handler may block until the server shuts down, or may not start
at all. -/
structure Arrival where
  clientIp : String
  peer : Peer
  blocks : Bool := false
  cannotStart : Bool := false

/-- What one call for the next connection meets. -/
inductive Event where
  | connection (a : Arrival)
  | idle
  | fault (f : Fault)
  | signal (s : Signal)
  | interrupt
  | stop
  /-- The server is told to stop and the call fails. -/
  | stopWithFault
  /-- From now on handlers do not end in time; waiting for one takes this many milliseconds. -/
  | stall (ms : Nat)

/-- The listening socket: which of its calls fail, and what has been done with it. -/
structure ListeningSocket where
  bindFailure : Option Failure := none
  listenFailure : Option Failure := none
  nameFailure : Option Failure := none
  closeFault : Option Fault := none
  bound : Option (String × Int) := none
  backlog : Option Int := none
  closed : Bool := false
  deriving Repr, DecidableEq

/-- The port that is given where port 0 asks for any free one. -/
def freePort : Int := 40000

/-! ## The state of the listener -/

structure Listener where
  socket : ListeningSocket := {}
  /-- Whether the socket is the listener's to use. -/
  holdsSocket : Bool := false
  running : Bool := false
  ready : Bool := false
  ownSignals : Bool := false
  /-- Signals can be handled only by the main thread. -/
  inMainThread : Bool := true
  /-- Whether the listener was running, at each call for the next connection. -/
  polls : Array Bool := #[]
  deriving Repr, DecidableEq

/-- The listener at work in the world, beside what its owner keeps. -/
structure Listening (σ : Type) where
  listener : Listener
  world : World
  owner : σ

inductive Stopped where
  | ended
  | interrupted
  | failed (e : Failure)
  deriving Repr, DecidableEq

namespace Listening

variable {σ : Type}

/-- What the owner does with a connection; it may come back with a reason to stop. -/
abbrev Handover (σ : Type) : Type := Arrival → Connection → World → σ → Option Stopped × World × σ

def log (x : Listening σ) (level : Level) (message : String) : Listening σ :=
  { x with world := x.world.log level .listener message }

/-- Ends the accept loop; connections in progress go on. -/
def stop (x : Listening σ) : Listening σ :=
  let x := if x.listener.running then x.log .info "Shutting down socket server..." else x
  { x with listener := { x.listener with running := false } }

/-- The own handlers of a signal stop the listener. -/
def receiveSignal (x : Listening σ) (s : Signal) : Listening σ :=
  if x.listener.ownSignals then
    (x.log .info ("Received " ++ s.name ++ ", initiating shutdown...")).stop
  else x

/-! ## The accept loop -/

/-- The connection that an arrival is accepted as. -/
def connect (config : ServerConfig) (name : String) (a : Arrival) : Except Failure Connection := do
  let c ← Connection.accept name a.clientIp config.timeout a.peer
  return { c with bufferSize := config.bufferSize.toNat }

/-- A socket that does not take the timeout ends the loop, and nobody has it then. -/
def accept (handle : Handover σ) (config : ServerConfig) (a : Arrival) (x : Listening σ) :
    Option Stopped × Listening σ :=
  let w := { x.world with accepted := x.world.accepted + 1 }
  match connect config (x.world.connectionNames x.world.accepted) a with
  | .error e => (some (.failed e), { x with world := w })
  | .ok c =>
    let (reason, world, owner) := handle a c w x.owner
    (reason, { x with world, owner })

/-- An error while running is reported; after a stop it is expected. -/
def acceptFault (x : Listening σ) (f : Fault) : Listening σ :=
  if x.listener.running then x.log .error ("Accept error: " ++ f.message) else x

/-- What one call for a connection leads to: a reason to leave the loop, if there is one. -/
def meet (handle : Handover σ) (config : ServerConfig) (x : Listening σ) :
    Event → Option Stopped × Listening σ
  | .connection a => x.accept handle config a
  | .idle => (none, x)
  | .fault .timedOut => (none, x)
  | .fault f => (some .ended, x.acceptFault f)
  | .signal s => (none, x.receiveSignal s)
  | .interrupt => (some .interrupted, x)
  | .stop => (none, x.stop)
  | .stopWithFault => (some .ended, x.stop.acceptFault (.plain .badDescriptor))
  | .stall ms =>
    (none, { x with world := { x.world with clock := { x.world.clock with joinMs := some ms } } })

def poll (x : Listening σ) : Listening σ :=
  { x with listener := { x.listener with polls := x.listener.polls.push x.listener.running } }

/-- Accepts connections until the listener no longer runs. When nothing more happens the server is
told to stop. The events that were not met are left over. -/
def acceptLoop (handle : Handover σ) (config : ServerConfig) :
    List Event → Listening σ → Stopped × Listening σ × List Event
  | [], x => (.ended, if x.listener.running then x.poll.stop else x, [])
  | e :: rest, x =>
    if x.listener.running then
      match x.poll.meet handle config e with
      | (some reason, x) => (reason, x, rest)
      | (none, x) => acceptLoop handle config rest x
    else (.ended, x, e :: rest)

/-! ## Starting and ending -/

def closeSocket (x : Listening σ) : Option Fault × Listening σ :=
  (x.listener.socket.closeFault,
    { x with listener := { x.listener with socket := { x.listener.socket with closed := true } } })

def forgetSocket (x : Listening σ) : Listening σ :=
  { x with listener := { x.listener with holdsSocket := false } }

def cleanUp (x : Listening σ) : Listening σ :=
  let x := if x.listener.holdsSocket then x.closeSocket.2.forgetSocket else x
  let x := { x with
    listener := { x.listener with running := false, ready := false, ownSignals := false } }
  x.log .info "Socket server stopped"

/-- A socket that the system does not bind is closed at once. -/
def bindFailed (config : ServerConfig) (f : Fault) (x : Listening σ) : Stopped × Listening σ :=
  let x := x.log .error
    ("Failed to bind to " ++ config.host ++ ":" ++ toString config.port ++ ": " ++ f.message)
  match x.closeSocket with
  | (some f', x) => (.failed (.system f'), x)
  | (none, x) => (.failed (.system f), x.forgetSocket)

def boundPort (port : Int) : Int :=
  if port == 0 then freePort else port

/-- Binds the socket and starts to listen; the first call that fails ends it. A host or a port that
binding does not take leaves the socket as it is. -/
def openSocket (config : ServerConfig) (x : Listening σ) : Except (Stopped × Listening σ) (Listening σ) :=
  let x := { x with listener := { x.listener with holdsSocket := true } }
  match x.listener.socket.bindFailure with
  | some (.system f) => .error (bindFailed config f x)
  | some e => .error (.failed e, x)
  | none =>
    let socket := { x.listener.socket with bound := some (config.host, boundPort config.port) }
    let x := { x with listener := { x.listener with socket } }
    match socket.listenFailure with
    | some e => .error (.failed e, x)
    | none =>
      let socket := { socket with backlog := some config.backlog }
      let listener := { x.listener with
        socket, running := true, ownSignals := x.listener.inMainThread }
      let x := { x with listener }
      match socket.nameFailure with
      | some e => .error (.failed e, x)
      | none => .ok x

def announce (x : Listening σ) : Listening σ :=
  let (host, port) := x.listener.socket.bound.getD ("", 0)
  let x := x.log .info ("Server listening on " ++ host ++ ":" ++ toString port)
  { x with listener := { x.listener with ready := true } }

def start (handle : Handover σ) (config : ServerConfig) (events : List Event) (x : Listening σ) :
    Stopped × Listening σ × List Event :=
  match openSocket config x with
  | .error (reason, x) => (reason, x, events)
  | .ok x =>
    let (reason, x, rest) := acceptLoop handle config events x.announce
    (reason, x.cleanUp, rest)

end Listening

end FileExchange

import FileExchange.Serve.Dispatch
import FileExchange.Server.Listener
import FileExchange.Text.Letters

/-!
# The server

The listener, one handler for each connection, and the shutdown that waits for handlers still at
work.
-/

set_option autoImplicit false

namespace FileExchange

/-- The handler of one connection; it is at work as long as it waits for its connection. -/
structure Handler where
  connection : Connection
  waiting : Bool

structure Host where
  config : ServerConfig
  site : Site
  handlers : List Handler := []

namespace Host

def create (c : ServerConfig) (t : Tree) : Except Failure Host := do
  c.validate t
  return { config := c, site := ← Site.ofConfig c t }

def activeCount (h : Host) : Nat :=
  h.handlers.countP (·.waiting)

/-! ## Handlers -/

/-- Serves a connection to its end. Every failure stays with the connection. -/
def process (s : Site) (c : Connection) (w : World) : Connection × World :=
  let (result, x) := s.handle { toWorld := w, connection := c }
  match result with
  | .ok _ => (x.connection, x.toWorld)
  | .error e =>
    (x.connection,
      x.toWorld.log .error .server ("[" ++ c.id ++ "] Connection error: " ++ e.message))

/-- Starts a handler. A connection whose handler cannot start is closed. -/
def handOver : Listening.Handover Host := fun a c w h =>
  let add (c : Connection) (waiting : Bool) := { h with handlers := h.handlers ++ [⟨c, waiting⟩] }
  if a.cannotStart then
    let w := w.log .error .server
      ("[" ++ c.id ++ "] Could not start handler thread: can't start new thread")
    (none, w, add c.close false)
  else if a.blocks then (none, w, add c true)
  else
    let (c, w) := process h.site c w
    (none, w, add c false)

/-! ## Levels of reports -/

/-- The names of levels, two of them under an older name. -/
def levelNames : List (String × Level) :=
  [("CRITICAL", .critical), ("FATAL", .critical), ("ERROR", .error), ("WARNING", .warning),
   ("WARN", .warning), ("INFO", .info), ("DEBUG", .debug), ("NOTSET", .all)]

/-- The name that stands for the layout of a report, not for a level. -/
def layoutName : String := "BASIC_FORMAT"

def layout : String := "%(levelname)s:%(name)s:%(message)s"

/-- The level of a name in any case; an unknown name means the usual level. -/
def levelOf (name : String) : Except Failure Level :=
  let name := Text.upperText name
  if name == layoutName then .error (.unknownLevel layout)
  else .ok ((levelNames.lookup name).getD .info)

/-! ## Shutdown -/

/-- How long shutting down waits for handlers, in milliseconds. -/
def patience : Nat := 30000

def report (w : World) (message : String) : World :=
  w.log .info .server message

/-- Waits for handlers of which none ends: each takes its time until there is none left. -/
def waitInVain (ms : Nat) (spent : Nat) (w : World) : List Handler → World
  | [] => w
  | _ :: rest =>
    if patience ≤ spent then
      w.log .warning .server "Shutdown timeout reached, abandoning open connections"
    else waitInVain ms (spent + ms) w rest

/-- Lets the handlers that wait go on to their end, in the order of acceptance. -/
def finishHandlers (s : Site) (w : World) : List Handler → List Handler × World
  | [] => ([], w)
  | h :: rest =>
    let (c, w) := if h.waiting then process s h.connection w else (h.connection, w)
    let (done, w) := finishHandlers s w rest
    (⟨c, false⟩ :: done, w)

def shutdown (h : Host) (w : World) : Host × World :=
  let w := report w "Shutting down server..."
  let active := h.handlers.filter (·.waiting)
  if active.isEmpty then (h, report w "Server stopped")
  else
    let w := report w ("Waiting for " ++ toString active.length ++ " active connection(s)")
    match w.clock.joinMs with
    | some ms => (h, report (waitInVain ms 0 w active) "Server stopped")
    | none =>
      let (handlers, w) := finishHandlers h.site w h.handlers
      ({ h with handlers }, report w "Server stopped")

/-! ## Running -/

structure RunOptions where
  host : Option String := none
  port : Option Int := none
  setupReports : Bool := true
  deriving Repr, DecidableEq

def override (o : RunOptions) (c : ServerConfig) : ServerConfig :=
  let c := match o.host with
    | some host => if host == "" then c else { c with host }
    | none => c
  match o.port with
  | some port => { c with port }
  | none => c

def setUpReports (o : RunOptions) (c : ServerConfig) (w : World) : Except Failure World :=
  if o.setupReports then do
    let threshold ← levelOf c.logLevel
    return { w with journal := { w.journal with threshold } }
  else return w

def announce (c : ServerConfig) (w : World) : Except Failure World := do
  let root ← c.rootPath w.tree
  let uploads ← c.uploadPath w.tree
  return report w ("Serving " ++ root.text ++ " on " ++ c.host ++ ":" ++ toString c.port ++
    ", uploads to " ++ uploads.text)

/-- How a run went: its failure, if it failed, what became of the server, and the events that were
not met. -/
structure Run where
  failure : Option Failure
  listening : Listening Host
  left : List Event

def finish (reason : Stopped) (x : Listening Host) (left : List Event) : Run :=
  let world := match reason with
    | .interrupted => report x.world "Received keyboard interrupt"
    | _ => x.world
  let (owner, world) := shutdown x.owner world
  let failure := match reason with
    | .failed e => some e
    | _ => none
  ⟨failure, { x with owner, world }, left⟩

def run (o : RunOptions) (events : List Event) (x : Listening Host) : Run :=
  let config := override o x.owner.config
  let x := { x with owner := { x.owner with config } }
  match (do announce config (← setUpReports o config x.world)) with
  | .error e => ⟨some e, x, events⟩
  | .ok world =>
    let (reason, x, left) := Listening.start handOver config events { x with world }
    finish reason x left

end Host

end FileExchange

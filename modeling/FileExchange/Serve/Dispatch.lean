import FileExchange.AccessRecord
import FileExchange.Http.Request
import FileExchange.Serve.Site
import FileExchange.Serve.Upload

/-!
# Dispatch

One connection carries one request: the request line is read, the request is answered by a listing,
a file, an upload or the one page for everything else, and one access record tells how it went.
-/

set_option autoImplicit false

namespace FileExchange

namespace Site

open Serving

/-! ## Targets -/

/-- Whether a path is a directory or lies below it, both being real paths. -/
def isWithin (root p : Path) : Bool :=
  root.anchor == p.anchor && root.names.isPrefixOf p.names

/-- The path of a target below the root, still with its links. -/
def written (s : Site) (target : String) : Path :=
  s.root.join (Path.ofString (String.ofList (target.toList.dropWhile (· == '/'))))

/-- The real path of a target, if it has one inside the root. A target that cannot name anything has
none; one that leads out of the root has none and is reported. -/
def resolve (s : Site) (t : Tree) (target : String) : Except Failure (Option Path × Option Record) :=
  match s.realPath t (s.written target) with
  | .ok p =>
    if isWithin s.root p then .ok (some p, none)
    else
      .ok (none, some ⟨.warning, .dispatcher, "Path traversal attempt: " ++ target⟩)
  | .error (.linkLoop path) => .error (.linkLoop path)
  | .error _ => .ok (none, none)

def locate (s : Site) (target : String) : Serving (Option Path) := do
  let (p, record) ← ask fun x => s.resolve x.tree target
  match record with
  | some r => log r.level r.speaker r.message
  | none => pure ()
  return p

/-! ## Answers -/

/-- The outcome of a request; an upload has no response and so no status. -/
abbrev Outcome := Option Status

def sendNotFound : Serving Outcome := do
  let _ ← sendResponse Response.notFound.bytes
  return some .notFound

def serve (s : Site) (p : Path) (target : String) : Serving Unit := do
  if ← ask fun x => s.isDirectory x.tree p then Directory.respondWith fun t => s.entries t p target
  else
    ask fun _ => s.allow .read p (.ok ())
    s.files.respond p

/-- A fault before anything is sent makes the answer the page for what is not there; after that the
answer stays as it is, cut short. -/
def answerFault (target : String) (fault : Fault) : Serving Outcome := do
  let sent ← inspect (·.connection.bytesSent)
  if sent == 0 then
    report .warning .dispatcher ("Cannot serve " ++ target ++ ": " ++ fault.message)
    sendNotFound
  else
    report .error .dispatcher ("Transfer of " ++ target ++ " aborted after " ++ toString sent ++
      " bytes: " ++ fault.message)
    return some .ok

def answerFound (s : Site) (p : Path) (target : String) : Serving Outcome := do
  match ← attempt (s.serve p target) with
  | .ok () => return some .ok
  | .error (.system fault) => answerFault target fault
  | .error e => throw e

def answerGet (s : Site) (target : String) : Serving Outcome := do
  match ← s.locate target with
  | none => sendNotFound
  | some p => if ← ask fun x => s.pathExists x.tree p then s.answerFound p target else sendNotFound

def answerUpload (s : Site) (name : String) : Serving Outcome := do
  match ← attempt (Upload.receive s.uploads s.files.chunkSize name) with
  | .ok _ => return none
  | .error (.refused refusal) =>
    report .warning .dispatcher ("Upload rejected: " ++ refusal.message)
    return none
  | .error (.system fault) =>
    let received ← inspect (·.connection.bytesReceived)
    report .error .dispatcher ("Upload of " ++ name ++ " aborted after " ++ toString received ++
      " bytes received: " ++ fault.message)
    return none
  | .error e => throw e

/-! ## Requests -/

/-- Answers a line, or a stream that ended before it sent one. -/
def answerLine (s : Site) (line : Option Bytes) : Serving (Option Request × Outcome) := do
  match Request.parse (line.map Request.decodeLine) with
  | .error _ => return (none, ← sendNotFound)
  | .ok request =>
    enter .processing
    if request.isUpload then return (some request, ← s.answerUpload request.target)
    else return (some request, ← s.answerGet request.target)

def answer (s : Site) : Serving (Option Request × Outcome) := do
  match ← attempt readLine with
  | .ok line => s.answerLine line
  | .error (.system fault) =>
    report .warning .dispatcher ("Failed to read request line: " ++ fault.message)
    return (none, none)
  | .error (.lineTooLong limit) =>
    report .warning .dispatcher (Failure.lineTooLong limit).message
    return (none, ← sendNotFound)
  | .error e => throw e

def outcomeCode (o : Outcome) : Nat :=
  (o.map Status.code).getD 0

/-- The access record of a request; dashes stand for a request that was not understood. -/
def accessRecord (x : Exchange) (request : Option Request) (outcome : Outcome) : AccessRecord where
  requestId := x.connection.id
  method := (request.map (·.method.name)).getD "-"
  target := (request.map (·.target)).getD "-"
  clientIp := x.connection.clientIp
  statusCode := outcomeCode outcome
  bytesSent := x.connection.bytesSent
  bytesReceived := x.connection.bytesReceived
  durationMs := x.clock.elapsedMs
  timestamp := x.clock.stamp

def recordAccess (s : Site) (request : Option Request) (outcome : Outcome) : Serving Unit := do
  let r ← inspect fun x => (accessRecord x request outcome).record s.logFormat .info
  log r.level r.speaker r.message

/-- Serves the one request of a connection. The access record is written also where serving fails. -/
def dispatch (s : Site) : Serving Nat := do
  match ← attempt s.answer with
  | .ok (request, outcome) =>
    s.recordAccess request outcome
    return outcomeCode outcome
  | .error e =>
    s.recordAccess none none
    throw e

/-- Serves a connection and lets it go, however serving it ends. -/
def handle (s : Site) (x : Exchange) : Except Failure Nat × Exchange :=
  let (result, x) := s.dispatch x
  (result, { x with connection := x.connection.close })

end Site

end FileExchange

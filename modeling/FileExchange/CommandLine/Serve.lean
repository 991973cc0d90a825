import FileExchange.CommandLine.Exit
import FileExchange.Server.Host

/-!
# The command that serves

Environment variables give the defaults, options change them, and the server runs until it is told to
stop.
-/

set_option autoImplicit false

namespace FileExchange.CommandLine

namespace Serve

/-! ## Options -/

def networkOptions (d : ServerConfig) : List (Choice ServerConfig) :=
  [⟨["--host", "-H"], .text "HOST" fun host c => { c with host },
     "Host to bind to (default: " ++ d.host ++ ")"⟩,
   ⟨["--port", "-p"], .integer "PORT" fun port c => { c with port },
     "Port to listen on (default: " ++ toString d.port ++ ")"⟩,
   ⟨["--timeout"], .decimal "TIMEOUT" fun timeout c => { c with timeout },
     "Per-connection socket timeout in seconds (default: none, wait forever)"⟩]

def directoryOptions (d : ServerConfig) : List (Choice ServerConfig) :=
  [⟨["--root", "-r"], .text "ROOT" fun rootDirectory c => { c with rootDirectory },
     "Directory to serve (default: " ++ d.rootDirectory ++ ")"⟩,
   ⟨["--upload-dir", "-u"], .text "UPLOAD_DIR" fun uploadDirectory c => { c with uploadDirectory },
     "Upload directory, relative to the root unless absolute (default: " ++ d.uploadDirectory ++ ")"⟩,
   ⟨["--chunk-size", "-c"], .integer "CHUNK_SIZE" fun chunkSize c => { c with chunkSize },
     "Streaming chunk size in bytes (default: " ++ toString d.chunkSize ++ ")"⟩]

def reportOptions (d : ServerConfig) : List (Choice ServerConfig) :=
  [⟨["--log-level", "-l"], .choice levelChoices fun logLevel c => { c with logLevel },
     "Logging level (default: " ++ d.logLevel ++ ")"⟩,
   ⟨["--log-format"], .choice ["text", "json"] fun logFormat c => { c with logFormat },
     "Access log format (default: " ++ d.logFormat ++ ")"⟩]

def remarks : String := "Examples:
  python -m fileshare                          # Serve . on 127.0.0.1:5104
  python -m fileshare --root ./public          # Serve another directory
  python -m fileshare --host 0.0.0.0           # Listen on all interfaces
  python -m fileshare --log-format json        # JSON access logs
        "

def command (d : ServerConfig) : Command ServerConfig where
  program := "fileshare-server"
  version := release
  description := "Hybrid file-transfer / HTTP server"
  options := ⟨["-h", "--help"], .help, "show this help message and exit"⟩ ::
    (networkOptions d ++ directoryOptions d ++ reportOptions d ++
      [⟨["--version", "-v"], .version, "show program's version number and exit"⟩])
  remarks := Serve.remarks

/-! ## Running -/

structure Outcome where
  exit : Exit
  run : Option Host.Run := none

def ofRun (r : Host.Run) : Except Failure Outcome :=
  match r.failure with
  | none => .ok ⟨{ status := .ran 0 }, some r⟩
  | some e =>
    if e.isSystem then
      .ok ⟨{ status := .ran 1, err := "Error: " ++ e.message ++ "\n" }, some r⟩
    else .error e

def isDefect : Failure → Bool
  | .system _ => false
  | .linkLoop _ => false
  | _ => true

def serve (c : ServerConfig) (socket : ListeningSocket) (events : List Event) (w : World) :
    Except Failure Outcome :=
  match Host.create c w.tree with
  | .ok h => ofRun (Host.run {} events { listener := { socket }, world := w, owner := h })
  | .error e => if isDefect e then .ok ⟨Exit.ofDefect e, none⟩ else .error e

def plan (env : Environment) (arguments : List String) : Except Failure (ServerConfig ⊕ Exit) :=
  match ServerConfig.ofEnvironment env with
  | .error e => .ok (.inr (Exit.ofBadEnvironment e))
  | .ok d =>
    settingsOrExit (command d) { d with logLevel := Text.upperText d.logLevel } arguments

/-- Runs the command in an environment, with what will happen on the listening socket. A failure that
no message covers is the result. -/
def execute (env : Environment) (arguments : List String) (socket : ListeningSocket)
    (events : List Event) (w : World) : Except Failure Outcome := do
  match ← plan env arguments with
  | .inl c => serve c socket events w
  | .inr exit => return ⟨exit, none⟩

end Serve

end FileExchange.CommandLine

import FileExchange.Client.Shell
import FileExchange.CommandLine.Exit

/-!
# The command that uploads

Files named on the command line are sent one after another; without any, commands are read from the
input.
-/

set_option autoImplicit false

namespace FileExchange.CommandLine

namespace Send

/-! ## Options -/

structure Settings where
  config : ClientConfig
  files : List String := []
  logLevel : String := "WARNING"
  deriving Repr, DecidableEq

def Settings.change (f : ClientConfig → ClientConfig) (s : Settings) : Settings :=
  { s with config := f s.config }

def networkOptions (d : ClientConfig) : List (Choice Settings) :=
  [⟨["--host", "-H"], .text "HOST" fun host => Settings.change fun c => { c with host },
     "Server host (default: " ++ d.host ++ ")"⟩,
   ⟨["--port", "-p"], .integer "PORT" fun port => Settings.change fun c => { c with port },
     "Server port (default: " ++ toString d.port ++ ")"⟩]

def transferOptions (d : ClientConfig) : List (Choice Settings) :=
  [⟨["--chunk-size"], .integer "CHUNK_SIZE" fun chunkSize => Settings.change fun c => { c with chunkSize },
     "Bytes per send (default: " ++ toString d.chunkSize ++ ")"⟩,
   ⟨["--workers", "-w"], .integer "WORKERS" fun maxWorkers => Settings.change fun c => { c with maxWorkers },
     "Concurrent uploads (default: " ++ toString d.maxWorkers ++ ")"⟩]

def command (d : ClientConfig) : Command Settings where
  program := "fileshare-upload"
  version := release
  description := "Upload files to a fileshare server"
  options := ⟨["-h", "--help"], .help, "show this help message and exit"⟩ ::
    (networkOptions d ++ transferOptions d ++
      [⟨["--log-level", "-l"], .choice levelChoices fun logLevel s => { s with logLevel },
         "Logging level (default: WARNING)"⟩,
       ⟨["--version", "-v"], .version, "show program's version number and exit"⟩])
  files := some ⟨"files", "Files to upload; omit for interactive mode",
    fun file s => { s with files := file :: s.files }⟩

/-! ## Uploading -/

/-- The files that can be sent, and why each other one cannot. -/
def sift (t : Tree) : List String → Except Failure (List String × List String)
  | [] => .ok ([], [])
  | file :: rest => do
    match ← Sender.objection t (Path.ofString file) with
    | some reason =>
      let (files, reasons) ← sift t rest
      return (files, reason :: reasons)
    | none =>
      let (files, reasons) ← sift t rest
      return (file :: files, reasons)

def successLines : Sender.Results → List String
  | [] => []
  | (file, .ok n) :: rest =>
    Shell.outcomeMessage (Path.ofString file).name (.ok n) :: successLines rest
  | _ :: rest => successLines rest

def failureLines : Sender.Results → List String
  | [] => []
  | (file, .error e) :: rest => Shell.outcomeMessage file (.error e) :: failureLines rest
  | _ :: rest => failureLines rest

/-- What is reported about files that were sent and files that could not be; the code tells whether
all went well. -/
def report (reasons : List String) (results : Sender.Results) : Exit :=
  let complaints := reasons ++ failureLines results
  { status := .ran (if complaints.isEmpty then 0 else 1)
    out := Help.lines (successLines results)
    err := Help.lines complaints }

def sendFiles (c : ClientConfig) (files : List String) : Sending Exit := do
  let (accepted, reasons) ← fun w => (sift w.tree files, w)
  fun w =>
    let (results, w) := Sender.uploadMany c accepted w
    (.ok (report reasons results), w)

def runShell (c : ClientConfig) (input : String) : Sending Exit := do
  return { status := .ran 0, out := ← Shell.run c (Path.ofString ".") input }

def send (s : Settings) (input : String) : Sending Exit :=
  match s.config.validate with
  | .error e => return Exit.ofDefect e
  | .ok () =>
    if s.files.isEmpty then runShell s.config input else sendFiles s.config s.files.reverse

def plan (env : Environment) (arguments : List String) : Except Failure (Settings ⊕ Exit) :=
  match ClientConfig.ofEnvironment env with
  | .error e => .ok (.inr (Exit.ofBadEnvironment e))
  | .ok d => settingsOrExit (command d) { config := d } arguments

/-- Runs the command in an environment on an input. A failure that no message covers is the result. -/
def execute (env : Environment) (arguments : List String) (input : String) : Sending Exit := do
  match ← fun w => (plan env arguments, w) with
  | .inl s => send s input
  | .inr exit => return exit

end Send

end FileExchange.CommandLine

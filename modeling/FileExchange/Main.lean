import FileExchange.CommandLine.Send
import FileExchange.CommandLine.Serve
import FileExchange.Live.Transfer

/-!
# The program

`serve` runs the server and `upload` the client; what follows is the command line of either.
-/

set_option autoImplicit false

namespace FileExchange.Program

open CommandLine

/-! ## The surroundings -/

def variableNames : List String :=
  ["FILESHARE_HOST", "FILESHARE_PORT", "FILESHARE_ROOT", "FILESHARE_UPLOAD_DIR",
   "FILESHARE_CHUNK_SIZE", "FILESHARE_CLIENT_CHUNK_SIZE", "FILESHARE_TIMEOUT", "FILESHARE_LOG_LEVEL",
   "FILESHARE_LOG_FORMAT"]

def environment : IO Environment :=
  variableNames.filterMapM fun name => do return (← IO.getEnv name).map (name, ·)

def leave (e : Exit) : IO UInt32 := do
  IO.print e.out
  IO.eprint e.err
  return UInt32.ofNat e.status.code

def giveUp (e : Failure) : IO UInt32 := do
  IO.eprintln e.message
  return 1

/-! ## The server -/

def runService (c : ServerConfig) (v : Live.Service) (w : World) : IO UInt32 := do
  match Host.announce c w with
  | .error e => giveUp e
  | .ok w =>
    Live.printJournal w
    try
      v.acceptAll (← Live.listen c)
      return 0
    catch e =>
      IO.eprintln ("Error: " ++ toString e)
      return 1

def serve (arguments : List String) : IO UInt32 := do
  match Serve.plan (← environment) arguments with
  | .error e => giveUp e
  | .ok (.inr exit) => leave exit
  | .ok (.inl c) =>
    let places := [c.rootDirectory, c.uploadDirectory]
    let t ← Disk.load places
    match Host.create c t, Host.levelOf c.logLevel with
    | .ok host, .ok threshold => runService c ⟨host, places, threshold⟩ (← Live.worldOf t threshold 0)
    | .error e, _ => leave (Exit.ofDefect e)
    | _, .error e => giveUp e

/-! ## The client -/

def sendAll (c : ClientConfig) (results : Sender.Results) (w : ClientWorld) :
    List String → IO Sender.Results
  | [] => return results
  | file :: rest => do
    let (result, w) ← Live.perform (Sender.upload c (Path.ofString file) none) w
    sendAll c (Sender.putResult file result results) w rest

partial def runShell (c : ClientConfig) (w : ClientWorld) (input : IO.FS.Stream) : IO UInt32 := do
  let line ← input.getLine
  if line.isEmpty || Shell.isQuit line then return 0
  let tree ← Disk.load ((Text.words line.toList).map String.ofList)
  let (result, w) ← Live.perform (Shell.handle c (Path.ofString ".") line) { w with tree }
  match result with
  | .error e => giveUp e
  | .ok answer =>
    IO.print (Shell.printed answer)
    runShell c w input

def sendFiles (c : ClientConfig) (files : List String) (w : ClientWorld) : IO UInt32 := do
  match Send.sift w.tree files with
  | .error e => giveUp e
  | .ok (accepted, reasons) => leave (Send.report reasons (← sendAll c [] w accepted))

def upload (arguments : List String) : IO UInt32 := do
  match Send.plan (← environment) arguments with
  | .error e => giveUp e
  | .ok (.inr exit) => leave exit
  | .ok (.inl s) =>
    let files := s.files.reverse
    let w ← Live.worldOf (← Disk.load files) .warning 0
    match s.config.validate with
    | .error e => leave (Exit.ofDefect e)
    | .ok () =>
      if files.isEmpty then runShell s.config { toWorld := w } (← IO.getStdin)
      else sendFiles s.config files { toWorld := w }

end FileExchange.Program

def main (arguments : List String) : IO UInt32 :=
  match arguments with
  | "serve" :: rest => FileExchange.Program.serve rest
  | "upload" :: rest => FileExchange.Program.upload rest
  | rest => FileExchange.Program.serve rest

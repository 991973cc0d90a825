import FileExchange.Client.Sender
import FileExchange.Media.Type

/-!
# The command loop

Commands that send files, one a line, and the messages that answer them.
-/

set_option autoImplicit false

namespace FileExchange

namespace Sender

/-- Why a file cannot be sent: it must be a file, and its type must be told by its name. -/
def objection (t : Tree) (p : Path) : Except Failure (Option String) := do
  if !(← t.isFile p) then return some ("No such file: " ++ p.text)
  if (Media.typeOf? p).isNone then
    return some ("Invalid file format: " ++ p.name ++ " (content type cannot be determined)")
  return none

end Sender

namespace Shell

inductive Command where
  | blank
  | invalid (line : String)
  | upload (name : String)
  deriving Repr, DecidableEq

def verb : String := "upload"

/-- The verb may be written in any case. -/
def Command.ofLine (line : String) : Command :=
  match Text.words line.toList with
  | [] => .blank
  | [v, name] =>
    if String.ofList (Text.lower v) == verb then .upload (String.ofList name)
    else .invalid (String.ofList (Text.trim line.toList))
  | _ => .invalid (String.ofList (Text.trim line.toList))

def isQuit (line : String) : Bool :=
  let word := String.ofList (Text.lower (Text.trim line.toList))
  word == "quit" || word == "exit"

/-! ## Answers -/

/-- Whether an upload was started, and the message that was printed, if one was. -/
structure Answer where
  started : Bool
  message : Option String
  deriving Repr, DecidableEq

def outcomeMessage (name : String) : Except Failure Nat → String
  | .ok _ => "File " ++ name ++ " uploaded successfully."
  | .error e => "Error during file upload of " ++ name ++ ": " ++ e.message

def sendFile (c : ClientConfig) (p : Path) : Sending Answer := do
  match ← (fun w => (Sender.objection w.tree p, w) : Sending (Option String)) with
  | some reason => return ⟨false, some reason⟩
  | none => fun w =>
    let (result, w) := Sender.upload c p none w
    (.ok ⟨true, some (outcomeMessage p.name result)⟩, w)

/-- Carries out one line; file names are taken from the directory `base`. -/
def handle (c : ClientConfig) (base : Path) (line : String) : Sending Answer :=
  match Command.ofLine line with
  | .blank => return ⟨false, none⟩
  | .invalid line =>
    return ⟨false, some ("Invalid command: " ++ Quoted.quote line ++ " (expected: " ++ verb ++
      " <fileName>)")⟩
  | .upload name => sendFile c (base.join (Path.ofString name))

def printed (a : Answer) : String :=
  match a.message with
  | some m => m ++ "\n"
  | none => ""

/-! ## Running -/

/-- The lines of a text, each but the last with its line feed. -/
def linesOf (s : String) : List String :=
  (Text.splitText '\n' s).filter (· != "")

/-- Carries out lines up to one that quits; the result is all that was printed. -/
def runLines (c : ClientConfig) (base : Path) : List String → Sending String
  | [] => return ""
  | line :: rest => do
    if isQuit line then return ""
    let a ← handle c base line
    return printed a ++ (← runLines c base rest)

def run (c : ClientConfig) (base : Path) (input : String) : Sending String :=
  runLines c base (linesOf input)

end Shell

end FileExchange

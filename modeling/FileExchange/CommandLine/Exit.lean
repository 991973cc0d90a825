import FileExchange.CommandLine.Help
import FileExchange.CommandLine.Reading

/-!
# How a command ends

The code and the texts that a command leaves behind.
-/

set_option autoImplicit false

namespace FileExchange.CommandLine

/-- The code of a command, and whether its command line alone led to it. -/
inductive Status where
  | ran (code : Nat)
  | decidedAtOnce (code : Nat)
  deriving Repr, DecidableEq

def Status.code : Status → Nat
  | .ran code => code
  | .decidedAtOnce code => code

structure Exit where
  status : Status
  out : String := ""
  err : String := ""
  deriving Repr, DecidableEq

namespace Exit

variable {σ : Type}

/-- Settings that cannot be used are reported in one line. -/
def ofDefect (e : Failure) : Exit :=
  { status := .ran 2, err := "Error: " ++ e.message ++ "\n" }

def ofBadEnvironment (e : Failure) : Exit :=
  { status := .ran 2, err := "Error: invalid FILESHARE_* environment value: " ++ e.message ++ "\n" }

def ofMisuse (c : Command σ) (m : Misuse) : Exit :=
  { status := .decidedAtOnce 2, err := Help.misuse c m }

def ofVersion (c : Command σ) : Exit :=
  { status := .decidedAtOnce 0, out := c.version ++ "\n" }

def ofHelp (c : Command σ) : Except Failure Exit := do
  return { status := .decidedAtOnce 0, out := ← Help.text c }

end Exit

/-- The settings that a command is to run with, or how it ends without running. -/
def settingsOrExit {σ : Type} (c : Command σ) (settings : σ) (arguments : List String) :
    Except Failure (σ ⊕ Exit) :=
  match Reading.ofArguments c settings arguments with
  | .run settings => .ok (.inl settings)
  | .help => do return .inr (← Exit.ofHelp c)
  | .version => .ok (.inr (Exit.ofVersion c))
  | .misused m => .ok (.inr (Exit.ofMisuse c m))

def release : String := "fileshare 1.0.0"

def levelChoices : List String := ["DEBUG", "INFO", "WARNING", "ERROR"]

end FileExchange.CommandLine

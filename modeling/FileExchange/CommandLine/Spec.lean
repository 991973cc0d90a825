import FileExchange.Number.Decimal
import FileExchange.Text.Split

/-!
# Commands and their options

What a command line may hold: options with their flags, the settings they change, and files. `σ` is
the type of the settings.
-/

set_option autoImplicit false

namespace FileExchange.CommandLine

/-! ## Options -/

/-- What an option does: it shows something in place of running the command, or it takes a value of
some form and changes the settings. -/
inductive Effect (σ : Type) where
  | help
  | version
  | text (placeholder : String) (set : String → σ → σ)
  | integer (placeholder : String) (set : Int → σ → σ)
  | decimal (placeholder : String) (set : Binary64 → σ → σ)
  | choice (among : List String) (set : String → σ → σ)

def Effect.placeholder? {σ : Type} : Effect σ → Option String
  | .help => none
  | .version => none
  | .text p _ => some p
  | .integer p _ => some p
  | .decimal p _ => some p
  | .choice among _ => some ("\x7b" ++ Text.joinTexts "," among ++ "\x7d")

/-- An option. A flag is two hyphens and a word, or one hyphen and one character. -/
structure Choice (σ : Type) where
  flags : List String
  effect : Effect σ
  help : String

namespace Choice

variable {σ : Type}

def name (o : Choice σ) : String :=
  Text.joinTexts "/" o.flags

def takesValue (o : Choice σ) : Bool :=
  o.effect.placeholder?.isSome

end Choice

/-! ## Commands -/

structure Files (σ : Type) where
  placeholder : String
  help : String
  add : String → σ → σ

structure Command (σ : Type) where
  program : String
  version : String
  description : String
  options : List (Choice σ)
  files : Option (Files σ) := none
  remarks : String := ""

namespace Command

variable {σ : Type}

/-- Every flag with its option, in the order of the options. -/
def flags (c : Command σ) : List (String × Choice σ) :=
  c.options.flatMap fun o => o.flags.map (·, o)

def option? (c : Command σ) (flag : String) : Option (Choice σ) :=
  c.flags.lookup flag

end Command

/-! ## What can be wrong with a command line -/

inductive Misuse where
  | ambiguous (argument : String) (flags : List String)
  | missingValue (option : String)
  | needlessValue (option value : String)
  | notInteger (option value : String)
  | notDecimal (option value : String)
  | notAmong (option value : String) (among : List String)
  | unrecognized (arguments : List String)
  deriving Repr, DecidableEq

namespace Misuse

def about (option problem : String) : String :=
  "argument " ++ option ++ ": " ++ problem

def message : Misuse → String
  | .ambiguous argument flags =>
    "ambiguous option: " ++ argument ++ " could match " ++ Text.joinTexts ", " flags
  | .missingValue option => about option "expected one argument"
  | .needlessValue option value =>
    about option ("ignored explicit argument " ++ Quoted.quote value)
  | .notInteger option value => about option ("invalid int value: " ++ Quoted.quote value)
  | .notDecimal option value => about option ("invalid float value: " ++ Quoted.quote value)
  | .notAmong option value among =>
    about option ("invalid choice: " ++ Quoted.quote value ++ " (choose from " ++
      Text.joinTexts ", " (among.map Quoted.quote) ++ ")")
  | .unrecognized arguments => "unrecognized arguments: " ++ Text.joinTexts " " arguments

end Misuse

end FileExchange.CommandLine

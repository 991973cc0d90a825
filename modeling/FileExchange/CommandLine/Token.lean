import FileExchange.CommandLine.Spec

/-!
# Arguments by kind

Which arguments of a command line are flags, with a value attached or not, and which are plain.
-/

set_option autoImplicit false

namespace FileExchange.CommandLine

/-- A value in the same argument as the flag, behind an equals sign or directly behind a flag of one
character. -/
structure Attached where
  value : String
  behindEquals : Bool
  deriving Repr, DecidableEq

inductive Token (σ : Type) where
  | plain (text : String)
  /-- Two hyphens alone: everything behind them is plain. -/
  | separator
  | option (flag : String) (choice : Choice σ) (attached : Option Attached)
  | unknown (text : String)

namespace Token

variable {σ : Type}

/-! ## The forms of an argument -/

def isDigit (c : Char) : Bool :=
  (Text.digitValue? c).isSome

/-- Digits, or digits with a point in front of the last of them. -/
def isUnsignedNumber (s : List Char) : Bool :=
  match s.dropWhile isDigit with
  | [] => !s.isEmpty
  | '.' :: places => !places.isEmpty && places.all isDigit
  | _ => false

/-- A negative number is plain though it starts with a hyphen. -/
def isNegativeNumber (s : String) : Bool :=
  match s.toList with
  | '-' :: rest => isUnsignedNumber rest || (rest.getLast? == some '\n' && isUnsignedNumber rest.dropLast)
  | _ => false

/-- What stands in front of the first equals sign, and the value behind it. -/
def splitEquals (s : String) : String × Option Attached :=
  match s.toList.dropWhile (· != '=') with
  | [] => (s, none)
  | _ :: value => (String.ofList (s.toList.takeWhile (· != '=')), some ⟨String.ofList value, true⟩)

/-! ## Flags that an argument may mean -/

/-- A long flag may be cut short; a flag of one character may have its value attached. -/
def candidates (c : Command σ) (s : String) : List (String × Choice σ × Option Attached) :=
  if Text.startsWith "--" s then
    let (front, attached) := splitEquals s
    (c.flags.filter fun (flag, _) => Text.startsWith front flag).map fun (flag, o) => (flag, o, attached)
  else
    let flag := String.ofList (s.toList.take 2)
    let attached : Attached := ⟨String.ofList (s.toList.drop 2), false⟩
    (c.option? flag).toList.map fun o => (flag, o, some attached)

/-- An argument that starts with a hyphen and is no flag as it stands. -/
def ofHyphened (c : Command σ) (s : String) : Except Misuse (Token σ) :=
  match candidates c s with
  | [(flag, o, attached)] => .ok (.option flag o attached)
  | [] =>
    if isNegativeNumber s || s.toList.contains ' ' then .ok (.plain s) else .ok (.unknown s)
  | several => .error (.ambiguous s (several.map (·.1)))

/-- A flag, alone or with a value behind an equals sign, is taken before any shortened one. -/
def ofArgument (c : Command σ) (s : String) : Except Misuse (Token σ) :=
  if !Text.startsWith "-" s then .ok (.plain s)
  else
    match c.option? s with
    | some o => .ok (.option s o none)
    | none =>
      if s == "-" then .ok (.plain s)
      else
        match splitEquals s with
        | (flag, some attached) =>
          match c.option? flag with
          | some o => .ok (.option flag o (some attached))
          | none => ofHyphened c s
        | _ => ofHyphened c s

/-- All arguments are looked at before any takes effect. -/
def ofArguments (c : Command σ) : List String → Except Misuse (List (Token σ))
  | [] => .ok []
  | "--" :: rest => .ok (.separator :: rest.map .plain)
  | s :: rest => do return (← ofArgument c s) :: (← ofArguments c rest)

end Token

end FileExchange.CommandLine

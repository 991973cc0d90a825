import FileExchange.CommandLine.Spec
import FileExchange.CommandLine.Wrap
import FileExchange.Failure

/-!
# Help texts

How a command shows its usage, its options and what is wrong with a command line.
-/

set_option autoImplicit false

namespace FileExchange.CommandLine

namespace Help

variable {σ : Type}

def lineWidth : Nat := 78

def helpColumn : Nat := 24

def spaces (n : Nat) : String :=
  String.ofList (List.replicate n ' ')

def lines (ls : List String) : String :=
  String.join (ls.map (· ++ "\n"))

/-! ## Usage -/

/-- As many parts to a line as fit behind the indent. -/
def pack (indent : Nat) (line : String) : List String → List String
  | [] => [line]
  | part :: rest =>
    if lineWidth < line.length + 1 + part.length then
      line :: pack indent (spaces indent ++ part) rest
    else pack indent (line ++ " " ++ part) rest

def usagePart (o : Choice σ) : String :=
  match o.effect.placeholder? with
  | none => "[" ++ o.flags.headD "" ++ "]"
  | some p => "[" ++ o.flags.headD "" ++ " " ++ p ++ "]"

def usage (c : Command σ) : String :=
  let front := "usage: " ++ c.program
  let indent := front.length + 1
  let files := match c.files with
    | some f => [spaces indent ++ "[" ++ f.placeholder ++ " ...]"]
    | none => []
  lines (pack indent front (c.options.map usagePart) ++ files)

/-! ## Explanations -/

/-- In the help of an option a percent sign is written twice; a lone one is refused. -/
def expandPercent (position : Nat) : List Char → Except Failure (List Char)
  | [] => .ok []
  | '%' :: '%' :: rest => do return '%' :: (← expandPercent (position + 2) rest)
  | '%' :: c :: _ => .error (.strayPercent c (position + 1))
  | c :: rest => do return c :: (← expandPercent (position + 1) rest)

def invocation (o : Choice σ) : String :=
  match o.effect.placeholder? with
  | none => Text.joinTexts ", " o.flags
  | some p => Text.joinTexts ", " (o.flags.map (· ++ " " ++ p))

/-- A term and its explanation, beside it if the term is short and below it if not. -/
def explained (term help : String) : String :=
  let below (l : String) := spaces helpColumn ++ l
  let term := "  " ++ term
  let ls := Wrap.wrap (lineWidth - helpColumn) help
  if term.length + 2 ≤ helpColumn then
    match ls with
    | [] => lines [term]
    | first :: rest => lines ((term ++ spaces (helpColumn - term.length) ++ first) :: rest.map below)
  else lines (term :: ls.map below)

def explainOption (o : Choice σ) : Except Failure String := do
  return explained (invocation o) (String.ofList (← expandPercent 0 o.help.toList))

/-! ## The whole help text -/

def text (c : Command σ) : Except Failure String := do
  let options ← c.options.mapM explainOption
  let files := match c.files with
    | some f => "positional arguments:\n" ++ explained f.placeholder f.help ++ "\n"
    | none => ""
  let remarks := if c.remarks == "" then "" else "\n" ++ c.remarks ++ "\n"
  return usage c ++ "\n" ++ c.description ++ "\n\n" ++ files ++ "options:\n" ++
    String.join options ++ remarks

def misuse (c : Command σ) (m : Misuse) : String :=
  usage c ++ c.program ++ ": error: " ++ m.message ++ "\n"

end Help

end FileExchange.CommandLine

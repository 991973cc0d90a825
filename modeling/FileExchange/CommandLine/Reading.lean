import FileExchange.CommandLine.Token

/-!
# Reading a command line

The arguments take effect one after another, up to the first that ends the reading.
-/

set_option autoImplicit false

namespace FileExchange.CommandLine

inductive Reading (σ : Type) where
  | run (settings : σ)
  | help
  | version
  | misused (m : Misuse)

namespace Reading

variable {σ : Type}

/-! ## Values -/

def setValue (o : Choice σ) (value : String) (s : σ) : Except Misuse σ :=
  match o.effect with
  | .help => .ok s
  | .version => .ok s
  | .text _ set => .ok (set value s)
  | .integer _ set =>
    match Number.readInteger value with
    | .ok n => .ok (set n s)
    | .error _ => .error (.notInteger o.name value)
  | .decimal _ set =>
    match Number.readDecimal value with
    | .ok x => .ok (set x s)
    | .error _ => .error (.notDecimal o.name value)
  | .choice among set =>
    if among.contains value then .ok (set value s) else .error (.notAmong o.name value among)

/-! ## Options without a value -/

/-- What is wrong with the text attached to a short flag that takes no value. It is read as further
short flags up to one that takes a value. `valueFollows` tells whether the next argument is plain. -/
def clusterMisuse (c : Command σ) (valueFollows : Bool) (o : Choice σ) (behindEquals : Bool) :
    List Char → Option Misuse
  | [] => some (.needlessValue o.name "")
  | flag :: rest =>
    if behindEquals || flag == '-' then some (.needlessValue o.name (String.ofList (flag :: rest)))
    else
      match c.option? (String.ofList ['-', flag]) with
      | none => none
      | some o' =>
        if o'.takesValue then
          if rest.isEmpty && !valueFollows then some (.missingValue o'.name) else none
        else
          match rest with
          | [] => none
          | '=' :: more => clusterMisuse c valueFollows o' true more
          | next :: more => clusterMisuse c valueFollows o' false (next :: more)

def attachedMisuse (c : Command σ) (valueFollows : Bool) (flag : String) (o : Choice σ)
    (a : Attached) : Option Misuse :=
  if Text.startsWith "--" flag then some (.needlessValue o.name a.value)
  else clusterMisuse c valueFollows o a.behindEquals a.value.toList

def shown (o : Choice σ) : Reading σ :=
  match o.effect with
  | .version => .version
  | _ => .help

/-! ## One argument after another -/

/-- How far the files are. Only the first group of plain arguments holds files. -/
inductive Group where
  | ahead
  | inside
  | over
  deriving Repr, DecidableEq

def Group.pass : Group → Group
  | .ahead => .ahead
  | _ => .over

/-- What has been read: the settings, the files, and the arguments that have no meaning, last one
first. -/
structure Progress (σ : Type) where
  settings : σ
  group : Group := .ahead
  unread : List String := []

def addPlain (c : Command σ) (text : String) (p : Progress σ) : Progress σ :=
  match c.files with
  | some f =>
    if p.group == .over then { p with unread := text :: p.unread }
    else { p with settings := f.add text p.settings, group := .inside }
  | none => { p with unread := text :: p.unread }

/-- Where files are taken the separator has done its work; elsewhere it is one more argument. -/
def addSeparator (c : Command σ) (p : Progress σ) : Progress σ :=
  if c.files.isSome && p.group != .over then { p with group := .inside }
  else { p with unread := "--" :: p.unread }

def finish (p : Progress σ) : Reading σ :=
  if p.unread.isEmpty then .run p.settings else .misused (.unrecognized p.unread.reverse)

def isPlain : List (Token σ) → Bool
  | .plain _ :: _ => true
  | _ => false

/-- An option takes its value; files after it belong to no group. -/
def addValue (o : Choice σ) (value : String) (p : Progress σ) : Except Misuse (Progress σ) := do
  return { p with settings := ← setValue o value p.settings, group := p.group.pass }

def readTokens (c : Command σ) (p : Progress σ) : List (Token σ) → Reading σ
  | [] => finish p
  | .plain text :: rest => readTokens c (addPlain c text p) rest
  | .separator :: rest => readTokens c (addSeparator c p) rest
  | .unknown text :: rest =>
    readTokens c { p with unread := text :: p.unread, group := p.group.pass } rest
  | .option flag o (some a) :: rest =>
    if o.takesValue then
      match addValue o a.value p with
      | .ok p => readTokens c p rest
      | .error m => .misused m
    else
      match attachedMisuse c (isPlain rest) flag o a with
      | some m => .misused m
      | none => shown o
  | .option _ o none :: rest =>
    if o.takesValue then
      match rest with
      | .plain value :: rest =>
        match addValue o value p with
        | .ok p => readTokens c p rest
        | .error m => .misused m
      | _ => .misused (.missingValue o.name)
    else shown o

/-- Reads the arguments of a command, with the settings that hold unless they are changed. -/
def ofArguments (c : Command σ) (settings : σ) (arguments : List String) : Reading σ :=
  match Token.ofArguments c arguments with
  | .ok tokens => readTokens c { settings } tokens
  | .error m => .misused m

end Reading

end FileExchange.CommandLine

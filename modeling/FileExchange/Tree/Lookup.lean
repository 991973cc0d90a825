import FileExchange.Failure
import FileExchange.Tree.Basic

/-!
# Looking up paths

Where the operating system ends up when it follows a path name by name, through links, and which
error it reports where it cannot.
-/

set_option autoImplicit false

namespace FileExchange.Tree

/-! ## Limits -/

/-- A name has at most this many bytes. -/
def nameLimit : Nat := 255

/-- A path has at most this many bytes. -/
def pathLimit : Nat := 4095

/-- One lookup follows at most this many links. -/
def linkLimit : Nat := 40

def isNameTooLong (name : String) : Bool :=
  nameLimit < name.utf8ByteSize

def isPathTooLong (text : String) : Bool :=
  pathLimit < text.utf8ByteSize

/-! ## Links -/

def isAbsoluteText (target : String) : Bool :=
  target.toList.head? == some '/'

/-- The names in a link's text. A slash at the end asks for a directory, as a final dot does. -/
def linkNames (target : String) : List String :=
  let names := (Text.splitText '/' target).filter (· != "")
  if target.toList.getLast? == some '/' then names ++ ["."] else names

def linkStart (here : Location) (target : String) : Location :=
  if isAbsoluteText target then [] else here

/-! ## Walking -/

structure Place where
  location : Location
  node : Option Node
  deriving Repr, DecidableEq

/-- Follows names from a directory. A link at the end is followed only if `through` holds. Where a link
is followed `jump` goes on, from the directory at which the link's text starts and with the names in
that text in front of the names that are left. -/
def walkOn (t : Tree) (through : Bool) (jump : Location → List String → Except Errno Place)
    (here : Location) : List String → Except Errno Place
  | [] => .ok ⟨here, some .directory⟩
  | name :: rest =>
    if name == "." then walkOn t through jump here rest
    else if name == ".." then walkOn t through jump here.dropLast rest
    else if isNameTooLong name then .error .nameTooLong
    else
      let next := here ++ [name]
      match t.node? next with
      | none => if rest.isEmpty then .ok ⟨next, none⟩ else .error .noEntry
      | some .directory => walkOn t through jump next rest
      | some (.file id) => if rest.isEmpty then .ok ⟨next, some (.file id)⟩ else .error .notDirectory
      | some (.link target) =>
        if rest.isEmpty && !through then .ok ⟨next, some (.link target)⟩
        else jump (linkStart here target) (linkNames target ++ rest)

/-- Follows names from a directory, and at most so many links on the way. -/
def walk (t : Tree) (through : Bool) : Nat → Location → List String → Except Errno Place
  | 0 => walkOn t through fun _ _ => .error .tooManyLinks
  | links + 1 => walkOn t through (walk t through links)

/-- Where the names of a path start. -/
def start (t : Tree) (p : Path) : Location :=
  if p.isAbsolute then [] else t.workingDirectory

def hasNul (text : String) : Bool :=
  text.toList.contains '\x00'

def failWith {α : Type} (errno : Errno) (p : Path) : Except Failure α :=
  .error (.system (.coded errno [p.text]))

/-- The place of a path, with the errors of the call that was given the path. -/
def locate (t : Tree) (through : Bool) (p : Path) : Except Failure Place :=
  if hasNul p.text then .error .embeddedNul
  else if isPathTooLong p.text then failWith .nameTooLong p
  else
    match walk t through linkLimit (t.start p) p.names with
    | .ok place => .ok place
    | .error errno => failWith errno p

/-- What a path leads to, all links followed. -/
def stat (t : Tree) (p : Path) : Except Failure Node :=
  match t.locate true p with
  | .ok ⟨_, some n⟩ => .ok n
  | .ok ⟨_, none⟩ => failWith .noEntry p
  | .error e => .error e

/-! ## Questions about a path -/

/-- The faults that mean there is nothing at a path; any other keeps the question open. -/
def meansAbsent : Failure → Bool
  | .embeddedNul => true
  | .system (.coded errno _) =>
    errno == .noEntry || errno == .notDirectory || errno == .badDescriptor || errno == .tooManyLinks
  | _ => false

def answers (found : Node → Bool) : Except Failure Node → Except Failure Bool
  | .ok n => .ok (found n)
  | .error e => if meansAbsent e then .ok false else .error e

def pathExists (t : Tree) (p : Path) : Except Failure Bool :=
  answers (fun _ => true) (t.stat p)

def isDirectory (t : Tree) (p : Path) : Except Failure Bool :=
  answers (· == .directory) (t.stat p)

def isFile (t : Tree) (p : Path) : Except Failure Bool :=
  answers (fun n => match n with | .file _ => true | _ => false) (t.stat p)

/-! ## Opening -/

def openFile (t : Tree) (p : Path) : Except Failure FileId :=
  match t.stat p with
  | .ok (.file id) => .ok id
  | .ok _ => failWith .isDirectory p
  | .error e => .error e

/-- The names in a directory, in increasing order. -/
def listDirectory (t : Tree) (p : Path) : Except Failure (List String) :=
  match t.locate true p with
  | .ok ⟨l, some .directory⟩ => .ok ((t.children l).mergeSort fun a b => decide (a ≤ b))
  | .ok ⟨_, some _⟩ => failWith .notDirectory p
  | .ok ⟨_, none⟩ => failWith .noEntry p
  | .error e => .error e

end FileExchange.Tree

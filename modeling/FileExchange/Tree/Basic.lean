import FileExchange.Text.Utf8
import FileExchange.Path

/-!
# File trees

Directories, files and symbolic links, each at the place that the names from the root down to it
give. The bytes of files are kept apart from the places, so that a file that is open can still be
read when its name is gone.
-/

set_option autoImplicit false

namespace FileExchange

/-- The names from the root directory down; the root itself has none. -/
abbrev Location := List String

namespace Location

def path (l : Location) : Path := ⟨.root, l⟩

def text (l : Location) : String := l.path.text

end Location

/-- Which bytes a file has: a place in the store of contents. -/
abbrev FileId := Nat

inductive Node where
  | directory
  | file (id : FileId)
  | link (target : String)
  deriving Repr, DecidableEq

/-- The working directory is where relative paths start. -/
structure Tree where
  nodes : List (Location × Node) := []
  contents : Array Bytes := #[]
  workingDirectory : Location := []
  deriving Repr, DecidableEq

namespace Tree

/-! ## Looking -/

/-- What is at a place, links not followed. The root is always a directory. -/
def node? (t : Tree) (l : Location) : Option Node :=
  if l.isEmpty then some .directory else t.nodes.lookup l

def content (t : Tree) (id : FileId) : Bytes :=
  t.contents.getD id []

/-- The name of a place if it is a child of a directory. -/
def childName? (directory : Location) (l : Location) : Option String :=
  match l.getLast? with
  | some name => if l.dropLast == directory then some name else none
  | none => none

def children (t : Tree) (directory : Location) : List String :=
  t.nodes.filterMap fun (l, _) => childName? directory l

def linkCount (t : Tree) : Nat :=
  t.nodes.countP fun (_, n) => match n with
    | .link _ => true
    | _ => false

/-! ## Changing -/

def drop (t : Tree) (l : Location) : Tree :=
  { t with nodes := t.nodes.filter fun (k, _) => !l.isPrefixOf k }

def put (t : Tree) (l : Location) (n : Node) : Tree :=
  { t with nodes := (l, n) :: t.nodes.filter fun (k, _) => k != l }

/-- A new file with no name yet. -/
def addContent (t : Tree) (bytes : Bytes) : FileId × Tree :=
  (t.contents.size, { t with contents := t.contents.push bytes })

def setContent (t : Tree) (id : FileId) (bytes : Bytes) : Tree :=
  { t with contents := t.contents.setIfInBounds id bytes }

end Tree

end FileExchange

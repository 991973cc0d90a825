import FileExchange.Text.Split

/-!
# Written paths

A path as it is written: where it starts and the names on the way. Empty names and `.` disappear
when a path is read, `..` stays, since what it means depends on the links of a file tree.
-/

set_option autoImplicit false

namespace FileExchange

/-- Where a written path starts. Exactly two slashes at the front are a start of their own. -/
inductive Anchor where
  | relative
  | root
  | doubleRoot
  deriving Repr, DecidableEq

structure Path where
  anchor : Anchor
  names : List String
  deriving Repr, DecidableEq

namespace Path

def anchorText : Anchor → String
  | .relative => ""
  | .root => "/"
  | .doubleRoot => "//"

def anchorOf (s : List Char) : Anchor :=
  match (s.takeWhile (· == '/')).length with
  | 0 => .relative
  | 2 => .doubleRoot
  | _ => .root

/-- The names that a text puts between slashes, without the empty ones and `.`. -/
def namesOf (s : String) : List String :=
  (Text.splitText '/' s).filter fun n => n != "" && n != "."

def ofString (s : String) : Path :=
  ⟨anchorOf s.toList, namesOf s⟩

/-- The empty path is written as a dot. -/
def text (p : Path) : String :=
  match p.anchor, p.names with
  | .relative, [] => "."
  | anchor, names => anchorText anchor ++ Text.joinTexts "/" names

def isAbsolute (p : Path) : Bool :=
  p.anchor != .relative

/-- The second path as seen from the first; an absolute one stands for itself. -/
def join (p q : Path) : Path :=
  if q.isAbsolute then q else ⟨p.anchor, p.names ++ q.names⟩

/-- The last name, empty where there is none. -/
def name (p : Path) : String :=
  p.names.getLastD ""

def parent (p : Path) : Path :=
  ⟨p.anchor, p.names.dropLast⟩

/-- The part of the last name from its last dot on, unless that dot is at an end of the name. -/
def suffixOf (name : String) : List Char :=
  let back := name.toList.reverse
  let tail := back.takeWhile (· != '.')
  match back.drop tail.length with
  | '.' :: _ :: _ => if tail.isEmpty then [] else '.' :: tail.reverse
  | _ => []

def suffix (p : Path) : List Char :=
  suffixOf p.name

end Path

end FileExchange

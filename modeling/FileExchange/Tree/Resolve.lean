import FileExchange.Tree.Lookup

/-!
# Real paths

The path with every link replaced by what it leads to. Names that lead nowhere stay as they are, so
that also a path to something absent has a real path; only links that lead back to themselves have
none. A name with a NUL is at fault where it is looked at, and behind a loop no name is.
-/

set_option autoImplicit false

namespace FileExchange.Tree

/-! ## Textual paths -/

/-- A path text followed by another; an absolute second text stands alone. -/
def joinTextually (front : String) (rest : List String) : String :=
  let tail := Text.joinTexts "/" rest
  if isAbsoluteText tail then tail
  else if front.toList.getLast? == some '/' then front ++ tail
  else front ++ "/" ++ tail

/-- A name that follows others; `..` takes the last of them away. -/
def pushName (names : List String) (name : String) : List String :=
  if name == ".." then names.dropLast else names ++ [name]

/-- Applies every `..` of an absolute path to the names before it. -/
def collapse (p : Path) : Path :=
  { p with names := p.names.foldl pushName [] }

/-! ## Following links -/

inductive Resolution where
  | reached (location : Location)
  /-- A link leads back to itself; the text keeps that link and all that follows it. -/
  | looped (text : String)
  /-- A name to look at has a NUL. -/
  | refused
  deriving Repr, DecidableEq

/-- The text of the link at a place, unless the place is too long to be looked at. -/
def linkAt? (t : Tree) (l : Location) : Option String :=
  match t.node? l with
  | some (.link target) => if isPathTooLong l.text then none else some target
  | _ => none

/-- Follows names from a place. What a link leads to `enter` tells, given the place of the link, the
place where the link's text starts and the names in it. -/
def followOn (t : Tree) (enter : Location → Location → List String → Resolution) (here : Location) :
    List String → Resolution
  | [] => .reached here
  | name :: rest =>
    if name == "" || name == "." then followOn t enter here rest
    else if name == ".." then followOn t enter here.dropLast rest
    else if hasNul name then .refused
    else
      let next := here ++ [name]
      match t.linkAt? next with
      | none => followOn t enter next rest
      | some target =>
        match enter next (linkStart here target) (Text.splitText '/' target) with
        | .looped text => .looped (joinTextually text rest)
        | .refused => .refused
        | .reached l => followOn t enter l rest

/-- Follows names from a place. `active` holds the links being followed, and `depth` bounds how many
more of them there can be. -/
def follow (t : Tree) : Nat → List Location → Location → List String → Resolution
  | 0, _ => followOn t fun link _ _ => .looped link.text
  | depth + 1, active => followOn t fun link start names =>
    if active.contains link then .looped link.text else follow t depth (link :: active) start names

/-- The path that following the links of a path gives, loops kept. -/
def realPath (t : Tree) (p : Path) : Except Failure Path :=
  match follow t (t.linkCount + 1) [] (t.start p) p.names with
  | .reached l => .ok l.path
  | .looped text => .ok (collapse (Path.ofString text))
  | .refused => .error .embeddedNul

/-- A real path, if looking it up meets no loop of links. -/
def confirm (real : Path) (found : Except Failure Node) : Except Failure Path :=
  match found with
  | .error (.system (.coded .tooManyLinks _)) => .error (.linkLoop real.text)
  | .error .embeddedNul => .error .embeddedNul
  | _ => .ok real

/-- The real path of a path. A loop of links is an error where looking the path up meets it. -/
def resolve (t : Tree) (p : Path) : Except Failure Path :=
  match t.realPath p with
  | .ok real => confirm real (t.stat real)
  | .error e => .error e

end FileExchange.Tree

import FileExchange.Tree.Lookup

/-!
# Changing a tree

Creating directories, temporary files and links, renaming and removing, with the errors that the
operating system reports.
-/

set_option autoImplicit false

namespace FileExchange.Tree

/-! ## Directories -/

def makeDirectory (t : Tree) (p : Path) : Except Failure Tree :=
  match t.locate false p with
  | .ok ⟨l, none⟩ => .ok (t.put l .directory)
  | .ok ⟨_, some _⟩ => failWith .alreadyExists p
  | .error e => .error e

/-- Making a directory that exists already is no error. -/
def acceptExisting (t : Tree) (p : Path) (e : Failure) : Except Failure Tree :=
  match t.isDirectory p with
  | .ok true => .ok t
  | .ok false => .error e
  | .error e' => .error e'

def isMissing : Failure → Bool
  | .system (.coded .noEntry _) => true
  | _ => false

/-- Makes one directory whose parent exists, or accepts it as it is. -/
def ensureDirectory (t : Tree) (p : Path) : Except Failure Tree :=
  match t.makeDirectory p with
  | .ok t => .ok t
  | .error e => if isMissing e || !e.isSystem then .error e else acceptExisting t p e

/-- A tree beside the outcome of a change to it. -/
def settle (t : Tree) : Except Failure Tree → Except Failure Unit × Tree
  | .ok changed => (.ok (), changed)
  | .error e => (.error e, t)

/-- Makes a directory and the parents that are missing; `depth` is how many parents there are. Parents
that were made stay also where the directory itself cannot be made. -/
def ensureWithParents (t : Tree) (p : Path) : Nat → Except Failure Unit × Tree
  | 0 => settle t (t.ensureDirectory p)
  | depth + 1 =>
    match t.makeDirectory p with
    | .ok t => (.ok (), t)
    | .error e =>
      if isMissing e then
        match t.ensureWithParents p.parent depth with
        | (.ok (), t) => settle t (t.ensureDirectory p)
        | (.error e, t) => (.error e, t)
      else if e.isSystem then settle t (t.acceptExisting p e)
      else (.error e, t)

def ensureDirectories (t : Tree) (p : Path) : Except Failure Unit × Tree :=
  t.ensureWithParents p p.names.length

/-! ## Files -/

/-- Writes a file, through links, in place if it exists. -/
def writeFile (t : Tree) (p : Path) (bytes : Bytes) : Except Failure Tree :=
  match t.locate true p with
  | .ok ⟨_, some (.file id)⟩ => .ok (t.setContent id bytes)
  | .ok ⟨_, some _⟩ => failWith .isDirectory p
  | .ok ⟨l, none⟩ =>
    let (id, t) := t.addContent bytes
    .ok (t.put l (.file id))
  | .error e => .error e

def createFile (t : Tree) (p : Path) : Except Failure (FileId × Tree) :=
  match t.locate false p with
  | .ok ⟨l, none⟩ =>
    let (id, t) := t.addContent []
    .ok (id, t.put l (.file id))
  | .ok ⟨_, some _⟩ => failWith .alreadyExists p
  | .error e => .error e

def makeLink (t : Tree) (p : Path) (target : String) : Except Failure Tree :=
  match t.locate false p with
  | .ok ⟨l, none⟩ => .ok (t.put l (.link target))
  | .ok ⟨_, some _⟩ => failWith .alreadyExists p
  | .error e => .error e

/-- Gives a file a new place; what was there before, unless a directory, is gone. -/
def rename (t : Tree) (source target : Path) : Except Failure Tree :=
  let failed (errno : Errno) : Except Failure Tree :=
    .error (.system (.coded errno [source.text, target.text]))
  match t.locate false source, t.locate false target with
  | .ok ⟨from', some n⟩, .ok ⟨to', old⟩ =>
    if old == some .directory then failed .isDirectory
    else .ok ((t.drop from').put to' n)
  | .ok ⟨_, none⟩, _ => failed .noEntry
  | .error (.system (.coded errno _)), _ => failed errno
  | _, .error (.system (.coded errno _)) => failed errno
  | .error e, _ => .error e
  | _, .error e => .error e

def remove (t : Tree) (p : Path) : Except Failure Tree :=
  match t.locate false p with
  | .ok ⟨l, some _⟩ => .ok (t.drop l)
  | .ok ⟨_, none⟩ => failWith .noEntry p
  | .error e => .error e

/-! ## Changes by others -/

/-- One change that somebody else makes to the tree; missing parents are made with it. -/
inductive Edit where
  | directory (path : Path)
  | file (path : Path) (bytes : Bytes)
  | link (path : Path) (target : String)
  | remove (path : Path)
  deriving Repr, DecidableEq

def Edit.size : Edit → Nat
  | .file _ bytes => bytes.length
  | _ => 0

/-- A file or link that cannot be made is not there afterwards. -/
def apply (t : Tree) : Edit → Tree
  | .directory p => (t.ensureDirectories p).2
  | .file p bytes =>
    let t := (t.ensureDirectories p.parent).2
    (t.writeFile p bytes).toOption.getD t
  | .link p target =>
    let t := (t.ensureDirectories p.parent).2
    (t.makeLink p target).toOption.getD t
  | .remove p => (t.remove p).toOption.getD t

def applyAll (t : Tree) (edits : List Edit) : Tree :=
  edits.foldl apply t

end FileExchange.Tree

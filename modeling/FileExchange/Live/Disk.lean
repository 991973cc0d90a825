import FileExchange.Tree.Snapshot

/-!
# The disk

Directories of the disk as trees, and what became of a tree written back to the disk.
-/

set_option autoImplicit false

namespace FileExchange.Disk

/-! ## Reading -/

def locationOf (text : String) : Location :=
  Path.namesOf text

/-- The places above one, nearest last, without the root. -/
def above (l : Location) : List Location :=
  (List.range l.length).filterMap fun n => if n == 0 then none else some (l.take n)

def putDirectories (t : Tree) (l : Location) : Tree :=
  (above l ++ [l]).foldl (fun t k => t.put k .directory) t

def putFile (t : Tree) (l : Location) (bytes : Bytes) : Tree :=
  let (id, t) := t.addContent bytes
  t.put l (.file id)

/-- The real path of something that exists. -/
def realText? (text : String) : IO (Option String) := do
  try
    return some (← IO.FS.realPath text).toString
  catch _ => return none

/-- Adds one entry of a directory. One that stands for another place is a link; one that leads
nowhere is left out. -/
def addEntry (add : Tree → Location → IO Tree) (t : Tree) (l : Location) : IO Tree := do
  match ← realText? l.text with
  | none => return t
  | some real =>
    if real != l.text then return t.put l (.link real)
    if ← (← IO.FS.realPath l.text).isDir then add (t.put l .directory) l
    else return putFile t l (← IO.FS.readBinFile l.text).toList

partial def addBelow (t : Tree) (l : Location) : IO Tree := do
  let entries ← (← IO.FS.realPath l.text).readDir
  entries.foldlM (fun t e => addEntry addBelow t (l ++ [e.fileName])) t

def addPlace (t : Tree) (text : String) : IO Tree := do
  match ← realText? text with
  | none => return t
  | some real =>
    let l := locationOf real
    let t := putDirectories t l.dropLast
    if ← (← IO.FS.realPath text).isDir then addBelow (putDirectories t l) l
    else return putFile t l (← IO.FS.readBinFile text).toList

/-- The tree of some places, seen from the working directory. -/
def load (places : List String) : IO Tree := do
  let here := locationOf (← IO.currentDir).toString
  places.foldlM addPlace (putDirectories { workingDirectory := here } here)

/-! ## Writing -/

def snapshot (t : Tree) : List Snapshot.Item :=
  Snapshot.take t []

/-- A file gets its bytes before it gets its name. -/
def writeItem (i : Snapshot.Item) : IO Unit := do
  let path := "/" ++ i.path
  match i.what with
  | .directory => IO.FS.createDirAll path
  | .file bytes =>
    let part := path ++ ".new"
    IO.FS.writeBinFile part ⟨bytes.toArray⟩
    IO.FS.rename part path
  | .link _ => return

/-- Does to the disk what was done to a tree of it. -/
def store (before after : Tree) : IO Unit := do
  match Snapshot.difference (snapshot before) (snapshot after) with
  | none => return
  | some d =>
    d.now.forM writeItem
    d.gone.forM fun i => do
      if !d.now.any (·.path == i.path) then IO.FS.removeFile ("/" ++ i.path)

end FileExchange.Disk

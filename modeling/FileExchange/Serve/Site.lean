import FileExchange.Config.ServerConfig
import FileExchange.Serve.Directory

/-!
# Sites

What the server serves, and how it sees the file tree: the system may refuse to look at a path, to
list it or to open it, whatever the tree holds there.
-/

set_option autoImplicit false

namespace FileExchange

/-- What the server wants with a path: to look at the path itself, to look at what it leads to, to
list a directory, or to open a file. -/
inductive Access where
  | look
  | stat
  | list
  | read
  deriving Repr, DecidableEq

structure Denial where
  access : Access
  path : Path
  errno : Errno
  deriving Repr, DecidableEq

structure Site where
  root : Path
  uploads : Path
  files : FileService := {}
  logFormat : String := "text"
  /-- What the system refuses to those who ask for something. -/
  denials : List Denial := []
  deriving Repr, DecidableEq

namespace Site

def ofConfig (c : ServerConfig) (t : Tree) : Except Failure Site := do
  let root ← c.rootPath t
  ServerConfig.require (1 ≤ c.chunkSize) (.tooSmall "chunk_size")
  let uploads ← c.uploadPath t
  return { root, uploads, logFormat := c.logFormat,
           files := { chunkSize := c.chunkSize.toNat, serverName := c.serverName } }

/-! ## Seeing the tree -/

/-- The system is not asked about a path with a NUL. -/
def refusal? (s : Site) (access : Access) (p : Path) : Option Errno :=
  if Tree.hasNul p.text then none
  else (s.denials.find? fun d => d.access == access && d.path == p).map (·.errno)

/-- The answer to a call, unless the system refuses the call. -/
def allow {α : Type} (s : Site) (access : Access) (p : Path) (answer : Except Failure α) :
    Except Failure α :=
  match s.refusal? access p with
  | some errno => Tree.failWith errno p
  | none => answer

def stat (s : Site) (t : Tree) (p : Path) : Except Failure Node :=
  s.allow .stat p (t.stat p)

def pathExists (s : Site) (t : Tree) (p : Path) : Except Failure Bool :=
  Tree.answers (fun _ => true) (s.stat t p)

def isDirectory (s : Site) (t : Tree) (p : Path) : Except Failure Bool :=
  Tree.answers (· == .directory) (s.stat t p)

def entries (s : Site) (t : Tree) (p : Path) (requestPath : String) : Except Failure (List Entry) :=
  s.allow .list p (Directory.entriesBy (s.isDirectory t) t p requestPath)

/-- The tree as far as it can be looked at. What cannot be looked at is not taken for a link. -/
def seen (s : Site) (t : Tree) : Tree :=
  { t with nodes := t.nodes.map fun (l, n) =>
      (l, if (s.refusal? .look l.path).isSome then .directory else n) }

/-- The real path of a path, as far as its links can be looked at. -/
def realPath (s : Site) (t : Tree) (p : Path) : Except Failure Path :=
  match (s.seen t).realPath p with
  | .ok real => Tree.confirm real (s.stat t real)
  | .error e => .error e

end Site

end FileExchange

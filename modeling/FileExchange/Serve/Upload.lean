import FileExchange.Serve.Exchange
import FileExchange.Tree.Resolve

/-!
# Uploads

Storing what follows the request line. The bytes go to a temporary file that gets the final name
only when the stream has ended, so that a file under a final name is always complete.
-/

set_option autoImplicit false

namespace FileExchange

structure UploadTarget where
  name : String
  directory : Path
  deriving Repr, DecidableEq

def UploadTarget.path (u : UploadTarget) : Path :=
  u.directory.join (Path.ofString u.name)

namespace Upload

open Serving

/-! ## Names -/

def isControl (c : Char) : Bool :=
  c.toNat < 0x20 || c.toNat == 0x7F

/-- Why a name is refused, as far as its characters tell. -/
def refusalOf (name : String) : Option Refusal :=
  if name == "" || name == "." || name == ".." then some (.invalid name)
  else if name.toList.any fun c => c == '/' || c == '\\' then some (.hasSeparator name)
  else if name.toList.any isControl then some (.hasControl name)
  else none

/-- A name is accepted if it leads to a child of the upload directory itself. -/
def target (t : Tree) (directory : Path) (name : String) : Except Failure UploadTarget := do
  match refusalOf name with
  | some refusal => throw (.refused refusal)
  | none =>
    let directory ← t.resolve directory
    let real ← t.resolve (directory.join (Path.ofString name))
    if real.parent != directory then throw (.refused (.escapes name))
    return ⟨name, directory⟩

/-! ## Receiving -/

def makeDirectories (p : Path) : Serving Unit :=
  fun s =>
    let (result, tree) := s.tree.ensureDirectories p
    (result, { s with tree })

def createPart (u : UploadTarget) : Serving World.PartFile :=
  fun s =>
    let (result, w) := s.toWorld.createPart u.directory u.name World.tokenTries
    (result, { s with toWorld := w })

/-- Keeps all that arrives in the temporary file, also when the stream fails. -/
def fill (part : World.PartFile) (chunkSize : Nat) : Serving Nat :=
  fun s =>
    let (body, connection) := s.connection.takeBody chunkSize
    let s := { s with connection, tree := s.tree.setContent part.id body.bytes }
    match body.fault with
    | some fault => (.error (.system fault), s)
    | none => (.ok body.bytes.length, s)

def publish (part : World.PartFile) (u : UploadTarget) : Serving Unit :=
  fun s =>
    match s.tree.rename part.path u.path with
    | .ok tree => (.ok (), { s with tree })
    | .error e => (.error e, s)

/-- Stores the rest of the stream under a name; the number of bytes is the result. -/
def receive (directory : Path) (chunkSize : Nat) (name : String) : Serving Nat := do
  let u ← ask fun s => target s.tree directory name
  makeDirectories u.directory
  let part ← createPart u
  let received ← fill part chunkSize
  publish part u
  report .info .upload ("File " ++ u.name ++ " uploaded successfully (" ++ toString received ++
    " bytes)")
  return received

end Upload

end FileExchange

import FileExchange.Http.Listing
import FileExchange.Serve.File

/-!
# Serving directories

The children of a directory are read before anything is sent, and shown in the order of their names.
-/

set_option autoImplicit false

namespace FileExchange.Directory

open Serving

/-- The entry of one child; whether it is a directory is asked through links. -/
def entryBy (isDirectory : Path → Except Failure Bool) (p : Path) (requestPath name : String) :
    Except Failure Entry := do
  let isDirectory ← isDirectory (p.join ⟨.relative, [name]⟩)
  return ⟨name, Listing.hrefOf requestPath name, isDirectory⟩

def entriesBy (isDirectory : Path → Except Failure Bool) (t : Tree) (p : Path) (requestPath : String) :
    Except Failure (List Entry) := do
  (← t.listDirectory p).mapM (entryBy isDirectory p requestPath)

def respondWith (entries : Tree → Except Failure (List Entry)) : Serving Unit := do
  let entries ← ask fun s => entries s.tree
  FileService.sendHead (Response.htmlHead .ok)
  send (Utf8.encode (Listing.page entries))

/-! ## Where the system refuses nothing -/

def entryOf (t : Tree) (p : Path) (requestPath name : String) : Except Failure Entry :=
  entryBy t.isDirectory p requestPath name

def entries (t : Tree) (p : Path) (requestPath : String) : Except Failure (List Entry) :=
  entriesBy t.isDirectory t p requestPath

def respond (p : Path) (requestPath : String) : Serving Unit :=
  respondWith fun t => entries t p requestPath

end FileExchange.Directory

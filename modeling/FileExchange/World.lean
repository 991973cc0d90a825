import FileExchange.Journal
import FileExchange.Number.Binary64
import FileExchange.Time.HttpDate
import FileExchange.Tree.Change

/-!
# The world around the program

The file tree, the clock, the source of random names and the journal: everything outside a
connection that serving one can look at or change.
-/

set_option autoImplicit false

namespace FileExchange

/-- What the clock shows: the second of universal time for response heads, and for access records
the local time stamp and the time that a request took. `joinMs` is how many milliseconds go by while
a handler that does not end is waited for; where it is absent every handler ends. -/
structure Clock where
  now : Instant
  stamp : String
  elapsedMs : Binary64 := Binary64.zero false
  joinMs : Option Nat := none
  deriving Repr, DecidableEq

structure World where
  tree : Tree
  clock : Clock
  /-- Random names in the order in which they come. -/
  tokens : Nat → String
  drawn : Nat := 0
  /-- The names of connections in the order in which they are accepted. -/
  connectionNames : Nat → String
  accepted : Nat := 0
  journal : Journal := {}

namespace World

def log (w : World) (level : Level) (speaker : Speaker) (message : String) : World :=
  { w with journal := w.journal.add ⟨level, speaker, message⟩ }

/-! ## Temporary files -/

def partSuffix : String := ".part"

def partName (name token : String) : String :=
  name ++ "." ++ token ++ partSuffix

def tokenTries : Nat := 10000

structure PartFile where
  path : Path
  id : FileId
  deriving Repr, DecidableEq

def isTaken : Failure → Bool
  | .system (.coded .alreadyExists _) => true
  | _ => false

/-- Creates a file beside the final one, under the first random name that is free. -/
def createPart (w : World) (directory : Path) (name : String) :
    Nat → Except Failure PartFile × World
  | 0 => (.error (.system .noTemporaryName), w)
  | tries + 1 =>
    let path := directory.join ⟨.relative, [partName name (w.tokens w.drawn)]⟩
    let w := { w with drawn := w.drawn + 1 }
    match w.tree.createFile path with
    | .ok (id, tree) => (.ok ⟨path, id⟩, { w with tree })
    | .error e => if isTaken e then createPart w directory name tries else (.error e, w)

end World

end FileExchange

import FileExchange.Tree.Basic

/-!
# Snapshots

All that lies below a directory as one sorted list, and what changed from one such list to another.
-/

set_option autoImplicit false

namespace FileExchange.Snapshot

inductive What where
  | directory
  | file (bytes : Bytes)
  | link (target : String)
  deriving Repr, DecidableEq

structure Item where
  path : String
  what : What
  deriving Repr, DecidableEq

/-! ## Order -/

def What.rank : What → Nat
  | .directory => 0
  | .file _ => 1
  | .link _ => 2

def What.payload : What → String
  | .directory => ""
  | .file bytes => String.ofList (bytes.map fun b => Char.ofNat b.toNat)
  | .link target => target

/-- By path, then by kind, then by content. -/
def Item.order (a b : Item) : Ordering :=
  (compare a.path b.path).then
    ((compare a.what.rank b.what.rank).then (compare a.what.payload b.what.payload))

/-! ## Taking and comparing -/

def whatOf (t : Tree) : Node → What
  | .directory => .directory
  | .file id => .file (t.content id)
  | .link target => .link target

/-- An entry below a directory. -/
def item? (t : Tree) (base : Location) (entry : Location × Node) : Option Item :=
  let (l, n) := entry
  if base.isPrefixOf l && l != base then
    some ⟨Text.joinTexts "/" (l.drop base.length), whatOf t n⟩
  else none

def sorted (items : List Item) : List Item :=
  items.mergeSort fun a b => (Item.order a b).isLE

def take (t : Tree) (base : Location) : List Item :=
  sorted (t.nodes.filterMap (item? t base))

structure Difference where
  now : List Item
  gone : List Item
  deriving Repr, DecidableEq

/-- Nothing if the two lists hold the same entries equally often. -/
def difference (before after : List Item) : Option Difference :=
  let now := before.foldl List.erase after
  let gone := after.foldl List.erase before
  if now.isEmpty && gone.isEmpty then none else some ⟨now, gone⟩

end FileExchange.Snapshot

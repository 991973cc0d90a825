import FileExchange.Proofs.Http.Listing
import FileExchange.Proofs.Serve.Listings
import Mathlib.Data.List.Sort
import Mathlib.Data.String.Basic

/-!
# Pages of directories

What the page of a directory tells whoever reads it: the children of the directory, each of them once and in
the order of the names, with a link and with whether it is a directory. No name of a child can tell otherwise.
-/

set_option autoImplicit false

namespace FileExchange

/-! ## Children, each of them once -/

namespace Tree

/-- At every place there is one thing at most. -/
def Distinct (t : Tree) : Prop :=
  (t.nodes.map Prod.fst).Nodup

theorem Distinct.put {t : Tree} (h : t.Distinct) (l : Location) (n : Node) : (t.put l n).Distinct := by
  have hplaces : (t.put l n).nodes.map Prod.fst = l :: (t.nodes.map Prod.fst).filter (· != l) := by
    rw [Tree.put, List.map_cons, List.filter_map]
    rfl
  rw [Distinct, hplaces, List.nodup_cons]
  exact ⟨by simp, h.filter _⟩

theorem Distinct.nodup_children {t : Tree} (h : t.Distinct) (l : Location) : (t.children l).Nodup := by
  have hplaces : t.children l = (t.nodes.map Prod.fst).filterMap (childName? l) := by
    rw [List.filterMap_map]
    rfl
  rw [hplaces]
  refine List.Nodup.filterMap (fun k k' name hk hk' => ?_) h
  rw [childName?_eq_some.mp hk, childName?_eq_some.mp hk']

theorem Distinct.sorted_children {t : Tree} (h : t.Distinct) (l : Location) :
    ((t.children l).mergeSort fun a b => decide (a ≤ b)).Pairwise (· < ·) := by
  have hordered := List.pairwise_mergeSort' (· ≤ ·) (t.children l)
  have hnodup : ((t.children l).mergeSort fun a b => decide (a ≤ b)).Nodup :=
    (List.mergeSort_perm _ _).nodup_iff.mpr (h.nodup_children l)
  exact (hordered.and hnodup).imp fun hboth => lt_of_le_of_ne hboth.1 hboth.2

end Tree

namespace Directory

open Exchange

/-- The entries are the children of a place, in strictly increasing order of their names. -/
structure Lists (t : Tree) (p : Path) (l : Location) (target : String) (es : List Entry) : Prop where
  increasing : (es.map Entry.name).Pairwise (· < ·)
  complete : ∀ name, name ∈ es.map Entry.name ↔ t.node? (l ++ [name]) ≠ none
  told : ∀ e ∈ es, e.href = Listing.hrefOf target e.name ∧ t.isDirectory (p.child e.name) = .ok e.isDirectory

theorem map_of_mapM {α β : Type} {f : α → Except Failure β} {g : β → α}
    (hfg : ∀ a b, f a = .ok b → g b = a)
    {l : List α} {bs : List β} (h : l.mapM f = .ok bs) : bs.map g = l := by
  induction l generalizing bs with
  | nil =>
    cases h
    rfl
  | cons a l ih =>
    rw [List.mapM_cons] at h
    obtain ⟨b, hb, h⟩ := except_bind_eq_ok h
    obtain ⟨more, hmore, h⟩ := except_bind_eq_ok h
    cases h
    rw [List.map_cons, hfg a b hb, ih hmore]

variable {t : Tree} {p : Path} {l : Location} {target : String} {es : List Entry}

theorem names_of_entries (hp : t.LeadsTo p l) (hes : entries t p target = .ok es) :
    es.map Entry.name = (t.children l).mergeSort fun a b => decide (a ≤ b) := by
  rw [entries_of_locate target hp] at hes
  refine map_of_mapM (fun name e hentry => ?_) hes
  obtain ⟨isDirectory, _, rfl⟩ := entryBy_eq_ok hentry
  rfl

theorem lists_of_entries (ht : t.Distinct) (hp : t.LeadsTo p l) (hes : entries t p target = .ok es) :
    Lists t p l target es := by
  have hnames := names_of_entries hp hes
  refine ⟨?_, fun name => ?_, fun e he => mem_entriesBy hes he⟩
  · rw [hnames]
    exact ht.sorted_children l
  · rw [hnames, List.mem_mergeSort]
    exact Tree.mem_children

/-- The page that is sent for a directory whose children can be looked at is read as its children, whatever
their names are. -/
theorem reads_of_respond {references : Markup.References} (hreferences : references.KnownQuoted) {x : Exchange}
    (hx : x.Obliging) (ht : x.tree.Distinct) (hp : x.tree.LeadsTo p l) (target : String)
    (hchildren : ∀ name, x.tree.node? (l ++ [name]) ≠ none →
      ∃ isDirectory, x.tree.isDirectory (p.child name) = .ok isDirectory) :
    ∃ es y page, respond p target x = (.ok (), y) ∧
      y.wire = x.wire ++ ((Response.htmlHead .ok).head ++ page) ∧
      Listing.readEntries? references page = some es ∧ Lists x.tree p l target es := by
  obtain ⟨es, hes⟩ := exists_entries target hp fun name hname => hchildren name (Tree.mem_children.mp hname)
  obtain ⟨y, hrun, hdelivered⟩ := run_respond hx hes
  exact ⟨es, y, _, hrun, hdelivered.wire, Listing.readEntries?_page hreferences es, lists_of_entries ht hp hes⟩

/-! ## Names that look like parts of a page -/

def oddTree : Tree :=
  ({ nodes := [(["root"], .directory), (["root", "<b><i>'"], .file 0)], contents := #[[]] } : Tree).put
    ["root", "a\r\n\"&lt;"] .directory

theorem reads_oddTree :
    Markup.predefined.KnownQuoted ∧ (Exchange.ofLine oddTree "").Obliging ∧ oddTree.Distinct ∧
      oddTree.LeadsTo ⟨.root, ["root"]⟩ ["root"] ∧
      (∀ name, oddTree.node? (["root"] ++ [name]) ≠ none →
        ∃ isDirectory, oddTree.isDirectory (Path.child ⟨.root, ["root"]⟩ name) = .ok isDirectory) ∧
      ∃ es y page, respond ⟨.root, ["root"]⟩ "/" (.ofLine oddTree "") = (.ok (), y) ∧
        y.wire = (Response.htmlHead .ok).head ++ page ∧
        Listing.readEntries? Markup.predefined page = some es ∧
        Lists oddTree ⟨.root, ["root"]⟩ ["root"] "/" es := by
  have hx : (Exchange.ofLine oddTree "").Obliging := ⟨rfl, fun _ _ => rfl⟩
  have ht : oddTree.Distinct := by
    refine Tree.Distinct.put ?_ _ _
    rw [Tree.Distinct]
    decide
  have hp : oddTree.LeadsTo ⟨.root, ["root"]⟩ ["root"] := by
    rw [Tree.LeadsTo]
    decide +kernel
  have hchildren : ∀ name, oddTree.node? (["root"] ++ [name]) ≠ none →
      ∃ isDirectory, oddTree.isDirectory (Path.child ⟨.root, ["root"]⟩ name) = .ok isDirectory := by
    have hnames : oddTree.children ["root"] = ["a\r\n\"&lt;", "<b><i>'"] := by decide +kernel
    intro name hname
    have hmem := Tree.mem_children.mpr hname
    rw [hnames] at hmem
    rcases List.mem_cons.mp hmem with rfl | hmem
    · exact ⟨true, by decide +kernel⟩
    · obtain rfl := List.mem_singleton.mp hmem
      exact ⟨false, by decide +kernel⟩
  exact ⟨Markup.knownQuoted_predefined, hx, ht, hp, hchildren,
    reads_of_respond Markup.knownQuoted_predefined hx ht hp "/" hchildren⟩

end Directory

end FileExchange

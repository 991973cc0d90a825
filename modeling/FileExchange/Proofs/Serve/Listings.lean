import FileExchange.Proofs.Serve.Pages
import FileExchange.Proofs.Serve.Sites
import FileExchange.Proofs.Tree.Children
import FileExchange.Proofs.Tree.Real

/-!
# Listings

The line that a child has in the listing of a directory. It depends on the child's name, on the target under which
the directory was asked for, and on whether the child is a directory, links followed.
-/

set_option autoImplicit false

namespace FileExchange

/-! ## Children -/

namespace Tree

theorem childName?_eq_some {directory l : Location} {name : String} :
    childName? directory l = some name ↔ l = directory ++ [name] := by
  unfold childName?
  constructor
  · intro h
    split at h
    · rename_i last hlast
      split at h
      · rename_i hfront
        cases h
        obtain ⟨front, rfl⟩ := List.getLast?_eq_some_iff.mp hlast
        rw [List.dropLast_concat] at hfront
        rw [eq_of_beq hfront]
      · cases h
    · cases h
  · rintro rfl
    rw [List.getLast?_concat, List.dropLast_concat]
    exact if_pos (beq_self_eq_true directory)

/-- The children listed at a place are those at which there is something. -/
theorem mem_children {t : Tree} {l : Location} {name : String} :
    name ∈ t.children l ↔ t.node? (l ++ [name]) ≠ none := by
  rw [children, List.mem_filterMap]
  constructor
  · rintro ⟨⟨k, n⟩, hmem, hname⟩
    obtain rfl := childName?_eq_some.mp hname
    rw [node?_of_ne (by simp), ne_eq, List.lookup_eq_none_iff]
    exact fun hnone => absurd (hnone _ hmem) (by simp)
  · intro h
    obtain ⟨n, hn⟩ := Option.ne_none_iff_exists'.mp h
    exact ⟨(l ++ [name], n), mem_nodes (by simp) hn, childName?_eq_some.mpr rfl⟩

end Tree

/-! ## Lines -/

namespace Listing

theorem item_eq (e : Entry) :
    item e = "<li><a href=\"" ++ Percent.encode e.href ++ "\">" ++ label e ++ "</a></li>" := by
  delta item
  rfl

theorem length_item (name href : String) :
    (item ⟨name, href, true⟩).length = (item ⟨name, href, false⟩).length + 14 := by
  have hfront : "<b><i>".length = 6 := rfl
  have hback : "</i></b>".length = 8 := rfl
  simp only [item_eq, label, String.length_append, if_true, Bool.false_eq_true, if_false, hfront, hback]
  omega

/-- The line of a directory is not that of anything else. -/
theorem item_injective {name href : String} {b b' : Bool}
    (h : item ⟨name, href, b⟩ = item ⟨name, href, b'⟩) : b = b' := by
  have hlen := length_item name href
  cases b with
  | false =>
    cases b' with
    | false => rfl
    | true =>
      rw [h] at hlen
      omega
  | true =>
    cases b' with
    | false =>
      rw [h] at hlen
      omega
    | true => rfl

end Listing

/-! ## Listings -/

namespace Directory

theorem mapM_ok {α β : Type} {f : α → Except Failure β} {l : List α} {bs : List β}
    (h : l.mapM f = .ok bs) :
    (∀ a ∈ l, ∃ b ∈ bs, f a = .ok b) ∧ ∀ b ∈ bs, ∃ a ∈ l, f a = .ok b := by
  induction l generalizing bs with
  | nil =>
    cases h
    exact ⟨by simp, by simp⟩
  | cons a l ih =>
    rw [List.mapM_cons] at h
    obtain ⟨b, hb, h⟩ := except_bind_eq_ok h
    obtain ⟨more, hmore, h⟩ := except_bind_eq_ok h
    cases h
    obtain ⟨hleft, hright⟩ := ih hmore
    refine ⟨fun a' ha' => ?_, fun b' hb' => ?_⟩
    · rcases List.mem_cons.mp ha' with rfl | ha'
      · exact ⟨b, List.mem_cons_self, hb⟩
      · obtain ⟨b', hb', hf⟩ := hleft a' ha'
        exact ⟨b', List.mem_cons_of_mem b hb', hf⟩
    · rcases List.mem_cons.mp hb' with rfl | hb'
      · exact ⟨a, List.mem_cons_self, hb⟩
      · obtain ⟨a', ha', hf⟩ := hright b' hb'
        exact ⟨a', List.mem_cons_of_mem a ha', hf⟩

theorem exists_mapM {α β : Type} {f : α → Except Failure β} {l : List α}
    (h : ∀ a ∈ l, ∃ b, f a = .ok b) : ∃ bs, l.mapM f = .ok bs := by
  induction l with
  | nil => exact ⟨[], rfl⟩
  | cons a l ih =>
    obtain ⟨b, hb⟩ := h a List.mem_cons_self
    obtain ⟨bs, hbs⟩ := ih fun a' ha' => h a' (List.mem_cons_of_mem a ha')
    refine ⟨b :: bs, ?_⟩
    rw [List.mapM_cons, hb, hbs]
    rfl

/-- The line of a child in the listing of a directory. -/
def Shows (t : Tree) (p : Path) (target name line : String) : Prop :=
  ∃ es, entries t p target = .ok es ∧ ∃ e ∈ es, e.name = name ∧ Listing.item e = line

theorem entryBy_eq_ok {isDirectory : Path → Except Failure Bool} {p : Path} {target name : String} {e : Entry}
    (h : entryBy isDirectory p target name = .ok e) :
    ∃ found, isDirectory (p.child name) = .ok found ∧ e = ⟨name, Listing.hrefOf target name, found⟩ := by
  obtain ⟨found, hdirectory, h⟩ := except_bind_eq_ok h
  cases h
  exact ⟨found, hdirectory, rfl⟩

/-- What is listed of a child: whether it is a directory, and a link that depends on the target. -/
theorem mem_entriesBy {isDirectory : Path → Except Failure Bool} {t : Tree} {p : Path} {target : String}
    {es : List Entry} (hes : entriesBy isDirectory t p target = .ok es) {e : Entry} (he : e ∈ es) :
    e.href = Listing.hrefOf target e.name ∧ isDirectory (p.child e.name) = .ok e.isDirectory := by
  obtain ⟨names, _, hmap⟩ := except_bind_eq_ok hes
  obtain ⟨name, _, hentry⟩ := (mapM_ok hmap).2 e he
  obtain ⟨found, hdirectory, rfl⟩ := entryBy_eq_ok hentry
  exact ⟨rfl, hdirectory⟩

/-- A directory is listed if it can be told of each of its children whether it is a directory. -/
theorem exists_entries {t : Tree} {p : Path} {l : Location} (target : String)
    (hp : t.locate true p = .ok ⟨l, some .directory⟩)
    (h : ∀ name ∈ t.children l, ∃ isDirectory, t.isDirectory (p.child name) = .ok isDirectory) :
    ∃ es, entries t p target = .ok es := by
  rw [entries_of_locate target hp]
  refine exists_mapM fun name hname => ?_
  obtain ⟨isDirectory, hdirectory⟩ := h name (List.mem_mergeSort.mp hname)
  refine ⟨⟨name, Listing.hrefOf target name, isDirectory⟩, ?_⟩
  have hchild : t.isDirectory (p.join ⟨.relative, [name]⟩) = .ok isDirectory := hdirectory
  rw [entryOf, entryBy, hchild]
  rfl

/-- Only a directory is listed. -/
theorem locate_of_entries {t : Tree} {l : Location} {target : String} {es : List Entry} (hreal : t.IsReal l)
    (hes : entries t l.path target = .ok es) : t.locate true l.path = .ok ⟨l, some .directory⟩ := by
  obtain ⟨names, hnames, _⟩ := except_bind_eq_ok hes
  unfold Tree.listDirectory at hnames
  split at hnames
  · rename_i l' hlocate
    have hplace : l' = l := congrArg Tree.Place.location (Tree.locate_real hreal hlocate)
    rw [hlocate, hplace]
  · cases hnames
  · cases hnames
  · cases hnames

/-- What is at a child of a real place has one line in the listing of the place, by whether it is a directory. -/
theorem exists_item {t : Tree} {l : Location} {target name : String} {es : List Entry} (hreal : t.IsReal l)
    (hname : t.node? (l ++ [name]) ≠ none) (hes : entries t l.path target = .ok es) :
    ∃ isDirectory, t.isDirectory (l.path.child name) = .ok isDirectory ∧
      ∀ line, Shows t l.path target name line ↔
        line = Listing.item ⟨name, Listing.hrefOf target name, isDirectory⟩ := by
  have hlocate := locate_of_entries hreal hes
  have hmap := hes
  rw [entries_of_locate target hlocate] at hmap
  have hmem := Tree.mem_children.mpr hname
  obtain ⟨e, he, hentry⟩ := (mapM_ok hmap).1 name (List.mem_mergeSort.mpr hmem)
  obtain ⟨isDirectory, hdirectory, rfl⟩ := entryBy_eq_ok hentry
  refine ⟨isDirectory, hdirectory, fun line => ⟨?_, ?_⟩⟩
  · -- A child that is listed twice has the same line twice, as the question has one answer.
    rintro ⟨es', hes', e', he', rfl, rfl⟩
    rw [hes] at hes'
    cases hes'
    obtain ⟨name', _, hentry'⟩ := (mapM_ok hmap).2 e' he'
    obtain ⟨isDirectory', hdirectory', rfl⟩ := entryBy_eq_ok hentry'
    rw [hdirectory] at hdirectory'
    cases hdirectory'
    rfl
  · rintro rfl
    exact ⟨es, hes, _, he, rfl, rfl⟩

/-- A child has the same line in two listings exactly if it is a directory for both of them or for neither. -/
theorem exists_shows_iff {t t' : Tree} {l : Location} {target name : String} (hreal : t.IsReal l)
    (hreal' : t'.IsReal l) (hname : t.node? (l ++ [name]) ≠ none) (hname' : t'.node? (l ++ [name]) ≠ none) :
    (∃ line, Shows t l.path target name line ∧ Shows t' l.path target name line) ↔
      (∃ es, entries t l.path target = .ok es) ∧ (∃ es, entries t' l.path target = .ok es) ∧
        (t.stat (l.path.child name) = .ok .directory ↔ t'.stat (l.path.child name) = .ok .directory) := by
  constructor
  · rintro ⟨line, ⟨es, hes, hentry⟩, ⟨es', hes', hentry'⟩⟩
    obtain ⟨b, hb, hline⟩ := exists_item hreal hname hes
    obtain ⟨b', hb', hline'⟩ := exists_item hreal' hname' hes'
    have heq : b = b' := Listing.item_injective
      (((hline line).mp ⟨es, hes, hentry⟩).symm.trans ((hline' line).mp ⟨es', hes', hentry'⟩))
    refine ⟨⟨es, hes⟩, ⟨es', hes'⟩, ?_⟩
    rw [← Tree.isDirectory_eq_true, ← Tree.isDirectory_eq_true, hb, hb', heq]
  · rintro ⟨⟨es, hes⟩, ⟨es', hes'⟩, hboth⟩
    obtain ⟨b, hb, hline⟩ := exists_item hreal hname hes
    obtain ⟨b', hb', hline'⟩ := exists_item hreal' hname' hes'
    rw [← Tree.isDirectory_eq_true, ← Tree.isDirectory_eq_true, hb, hb', Except.ok.injEq,
      Except.ok.injEq] at hboth
    have heq : b = b' := Bool.eq_iff_iff.mpr hboth
    exact ⟨_, (hline _).mpr rfl, (hline' _).mpr (by rw [heq])⟩

end Directory

end FileExchange

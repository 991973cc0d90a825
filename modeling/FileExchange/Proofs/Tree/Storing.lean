import FileExchange.Proofs.Tree.Files

/-!
# Storing

A file that is written under one name in a directory and then gets another name there. The directory is
made with its missing parents if it was not there.
-/

set_option autoImplicit false

namespace FileExchange.Tree

variable {t t' t₁ : Tree} {p : Path} {d : Location} {a b : String}

/-- A file at a place, new directories above it at most, and all else as it was. -/
structure Gains (t t' : Tree) (l : Location) (bytes : Bytes) : Prop where
  file : t'.view l = some (.file bytes)
  others : ∀ k, k ≠ l → t'.view k = t.view k ∨
    (t.view k = none ∧ t'.view k = some .directory ∧ k <+: l)

section Written

variable (h : Ensured t t₁ p d)

include h

theorem Ensured.gains_withFile (bytes : Bytes) :
    Gains t (t₁.withFile (d ++ [a]) bytes) (d ++ [a]) bytes := by
  have hview := view_withFile (l := d ++ [a]) h.sound (by simp) bytes
  refine ⟨by rw [hview, if_pos rfl], fun k hk => ?_⟩
  rw [hview, if_neg hk]
  rcases h.grown.view k with hsame | ⟨hnone, hnew, hprefix⟩
  · exact Or.inl hsame
  · exact Or.inr ⟨hnone, hnew, hprefix.trans (List.prefix_append d [a])⟩

variable (hfree : t₁.node? (d ++ [a]) = none)

include hfree

theorem Ensured.leadsTo_withFile (bytes : Bytes) : (t₁.withFile (d ++ [a]) bytes).LeadsTo p d :=
  leadsTo_extends (extends_withFile hfree bytes) h.leadsTo

theorem Ensured.none_below (bytes : Bytes) {k : Location} (hk : d ++ [a] <+: k) (hne : d ++ [a] ≠ k) :
    (t₁.withFile (d ++ [a]) bytes).node? k = none := by
  rw [node?_withFile (by simp), if_neg (Ne.symm hne)]
  exact h.sound.none_below (by rw [hfree]; simp) hk hne

theorem Ensured.gains_moved (bytes : Bytes) :
    Gains t ((t₁.withFile (d ++ [a]) bytes).moved (d ++ [a]) (d ++ [b]) (.file t₁.contents.size))
      (d ++ [b]) bytes := by
  have hview := view_moved (l := d ++ [b]) (n := .file t₁.contents.size) (by simp) (by simp)
    (fun _ hk hne => h.none_below hfree bytes hk hne)
  refine ⟨?_, fun k hk => ?_⟩
  · rw [hview, if_pos rfl, Snapshot.whatOf, content_withFile_self]
  · rw [hview, if_neg hk]
    split
    · rename_i hka
      refine Or.inl ?_
      rw [hka, view_eq_none.mpr (h.node?_child ▸ hfree)]
    · rename_i hka
      rcases (h.gains_withFile bytes).others k hka with hsame | ⟨hnone, hnew, hprefix⟩
      · exact Or.inl hsame
      · refine Or.inr ⟨hnone, hnew, ?_⟩
        rcases List.prefix_concat_iff.mp hprefix with heq | hd
        · exact absurd heq hka
        · exact hd.trans (List.prefix_append d [b])

variable (ht : t.Sound) (hp : p.isAbsolute = true) (ha : Nameable p a) (hb : Nameable p b)

include ht hp hb

theorem Ensured.look?_withFile (hab : b ≠ a) (bytes : Bytes) :
    (t₁.withFile (d ++ [a]) bytes).look? (p.child b) = t.look? (p.child b) := by
  rw [Tree.look?_child hb (h.leadsTo_withFile hfree bytes), view_withFile h.sound (by simp),
    if_neg (by simpa), ← Tree.look?_child hb h.leadsTo]
  exact h.look?_child ht hp hb.descends

include ha

theorem Ensured.rename_withFile (hab : b ≠ a) (bytes : Bytes) :
    (t₁.withFile (d ++ [a]) bytes).rename (p.child a) (p.child b) =
      if t.look? (p.child b) = some .directory then
        .error (.system (.coded .isDirectory [(p.child a).text, (p.child b).text]))
      else .ok ((t₁.withFile (d ++ [a]) bytes).moved (d ++ [a]) (d ++ [b])
        (.file t₁.contents.size)) := by
  have hleads := h.leadsTo_withFile hfree bytes
  have hnode : (t₁.withFile (d ++ [a]) bytes).node? (d ++ [a]) = some (.file t₁.contents.size) := by
    rw [node?_withFile (by simp), if_pos rfl]
  have hentry := h.look?_withFile hfree ht hp hb hab bytes
  rw [Tree.look?_child hb hleads] at hentry
  rw [rename_child hleads ha hb hnode, ← hentry, view]
  cases (t₁.withFile (d ++ [a]) bytes).node? (d ++ [b]) with
  | none => rfl
  | some n => cases n <;> rfl

end Written

/-- Where the path of the directory is a real one, the file is found under its new name. -/
theorem Ensured.look?_moved (h : Ensured t t₁ d.path d) (hfree : t₁.node? (d ++ [a]) = none)
    (hb : Nameable d.path b) (bytes : Bytes) :
    ((t₁.withFile (d ++ [a]) bytes).moved (d ++ [a]) (d ++ [b])
      (.file t₁.contents.size)).look? (d.path.child b) = some (.file bytes) := by
  have hnode := node?_moved (l := d ++ [b]) (n := .file t₁.contents.size) (by simp) (by simp)
    (fun _ hk hne => h.none_below hfree bytes hk hne)
  have hsame : ∀ k, k <+: d → ((t₁.withFile (d ++ [a]) bytes).moved (d ++ [a]) (d ++ [b])
      (.file t₁.contents.size)).node? k = t₁.node? k := by
    intro k hk
    have hchild : ∀ name, k ≠ d ++ [name] := by
      rintro name rfl
      exact not_prefix_concat d name hk
    rw [hnode, if_neg (hchild b), if_neg (hchild a), node?_withFile (by simp), if_neg (hchild a)]
  rw [Tree.look?_child hb (leadsTo_path_of_same h.sound hsame h.leadsTo)]
  exact (h.gains_moved hfree bytes).file

end FileExchange.Tree

import FileExchange.Proofs.Tree.Directories
import FileExchange.World

/-!
# Files in a directory

What creating a file in a directory, writing it and renaming it to another child of the directory do to
the places of a tree.
-/

set_option autoImplicit false

namespace FileExchange

namespace Tree

variable {t t' : Tree} {p : Path} {a b name : String} {d l : Location} {id : FileId} {n : Node}

/-! ## Creating and writing -/

def newFile (t : Tree) (l : Location) : Tree :=
  (t.addContent []).2.put l (.file t.contents.size)

theorem createFile_child (hp : p.isAbsolute = true) (hname : Path.Descends name)
    (h : t.createFile (p.child name) = .ok (id, t')) :
    ∃ d, t.LeadsTo p d ∧ Nameable p name ∧ t.node? (d ++ [name]) = none ∧ id = t.contents.size ∧
      t' = t.newFile (d ++ [name]) := by
  unfold createFile at h
  split at h
  · rename_i l hlocate
    cases h
    obtain ⟨d, hd, hnameable, hplace⟩ := locate_child_eq_ok hp hname hlocate
    simp only [Place.mk.injEq] at hplace
    obtain ⟨rfl, hnode⟩ := hplace
    exact ⟨d, hd, hnameable, hnode.symm, rfl, rfl⟩
  · cases h
  · cases h

theorem size_newFile (t : Tree) (l : Location) :
    (t.newFile l).contents.size = t.contents.size + 1 := by
  simp [newFile, put, addContent]

theorem node?_newFile (hl : l ≠ []) (k : Location) :
    (t.newFile l).node? k = if k = l then some (.file t.contents.size) else t.node? k := by
  rw [newFile]
  split
  · rename_i hk
    rw [hk, node?_put_self hl]
  · rename_i hk
    rw [node?_put_of_ne hk, node?_addContent]

theorem content_newFile_self (t : Tree) (l : Location) :
    (t.newFile l).content t.contents.size = [] := by
  simp [newFile, put, addContent, content]

theorem content_newFile_of_lt (h : id < t.contents.size) :
    (t.newFile l).content id = t.content id :=
  content_push_of_lt h

theorem extends_newFile (hnone : t.node? l = none) : t.Extends (t.newFile l) := by
  have hl : l ≠ [] := by
    rintro rfl
    cases hnone
  refine ⟨fun k m hm => ?_, rfl⟩
  have hk : k ≠ l := by
    rintro rfl
    rw [hnone] at hm
    cases hm
  rw [node?_newFile hl, if_neg hk, hm]

theorem Sound.newFile (ht : t.Sound) (hd : t.node? d = some .directory)
    (hnone : t.node? (d ++ [name]) = none) : (t.newFile (d ++ [name])).Sound := by
  refine (ht.addContent []).put (d := d) hd (Or.inr ?_) ?_
  · rw [node?_addContent, hnone]
    simp
  · intro id hid
    cases hid
    simp [Tree.addContent]

def withFile (t : Tree) (l : Location) (bytes : Bytes) : Tree :=
  (t.newFile l).setContent t.contents.size bytes

theorem node?_withFile (hl : l ≠ []) (bytes : Bytes) (k : Location) :
    (t.withFile l bytes).node? k = if k = l then some (.file t.contents.size) else t.node? k := by
  rw [withFile, node?_setContent, node?_newFile hl]

theorem content_withFile_self (bytes : Bytes) :
    (t.withFile l bytes).content t.contents.size = bytes := by
  refine content_setContent_self bytes ?_
  rw [size_newFile]
  exact Nat.lt_succ_self _

theorem content_withFile_of_lt (bytes : Bytes) (h : id < t.contents.size) :
    (t.withFile l bytes).content id = t.content id := by
  rw [withFile, content_setContent_of_ne bytes (Nat.ne_of_lt h), content_newFile_of_lt h]

theorem view_withFile (ht : t.Sound) (hl : l ≠ []) (bytes : Bytes) (k : Location) :
    (t.withFile l bytes).view k = if k = l then some (.file bytes) else t.view k := by
  rw [view, node?_withFile hl]
  split
  · simp [Snapshot.whatOf, content_withFile_self]
  · rw [view]
    cases hnode : t.node? k with
    | none => rfl
    | some n =>
      cases n with
      | directory => rfl
      | link target => rfl
      | file id => simp [Snapshot.whatOf, content_withFile_of_lt bytes (ht.stored k id hnode)]

theorem extends_withFile (hnone : t.node? l = none) (bytes : Bytes) :
    t.Extends (t.withFile l bytes) :=
  extends_newFile hnone

/-! ## Renaming -/

def moved (t : Tree) (source target : Location) (n : Node) : Tree :=
  (t.drop source).put target n

theorem rename_eq_ok {q : Path} (h : t.rename p q = .ok t') :
    ∃ l n k old, t.locate false p = .ok ⟨l, some n⟩ ∧ t.locate false q = .ok ⟨k, old⟩ ∧
      old ≠ some .directory ∧ t' = t.moved l k n := by
  unfold rename at h
  dsimp only at h
  split at h
  · rename_i l n k old hp hq
    split at h
    · cases h
    · rename_i hold
      cases h
      exact ⟨l, n, k, old, hp, hq, by simpa using hold, rfl⟩
  all_goals cases h

theorem rename_child (hd : t.LeadsTo p d) (ha : Nameable p a) (hb : Nameable p b)
    (hn : t.node? (d ++ [a]) = some n) :
    t.rename (p.child a) (p.child b) =
      if t.node? (d ++ [b]) = some .directory then
        .error (.system (.coded .isDirectory [(p.child a).text, (p.child b).text]))
      else .ok (t.moved (d ++ [a]) (d ++ [b]) n) := by
  simp only [rename, locate_child ha hd, locate_child hb hd, hn, beq_iff_eq]
  rfl

theorem node?_moved {k l : Location} (hk : k ≠ []) (hl : l ≠ [])
    (hbelow : ∀ m, k <+: m → k ≠ m → t.node? m = none) (m : Location) :
    (t.moved k l n).node? m = if m = l then some n else if m = k then none else t.node? m := by
  rw [moved]
  split
  · rename_i hm
    rw [hm, node?_put_self hl]
  · rename_i hm
    rw [node?_put_of_ne hm, node?_drop hk]
    split
    · rename_i hprefix
      split
      · rfl
      · rename_i hmk
        exact (hbelow m hprefix (Ne.symm hmk)).symm
    · rename_i hprefix
      rw [if_neg]
      rintro rfl
      exact hprefix (List.prefix_refl _)

theorem whatOf_moved (t : Tree) (k l : Location) (n : Node) :
    Snapshot.whatOf (t.moved k l n) = Snapshot.whatOf t := by
  funext m
  cases m <;> rfl

theorem view_moved {k l : Location} (hk : k ≠ []) (hl : l ≠ [])
    (hbelow : ∀ m, k <+: m → k ≠ m → t.node? m = none) (m : Location) :
    (t.moved k l n).view m =
      if m = l then some (Snapshot.whatOf t n) else if m = k then none else t.view m := by
  rw [view, node?_moved hk hl hbelow, whatOf_moved]
  split
  · rfl
  · split <;> rfl

theorem Sound.moved (ht : t.Sound) (hd : t.node? d = some .directory)
    (hn : t.node? (d ++ [a]) = some n) (hb : t.node? (d ++ [b]) ≠ some .directory) :
    (t.moved (d ++ [a]) (d ++ [b]) n).Sound := by
  refine (ht.drop (by simp)).put ?_ (Or.inr ?_) ?_
  · rw [node?_drop (by simp), if_neg (not_prefix_concat d a), hd]
  · rw [node?_drop (by simp)]
    split
    · simp
    · exact hb
  · rintro id rfl
    exact ht.stored _ id hn

end Tree

namespace World

theorem createPart_eq_ok {w w' : World} {directory : Path} {name : String} {tries : Nat}
    {part : PartFile} (h : w.createPart directory name tries = (.ok part, w')) :
    ∃ token, part.path = directory.child (partName name token) ∧
      w.tree.createFile part.path = .ok (part.id, w'.tree) := by
  induction tries generalizing w with
  | zero => cases h
  | succ tries ih =>
    unfold createPart at h
    dsimp only at h
    split at h
    · rename_i id tree hcreate
      cases h
      exact ⟨w.tokens w.drawn, rfl, hcreate⟩
    · split at h
      · have hlater := ih h
        exact hlater
      · cases h

theorem createPart_error {w w' : World} {directory : Path} {name : String} {tries : Nat}
    {e : Failure} (h : w.createPart directory name tries = (.error e, w')) : w'.tree = w.tree := by
  induction tries generalizing w with
  | zero =>
    cases h
    rfl
  | succ tries ih =>
    unfold createPart at h
    dsimp only at h
    split at h
    · cases h
    · split at h
      · have hlater := ih h
        exact hlater
      · cases h
        rfl

end World

end FileExchange

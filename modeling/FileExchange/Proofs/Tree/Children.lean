import FileExchange.Proofs.Tree.Walks

/-!
# Children

A path and one name more leads to a child of the directory that the path leads to, or to nothing.
-/

set_option autoImplicit false

namespace FileExchange

def Path.child (p : Path) (name : String) : Path :=
  ⟨p.anchor, p.names ++ [name]⟩

namespace Tree

variable {t t' : Tree} {p : Path} {name : String} {d : Location}

/-- A path leads to a directory, all links followed. -/
def LeadsTo (t : Tree) (p : Path) (d : Location) : Prop :=
  t.locate true p = .ok ⟨d, some .directory⟩

/-- What is at a path, a link at its end not followed. -/
def look? (t : Tree) (p : Path) : Option Snapshot.What :=
  match t.locate false p with
  | .ok ⟨_, some n⟩ => some (Snapshot.whatOf t n)
  | _ => none

/-- A name with which a child of a path can be looked up. -/
structure Nameable (p : Path) (name : String) : Prop where
  descends : Path.Descends name
  short : isNameTooLong name = false
  nul : hasNul (p.child name).text = false
  fits : isPathTooLong (p.child name).text = false

/-! ## Paths that can be looked up -/

theorem locate_eq_ok {through : Bool} {place : Place} (h : t.locate through p = .ok place) :
    hasNul p.text = false ∧ isPathTooLong p.text = false ∧
      walk t through linkLimit (t.start p) p.names = .ok place := by
  unfold locate at h
  split at h
  · cases h
  · rename_i hnul
    split at h
    · cases h
    · rename_i hshort
      split at h
      · rename_i place' hwalk
        cases h
        exact ⟨by simpa using hnul, by simpa using hshort, hwalk⟩
      · cases h

theorem locate_of_walk {through : Bool} {place : Place} (hnul : hasNul p.text = false)
    (hshort : isPathTooLong p.text = false)
    (hwalk : walk t through linkLimit (t.start p) p.names = .ok place) :
    t.locate through p = .ok place := by
  unfold locate
  rw [if_neg (by simp [hnul]), if_neg (by simp [hshort]), hwalk]

theorem lookable_of_child (hp : p.isAbsolute = true) (hnul : hasNul (p.child name).text = false)
    (hshort : isPathTooLong (p.child name).text = false) :
    hasNul p.text = false ∧ isPathTooLong p.text = false := by
  refine ⟨?_, ?_⟩
  · rw [← Bool.not_eq_true, hasNul_text] at hnul ⊢
    rintro ⟨n, hn, hmem⟩
    exact hnul ⟨n, List.mem_append_left _ hn, hmem⟩
  · obtain ⟨k, hle, hsize⟩ := Path.size_text_child hp
    have hchild := hsize name
    rw [isPathTooLong_eq_false] at hshort ⊢
    rw [Path.child] at *
    omega

theorem Nameable.shorter {name' : String} (hp : p.isAbsolute = true) (h : Nameable p name')
    (hname : Path.Descends name) (hsub : ∀ c ∈ name.toList, c ∈ name'.toList)
    (hle : name.utf8ByteSize ≤ name'.utf8ByteSize) : Nameable p name := by
  obtain ⟨_, hshort, hnul, hfits⟩ := h
  refine ⟨hname, ?_, ?_, ?_⟩
  · simp only [isNameTooLong, decide_eq_false_iff_not] at hshort ⊢
    omega
  · rw [← Bool.not_eq_true, hasNul_text] at hnul ⊢
    rintro ⟨n, hn, hmem⟩
    refine hnul ?_
    rcases List.mem_append.mp hn with hn | hn
    · exact ⟨n, List.mem_append_left _ hn, hmem⟩
    · rw [List.mem_singleton.mp hn] at hmem
      exact ⟨name', List.mem_append_right _ (by simp), hsub _ hmem⟩
  · obtain ⟨k, _, hsize⟩ := Path.size_text_child hp
    have hchild := hsize name
    have hchild' := hsize name'
    rw [isPathTooLong_eq_false] at hfits ⊢
    rw [Path.child] at *
    omega

theorem start_child (t : Tree) (p : Path) (name : String) : t.start (p.child name) = t.start p := rfl

/-! ## Looking up a child -/

theorem locate_child_eq_ok {place : Place} (hp : p.isAbsolute = true) (hname : Path.Descends name)
    (h : t.locate false (p.child name) = .ok place) :
    ∃ d, t.LeadsTo p d ∧ Nameable p name ∧ place = ⟨d ++ [name], t.node? (d ++ [name])⟩ := by
  obtain ⟨hnul, hshort, hwalk⟩ := locate_eq_ok h
  obtain ⟨hnul', hshort'⟩ := lookable_of_child hp hnul hshort
  rw [start_child, Path.child, walk_concat hname] at hwalk
  cases hparent : walk t true linkLimit (t.start p) p.names with
  | error e =>
    rw [hparent] at hwalk
    cases hwalk
  | ok parent =>
    rw [hparent] at hwalk
    obtain ⟨d, n⟩ := parent
    cases n with
    | none => cases hwalk
    | some n =>
      cases n with
      | file id => cases hwalk
      | link target => cases hwalk
      | directory =>
        simp only [Except.bind, enter] at hwalk
        split at hwalk
        · cases hwalk
        · rename_i hlong
          cases hwalk
          exact ⟨d, locate_of_walk hnul' hshort' hparent, ⟨hname, by simpa using hlong, hnul, hshort⟩,
            rfl⟩

theorem locate_child (h : Nameable p name) (hd : t.LeadsTo p d) :
    t.locate false (p.child name) = .ok ⟨d ++ [name], t.node? (d ++ [name])⟩ := by
  obtain ⟨_, _, hparent⟩ := locate_eq_ok hd
  refine locate_of_walk h.nul h.fits ?_
  rw [start_child, Path.child, walk_concat h.descends, hparent]
  simp [Except.bind, enter, h.short]

/-- The child of a directory is missing or cannot be looked up, but not for want of the directory. -/
theorem locate_child_error {e : Failure} (hname : Path.Descends name) (hd : t.LeadsTo p d)
    (h : t.locate false (p.child name) = .error e) :
    e = .embeddedNul ∨ e = .system (.coded .nameTooLong [(p.child name).text]) := by
  obtain ⟨_, _, hparent⟩ := locate_eq_ok hd
  unfold locate at h
  split at h
  · cases h
    exact Or.inl rfl
  · split at h
    · cases h
      exact Or.inr rfl
    · rw [start_child, Path.child, walk_concat hname, hparent] at h
      simp only [Except.bind, enter] at h
      split at h
      · rename_i hwalk
        split at hwalk
        · cases hwalk
        · cases h
      · rename_i hwalk
        split at hwalk
        · cases hwalk
          cases h
          exact Or.inr rfl
        · cases hwalk

theorem leadsTo_of_child (hp : p.isAbsolute = true) (h : t.LeadsTo (p.child name) d) :
    ∃ d', t.LeadsTo p d' := by
  obtain ⟨hnul, hshort, hwalk⟩ := locate_eq_ok h
  obtain ⟨hnul', hshort'⟩ := lookable_of_child hp hnul hshort
  obtain ⟨d', hparent⟩ := walk_concat_ok hwalk
  exact ⟨d', locate_of_walk hnul' hshort' hparent⟩

/-! ## Looking without following -/

theorem look?_child (h : Nameable p name) (hd : t.LeadsTo p d) :
    t.look? (p.child name) = t.view (d ++ [name]) := by
  rw [look?, locate_child h hd, view]
  cases t.node? (d ++ [name]) <;> rfl

theorem look?_child_of_not_leadsTo (hp : p.isAbsolute = true) (hname : Path.Descends name)
    (h : ∀ d, ¬ t.LeadsTo p d) : t.look? (p.child name) = none := by
  unfold look?
  split
  · rename_i l n hlocate
    obtain ⟨d, hd, _⟩ := locate_child_eq_ok hp hname hlocate
    exact absurd hd (h d)
  · rfl

theorem look?_child_of_absent (hp : p.isAbsolute = true) (hname : Path.Descends name)
    (hd : t.LeadsTo p d) (h : t.node? (d ++ [name]) = none) : t.look? (p.child name) = none := by
  unfold look?
  split
  · rename_i l n hlocate
    obtain ⟨d', hd', _, hplace⟩ := locate_child_eq_ok hp hname hlocate
    rw [LeadsTo, hd] at hd'
    cases hd'
    simp only [Place.mk.injEq] at hplace
    rw [h] at hplace
    cases hplace.2
  · rfl

/-! ## Larger trees -/

theorem leadsTo_extends (h : t.Extends t') (hd : t.LeadsTo p d) : t'.LeadsTo p d := by
  obtain ⟨hnul, hshort, hwalk⟩ := locate_eq_ok hd
  refine locate_of_walk hnul hshort ?_
  have hstart : t'.start p = t.start p := by
    rw [start, start, h.2]
  rw [hstart]
  exact walk_extends h hwalk

theorem leadsTo_unique {d' : Location} (h : t.LeadsTo p d) (h' : t.LeadsTo p d') : d = d' := by
  rw [LeadsTo, h] at h'
  cases h'
  rfl

/-- A path to a directory is no path to nothing when its last link is not followed. -/
theorem exists_locate_of_leadsTo (h : t.LeadsTo p d) :
    ∃ l n, t.locate false p = .ok ⟨l, some n⟩ := by
  obtain ⟨hnul, hshort, hwalk⟩ := locate_eq_ok h
  by_cases hlink : ∀ l target, walk t false linkLimit (t.start p) p.names ≠
      .ok ⟨l, some (.link target)⟩
  · rw [walk_through hlink] at hwalk
    exact ⟨d, .directory, locate_of_walk hnul hshort hwalk⟩
  · simp only [Classical.not_forall, Classical.not_not] at hlink
    obtain ⟨l, target, hlast⟩ := hlink
    exact ⟨l, .link target, locate_of_walk hnul hshort hlast⟩

theorem leadsTo_of_locate (h : t.locate false p = .ok ⟨d, some .directory⟩) : t.LeadsTo p d := by
  obtain ⟨hnul, hshort, hwalk⟩ := locate_eq_ok h
  refine locate_of_walk hnul hshort ?_
  rw [walk_through (by rw [hwalk]; simp), hwalk]

theorem leadsTo_node (ht : t.Sound) (hp : p.isAbsolute = true) (h : t.LeadsTo p d) :
    t.node? d = some .directory := by
  obtain ⟨_, _, hwalk⟩ := locate_eq_ok h
  rw [start, if_pos hp] at hwalk
  exact walk_node ht rfl hwalk

theorem descends_of_leadsTo (hp : p.isAbsolute = true) (h : t.LeadsTo p d) :
    ∀ n ∈ d, Path.Descends n := by
  obtain ⟨_, _, hwalk⟩ := locate_eq_ok h
  rw [start, if_pos hp] at hwalk
  exact walk_descends (by simp) hwalk

/-- The path of a directory leads to it as long as nothing above it changes. -/
theorem leadsTo_path_of_same (ht : t.Sound) (hsame : ∀ k, k <+: d → t'.node? k = t.node? k)
    (h : t.LeadsTo d.path d) : t'.LeadsTo d.path d := by
  have hd : ∀ n ∈ d, Path.Descends n := descends_of_leadsTo rfl h
  have habove := ht.directories_above (leadsTo_node ht rfl h)
  obtain ⟨hnul, hshort, hwalk⟩ := locate_eq_ok h
  refine locate_of_walk hnul hshort ?_
  have hboth : ∀ links, walk t' true links [] d = walk t true links [] d := by
    intro links
    cases links <;>
    · rw [walk, walk, walkOn_straight hd fun k hk => ?_, walkOn_straight hd habove]
      exact (hsame k hk).trans (habove k hk)
  exact (hboth linkLimit).trans hwalk

end Tree

end FileExchange

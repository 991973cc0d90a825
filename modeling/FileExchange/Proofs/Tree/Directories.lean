import FileExchange.Proofs.Tree.Children
import FileExchange.Tree.Change

/-!
# Making directories

Making a directory with its missing parents adds directories and nothing else. Where it succeeds, the
path leads to a directory that was there before or is new, with new ones above it only.
-/

set_option autoImplicit false

namespace FileExchange.Tree

variable {t t' : Tree} {p : Path} {d l : Location}

/-- New directories at some places, and all else as it was. -/
structure Grown (P : Location → Prop) (t t' : Tree) : Prop where
  nodes : ∀ l, t'.node? l = t.node? l ∨ (t.node? l = none ∧ t'.node? l = some .directory ∧ P l)
  contents : t'.contents = t.contents
  working : t'.workingDirectory = t.workingDirectory

theorem Grown.refl (P : Location → Prop) (t : Tree) : Grown P t t :=
  ⟨fun _ => Or.inl rfl, rfl, rfl⟩

theorem Grown.mono {P Q : Location → Prop} (h : Grown P t t') (hPQ : ∀ l, P l → Q l) :
    Grown Q t t' := by
  refine ⟨fun l => ?_, h.contents, h.working⟩
  rcases h.nodes l with hsame | ⟨hnone, hnew, hP⟩
  · exact Or.inl hsame
  · exact Or.inr ⟨hnone, hnew, hPQ l hP⟩

theorem Grown.trans {P : Location → Prop} {t'' : Tree} (h : Grown P t t') (h' : Grown P t' t'') :
    Grown P t t'' := by
  refine ⟨fun l => ?_, h'.contents.trans h.contents, h'.working.trans h.working⟩
  rcases h'.nodes l with hsame' | ⟨hnone', hnew', hP⟩
  · rw [hsame']
    exact h.nodes l
  · rcases h.nodes l with hsame | ⟨_, hnew, _⟩
    · exact Or.inr ⟨hsame ▸ hnone', hnew', hP⟩
    · rw [hnew] at hnone'
      cases hnone'

theorem Grown.extends {P : Location → Prop} (h : Grown P t t') : t.Extends t' := by
  refine ⟨fun l n hn => ?_, h.working⟩
  rcases h.nodes l with hsame | ⟨hnone, _, _⟩
  · rw [hsame, hn]
  · rw [hnone] at hn
    cases hn

theorem Grown.view {P : Location → Prop} (h : Grown P t t') (l : Location) :
    t'.view l = t.view l ∨ (t.view l = none ∧ t'.view l = some .directory ∧ P l) := by
  have hwhat : Snapshot.whatOf t' = Snapshot.whatOf t := by
    funext n
    cases n with
    | directory => rfl
    | file id => simp only [Snapshot.whatOf, content, h.contents]
    | link target => rfl
  rcases h.nodes l with hsame | ⟨hnone, hnew, hP⟩
  · exact Or.inl (by rw [Tree.view, Tree.view, hsame, hwhat])
  · exact Or.inr ⟨by rw [Tree.view, hnone]; rfl, by rw [Tree.view, hnew]; rfl, hP⟩

/-! ## Putting something where there is nothing -/

theorem extends_put {n : Node} (h : t.node? l = none) : t.Extends (t.put l n) := by
  refine ⟨fun k m hm => ?_, rfl⟩
  have hne : k ≠ l := by
    intro e
    rw [e, h] at hm
    cases hm
  rw [node?_put_of_ne hne, hm]

theorem grown_put {P : Location → Prop} (h : t.node? l = none) (hP : P l) :
    Grown P t (t.put l .directory) := by
  have hl : l ≠ [] := by
    rintro rfl
    cases h
  refine ⟨fun k => ?_, rfl, rfl⟩
  by_cases hk : k = l
  · subst hk
    exact Or.inr ⟨h, node?_put_self hl, hP⟩
  · exact Or.inl (node?_put_of_ne hk)

theorem exists_child (h : p.names ≠ []) : ∃ name ∈ p.names, p = p.parent.child name := by
  refine ⟨p.names.getLast h, List.getLast_mem h, ?_⟩
  simp only [Path.child, Path.parent, List.dropLast_concat_getLast]

section Absent

variable (hp : p.isAbsolute = true) (hdescends : ∀ n ∈ p.names, Path.Descends n)

include hp hdescends

/-- Where there is nothing at the end of a path, there is a directory in front of its last name. -/
theorem locate_eq_none (h : t.locate false p = .ok ⟨l, none⟩) :
    ∃ d name, p = p.parent.child name ∧ t.LeadsTo p.parent d ∧ l = d ++ [name] ∧
      t.node? l = none := by
  by_cases hnames : p.names = []
  · obtain ⟨_, _, hwalk⟩ := locate_eq_ok h
    have hroot : walk t false linkLimit (t.start p) [] = .ok ⟨t.start p, some .directory⟩ := rfl
    rw [hnames, hroot] at hwalk
    cases hwalk
  · obtain ⟨name, hmem, hchild⟩ := exists_child hnames
    rw [hchild] at h
    obtain ⟨d, hd, _, hplace⟩ := locate_child_eq_ok (p := p.parent) hp (hdescends name hmem) h
    simp only [Place.mk.injEq] at hplace
    obtain ⟨rfl, hnode⟩ := hplace
    exact ⟨d, name, hchild, hd, rfl, hnode.symm⟩

/-- What is put where a path led to nothing is what the path leads to then. -/
theorem locate_put {n : Node} (h : t.locate false p = .ok ⟨l, none⟩) :
    (t.put l n).locate false p = .ok ⟨l, some n⟩ := by
  obtain ⟨d, name, hchild, hd, rfl, hnode⟩ := locate_eq_none hp hdescends h
  have hname : Path.Descends name := hdescends name (by rw [hchild]; simp [Path.child])
  rw [hchild] at h ⊢
  obtain ⟨_, _, hnameable, _⟩ := locate_child_eq_ok (p := p.parent) hp hname h
  rw [locate_child hnameable (leadsTo_extends (extends_put hnode) hd), node?_put_self (by simp)]

theorem leadsTo_put (h : t.locate false p = .ok ⟨l, none⟩) : (t.put l .directory).LeadsTo p l :=
  leadsTo_of_locate (locate_put hp hdescends h)

end Absent

theorem not_leadsTo_of_absent (h : t.locate false p = .ok ⟨l, none⟩) (d : Location) :
    ¬ t.LeadsTo p d := by
  intro hd
  obtain ⟨_, _, hlocate⟩ := exists_locate_of_leadsTo hd
  rw [h] at hlocate
  cases hlocate

/-! ## One directory -/

theorem makeDirectory_eq_ok (h : t.makeDirectory p = .ok t') :
    ∃ l, t.locate false p = .ok ⟨l, none⟩ ∧ t' = t.put l .directory := by
  unfold makeDirectory at h
  split at h
  · rename_i l hlocate
    cases h
    exact ⟨l, hlocate, rfl⟩
  · cases h
  · cases h

theorem locate_of_isMissing {e : Failure} (h : t.makeDirectory p = .error e)
    (hmissing : isMissing e = true) : t.locate false p = .error e := by
  unfold makeDirectory at h
  split at h
  · cases h
  · cases h
    cases hmissing
  · rename_i e' hlocate
    cases h
    exact hlocate

theorem isDirectory_of_leadsTo (h : t.LeadsTo p d) : t.isDirectory p = .ok true :=
  answers_of_stat (stat_of_locate h)

theorem acceptExisting_eq_ok {e : Failure} (h : t.acceptExisting p e = .ok t') :
    t' = t ∧ ∃ d, t.LeadsTo p d := by
  unfold acceptExisting at h
  split at h
  · rename_i hdirectory
    cases h
    obtain ⟨d, hlocate⟩ := stat_eq_ok (isDirectory_eq_true.mp hdirectory)
    exact ⟨rfl, d, hlocate⟩
  · cases h
  · cases h

theorem acceptExisting_of_leadsTo {e : Failure} (h : t.LeadsTo p d) : t.acceptExisting p e = .ok t := by
  rw [acceptExisting, isDirectory_of_leadsTo h]

theorem makeDirectory_of_leadsTo (h : t.LeadsTo p d) :
    t.makeDirectory p = failWith .alreadyExists p := by
  obtain ⟨l, n, hlocate⟩ := exists_locate_of_leadsTo h
  rw [makeDirectory, hlocate]

theorem ensureDirectory_of_leadsTo (h : t.LeadsTo p d) : t.ensureDirectory p = .ok t := by
  rw [ensureDirectory, makeDirectory_of_leadsTo h]
  exact acceptExisting_of_leadsTo h

theorem ensureDirectory_eq_ok (h : t.ensureDirectory p = .ok t') :
    (t' = t ∧ ∃ d, t.LeadsTo p d) ∨
      ∃ l, t.locate false p = .ok ⟨l, none⟩ ∧ t' = t.put l .directory := by
  unfold ensureDirectory at h
  split at h
  · rename_i t'' hmake
    cases h
    exact Or.inr (makeDirectory_eq_ok hmake)
  · split at h
    · cases h
    · exact Or.inl (acceptExisting_eq_ok h)

/-! ## Directories with their parents -/

theorem settle_eq_ok {r : Except Failure Tree} (h : settle t r = (.ok (), t')) : r = .ok t' := by
  cases r with
  | ok changed =>
    cases h
    rfl
  | error e => cases h

theorem settle_eq_error {r : Except Failure Tree} {e : Failure} (h : settle t r = (.error e, t')) :
    r = .error e ∧ t' = t := by
  cases r with
  | ok changed => cases h
  | error e' =>
    cases h
    exact ⟨rfl, rfl⟩

theorem descends_parent (h : ∀ n ∈ p.names, Path.Descends n) :
    ∀ n ∈ p.parent.names, Path.Descends n :=
  fun n hn => h n (List.dropLast_subset _ hn)

theorem names_ne_nil_of_isMissing {e : Failure} (h : t.locate false p = .error e)
    (hmissing : isMissing e = true) : p.names ≠ [] := by
  intro hnames
  unfold locate at h
  split at h
  · cases h
    cases hmissing
  · split at h
    · cases h
      cases hmissing
    · have hroot : walk t false linkLimit (t.start p) p.names = .ok ⟨t.start p, some .directory⟩ := by
        rw [hnames]
        rfl
      rw [hroot] at h
      cases h

/-- What making a directory with its parents comes to: it is made alone, or below parents that are made
first, or the parents cannot be made. -/
inductive Ensuring (t : Tree) (p : Path) (depth : Nat) (r : Except Failure Unit × Tree) : Prop
  | alone (hr : r = settle t (t.ensureDirectory p))
  | below (name : String) (hmem : name ∈ p.names) (hchild : p = p.parent.child name) (e : Failure)
      (hlocate : t.locate false p = .error e) (hmissing : isMissing e = true) (t₁ : Tree)
      (hparents : t.ensureWithParents p.parent depth = (.ok (), t₁))
      (hr : r = settle t₁ (t₁.ensureDirectory p))
  | stuck (name : String) (hchild : p = p.parent.child name) (e : Failure) (t₁ : Tree)
      (hparents : t.ensureWithParents p.parent depth = (.error e, t₁)) (hr : r = (.error e, t₁))

theorem ensuring (t : Tree) (p : Path) (depth : Nat) :
    t.Ensuring p depth (t.ensureWithParents p (depth + 1)) := by
  unfold ensureWithParents
  cases hmake : t.makeDirectory p with
  | ok t' => exact .alone (by rw [ensureDirectory, hmake]; rfl)
  | error e =>
    cases hmissing : isMissing e with
    | true =>
      have hlocate := locate_of_isMissing hmake hmissing
      obtain ⟨name, hmem, hchild⟩ := exists_child (names_ne_nil_of_isMissing hlocate hmissing)
      cases hparents : t.ensureWithParents p.parent depth with
      | mk result t₁ =>
        cases result with
        | ok _ => exact .below name hmem hchild e hlocate hmissing t₁ hparents (if_pos hmissing)
        | error e' => exact .stuck name hchild e' t₁ hparents (if_pos hmissing)
    | false =>
      refine .alone ?_
      rw [ensureDirectory, hmake]
      cases hsystem : e.isSystem <;> simp [hmissing, hsystem, settle]

theorem not_prefix_concat (d : Location) (name : String) : ¬ d ++ [name] <+: d := by
  intro h
  have hlen := h.length_le
  rw [List.length_append, List.length_singleton] at hlen
  omega

theorem Grown.node?_below (h : Grown (· <+: d) t t') (ht : t.Sound) (hnone : t.node? d = none)
    (name : String) : t.node? (d ++ [name]) = none ∧ t'.node? (d ++ [name]) = none := by
  have hbelow : t.node? (d ++ [name]) = none := by
    refine Classical.byContradiction fun hne => ?_
    rw [ht.parent d name hne] at hnone
    cases hnone
  refine ⟨hbelow, ?_⟩
  rcases h.nodes (d ++ [name]) with hsame | ⟨_, _, hprefix⟩
  · rw [hsame, hbelow]
  · exact absurd hprefix (not_prefix_concat d name)

/-- In a directory that is new a directory can only be made, not found. -/
theorem ensureDirectory_below {t₁ : Tree} (ht : t.Sound) (hp : p.isAbsolute = true)
    (hdescends : ∀ n ∈ p.names, Path.Descends n) {name : String} (hmem : name ∈ p.names)
    (hchild : p = p.parent.child name) (hd : t₁.LeadsTo p.parent d) (hnone : t.node? d = none)
    (hgrown : Grown (· <+: d) t t₁) (h : t₁.ensureDirectory p = .ok t') :
    ∃ l, t'.LeadsTo p l ∧ t.node? l = none ∧ Grown (· <+: l) t t' := by
  obtain ⟨hbelow, hbelow'⟩ := hgrown.node?_below ht hnone name
  rcases ensureDirectory_eq_ok h with ⟨rfl, d', hd'⟩ | ⟨l, hlocate, rfl⟩
  · exfalso
    obtain ⟨l, n, hlocate⟩ := exists_locate_of_leadsTo hd'
    rw [hchild] at hlocate
    obtain ⟨d'', hd'', _, hplace⟩ :=
      locate_child_eq_ok (p := p.parent) hp (hdescends name hmem) hlocate
    cases leadsTo_unique hd hd''
    simp only [Place.mk.injEq] at hplace
    rw [hbelow'] at hplace
    cases hplace.2
  · have hlocate' := hlocate
    rw [hchild] at hlocate'
    obtain ⟨d'', hd'', _, hplace⟩ :=
      locate_child_eq_ok (p := p.parent) hp (hdescends name hmem) hlocate'
    cases leadsTo_unique hd hd''
    simp only [Place.mk.injEq] at hplace
    obtain ⟨rfl, _⟩ := hplace
    refine ⟨_, leadsTo_put hp hdescends hlocate, hbelow, ?_⟩
    have habove : Grown (· <+: d ++ [name]) t t₁ :=
      hgrown.mono fun l hl => hl.trans (List.prefix_append d [name])
    exact habove.trans (grown_put hbelow' (List.prefix_refl _))

/-- Where it succeeds, the path leads to a directory: one that was there, with nothing changed at all,
or a new one to which it did not lead before. -/
theorem ensureWithParents_eq_ok (ht : t.Sound) (hp : p.isAbsolute = true)
    (hdescends : ∀ n ∈ p.names, Path.Descends n) {depth : Nat}
    (h : t.ensureWithParents p depth = (.ok (), t')) :
    ∃ d, t'.LeadsTo p d ∧
      (t' = t ∨ t.node? d = none ∧ (∀ d', ¬ t.LeadsTo p d') ∧ Grown (· <+: d) t t') := by
  have halone : ∀ {p : Path} {t' : Tree}, p.isAbsolute = true → (∀ n ∈ p.names, Path.Descends n) →
      (.ok (), t') = settle t (t.ensureDirectory p) → ∃ d, t'.LeadsTo p d ∧
        (t' = t ∨ t.node? d = none ∧ (∀ d', ¬ t.LeadsTo p d') ∧ Grown (· <+: d) t t') := by
    intro p t' hp hdescends h
    rcases ensureDirectory_eq_ok (settle_eq_ok h.symm) with ⟨rfl, d, hd⟩ | ⟨l, hlocate, rfl⟩
    · exact ⟨d, hd, Or.inl rfl⟩
    · obtain ⟨_, _, _, _, _, hnode⟩ := locate_eq_none hp hdescends hlocate
      exact ⟨l, leadsTo_put hp hdescends hlocate, Or.inr ⟨hnode, not_leadsTo_of_absent hlocate,
        grown_put hnode (List.prefix_refl l)⟩⟩
  induction depth generalizing p t' with
  | zero => exact halone hp hdescends h.symm
  | succ depth ih =>
    cases h ▸ t.ensuring p depth with
    | alone hr => exact halone hp hdescends hr
    | below name hmem hchild e hlocate hmissing t₁ hparents hr =>
      obtain ⟨d₁, hd₁, hfresh⟩ := ih (p := p.parent) hp (descends_parent hdescends) hparents
      rcases hfresh with rfl | ⟨hnone, hnot, hgrown⟩
      -- the parent cannot have been there before, since the first lookup missed it
      · exfalso
        rw [hchild] at hlocate
        rcases locate_child_error (hdescends name hmem) hd₁ hlocate with rfl | rfl <;> cases hmissing
      · obtain ⟨l, hl, hnone', hgrown'⟩ :=
          ensureDirectory_below ht hp hdescends hmem hchild hd₁ hnone hgrown (settle_eq_ok hr.symm)
        refine ⟨l, hl, Or.inr ⟨hnone', fun d' hd' => ?_, hgrown'⟩⟩
        rw [hchild] at hd'
        obtain ⟨d'', hd''⟩ := leadsTo_of_child (p := p.parent) hp hd'
        exact hnot d'' hd''
    | stuck name hchild e t₁ hparents hr => cases hr

/-- What putting a directory where there is nothing preserves, making directories preserves. -/
theorem ensureWithParents_invariant {P : Tree → Prop}
    (hput : ∀ t p l, P t → p.isAbsolute = true → (∀ n ∈ p.names, Path.Descends n) →
      t.locate false p = .ok ⟨l, none⟩ → P (t.put l .directory))
    (ht : P t) (hp : p.isAbsolute = true) (hdescends : ∀ n ∈ p.names, Path.Descends n) (depth : Nat) :
    P (t.ensureWithParents p depth).2 := by
  have hsettle : ∀ t p, P t → p.isAbsolute = true → (∀ n ∈ p.names, Path.Descends n) →
      P (settle t (t.ensureDirectory p)).2 := by
    intro t p ht hp hdescends
    cases hensure : t.ensureDirectory p with
    | error e => exact ht
    | ok t' =>
      rcases ensureDirectory_eq_ok hensure with ⟨rfl, _⟩ | ⟨l, hlocate, rfl⟩
      · exact ht
      · exact hput t p l ht hp hdescends hlocate
  induction depth generalizing p with
  | zero => exact hsettle t p ht hp hdescends
  | succ depth ih =>
    have hparents := ih (p := p.parent) hp (descends_parent hdescends)
    cases t.ensuring p depth with
    | alone hr =>
      rw [hr]
      exact hsettle t p ht hp hdescends
    | below name hmem hchild e hlocate hmissing t₁ hensure hr =>
      rw [hensure] at hparents
      rw [hr]
      exact hsettle t₁ p hparents hp hdescends
    | stuck name hchild e t₁ hensure hr =>
      rw [hensure] at hparents
      rw [hr]
      exact hparents

/-- Whatever comes of it, there are new directories at most. -/
theorem grown_ensureWithParents (hp : p.isAbsolute = true)
    (hdescends : ∀ n ∈ p.names, Path.Descends n) (depth : Nat) :
    Grown (fun _ => True) t (t.ensureWithParents p depth).2 := by
  refine ensureWithParents_invariant ?_ (.refl _ t) hp hdescends depth
  intro t' p l hgrown hp hdescends hlocate
  obtain ⟨_, _, _, _, _, hnode⟩ := locate_eq_none hp hdescends hlocate
  exact hgrown.trans (grown_put hnode trivial)

theorem Sound.ensureWithParents (ht : t.Sound) (hp : p.isAbsolute = true)
    (hdescends : ∀ n ∈ p.names, Path.Descends n) (depth : Nat) :
    (t.ensureWithParents p depth).2.Sound := by
  refine ensureWithParents_invariant ?_ ht hp hdescends depth
  intro t p l ht hp hdescends hlocate
  obtain ⟨d, name, _, hd, rfl, _⟩ := locate_eq_none hp hdescends hlocate
  refine ht.put (leadsTo_node (p := p.parent) ht hp hd) (Or.inl rfl) fun id hid => ?_
  cases hid

theorem not_leadsTo_of_ensureWithParents_error (hp : p.isAbsolute = true) {depth : Nat} {e : Failure}
    (h : t.ensureWithParents p depth = (.error e, t')) (d : Location) : ¬ t'.LeadsTo p d := by
  have hsettle : ∀ {t₁ : Tree} {p : Path} {e : Failure} {t' : Tree},
      (.error e, t') = settle t₁ (t₁.ensureDirectory p) → ∀ d, ¬ t'.LeadsTo p d := by
    intro t₁ p e t' h d hd
    obtain ⟨hensure, rfl⟩ := settle_eq_error h.symm
    rw [ensureDirectory_of_leadsTo hd] at hensure
    cases hensure
  induction depth generalizing p e t' d with
  | zero => exact hsettle h.symm d
  | succ depth ih =>
    cases h ▸ t.ensuring p depth with
    | alone hr => exact hsettle hr d
    | below name hmem hchild e' hlocate hmissing t₁ hparents hr => exact hsettle hr d
    | stuck name hchild e' t₁ hparents hr =>
      cases hr
      intro hd
      rw [hchild] at hd
      obtain ⟨d', hd'⟩ := leadsTo_of_child (p := p.parent) hp hd
      exact ih (p := p.parent) hp hparents d' hd'

/-! ## A directory that is there afterwards -/

/-- A path leads to a directory that was there before, or that is new with all that is above it and
was missing. -/
structure Ensured (t t' : Tree) (p : Path) (d : Location) : Prop where
  leadsTo : t'.LeadsTo p d
  sound : t'.Sound
  change : t' = t ∨ t.node? d = none ∧ (∀ d', ¬ t.LeadsTo p d') ∧ Grown (· <+: d) t t'

theorem ensured_of_ensureDirectories (ht : t.Sound) (hp : p.isAbsolute = true)
    (hdescends : ∀ n ∈ p.names, Path.Descends n) (h : t.ensureDirectories p = (.ok (), t')) :
    ∃ d, Ensured t t' p d := by
  obtain ⟨d, hd, hchange⟩ := ensureWithParents_eq_ok ht hp hdescends h
  have hsound := ht.ensureWithParents hp hdescends p.names.length
  rw [show t.ensureWithParents p p.names.length = (.ok (), t') from h] at hsound
  exact ⟨d, hd, hsound, hchange⟩

theorem Ensured.grown (h : Ensured t t' p d) : Grown (· <+: d) t t' := by
  rcases h.change with rfl | ⟨_, _, hgrown⟩
  · exact .refl _ _
  · exact hgrown

theorem Ensured.node?_child {name : String} (h : Ensured t t' p d) :
    t'.node? (d ++ [name]) = t.node? (d ++ [name]) := by
  rcases h.grown.nodes (d ++ [name]) with hsame | ⟨_, _, hprefix⟩
  · exact hsame
  · exact absurd hprefix (not_prefix_concat d name)

theorem Ensured.look?_child {name : String} (h : Ensured t t' p d) (ht : t.Sound)
    (hp : p.isAbsolute = true) (hname : Path.Descends name) :
    t'.look? (p.child name) = t.look? (p.child name) := by
  rcases h.change with rfl | ⟨hnone, hnot, hgrown⟩
  · rfl
  · rw [look?_child_of_not_leadsTo hp hname hnot,
      look?_child_of_absent hp hname h.leadsTo (hgrown.node?_below ht hnone name).2]

theorem look?_child_of_ensureDirectories_error {name : String} {e : Failure}
    (hp : p.isAbsolute = true) (hdescends : ∀ n ∈ p.names, Path.Descends n)
    (hname : Path.Descends name) (h : t.ensureDirectories p = (.error e, t')) :
    t'.look? (p.child name) = t.look? (p.child name) := by
  have hnot := not_leadsTo_of_ensureWithParents_error hp h
  have hgrown := grown_ensureWithParents (t := t) hp hdescends p.names.length
  rw [show t.ensureWithParents p p.names.length = (.error e, t') from h] at hgrown
  rw [look?_child_of_not_leadsTo hp hname hnot,
    look?_child_of_not_leadsTo hp hname fun d hd => hnot d (leadsTo_extends hgrown.extends hd)]

end FileExchange.Tree

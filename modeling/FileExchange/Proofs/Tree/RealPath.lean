import FileExchange.Proofs.Tree.Lookup
import FileExchange.Proofs.Tree.Loops
import FileExchange.Proofs.Tree.Places

/-!
# Real paths

A real path starts at the root and has plain names only, whether following ended at a place or in a
loop.
-/

set_option autoImplicit false

namespace FileExchange.Tree

theorem realPath_eq (t : Tree) (p : Path) :
    t.realPath p = match t.following p with
      | .reached l => .ok l.path
      | .looped text => .ok (collapse (Path.ofString text))
      | .refused => .error .embeddedNul := rfl

variable {t : Tree} {p q : Path}

theorem realPath_of_reached {l : Location} (h : t.following p = .reached l) : t.realPath p = .ok l.path := by
  rw [realPath_eq, h]

theorem realPath_of_looped {text : String} (h : t.following p = .looped text) :
    t.realPath p = .ok (collapse (Path.ofString text)) := by
  rw [realPath_eq, h]

theorem confirm_eq_ok {found : Except Failure Node} (h : confirm p found = .ok q) :
    q = p ∧ found ≠ .error .embeddedNul := by
  unfold confirm at h
  split at h
  · cases h
  · cases h
  · rename_i hfound
    exact ⟨(Except.ok.inj h).symm, hfound⟩

theorem resolve_eq_ok (h : t.resolve p = .ok q) : t.realPath p = .ok q ∧ hasNul q.text = false := by
  unfold resolve at h
  split at h
  · rename_i real hreal
    obtain ⟨rfl, hfound⟩ := confirm_eq_ok h
    refine ⟨hreal, Bool.eq_false_iff.mpr fun hnul => hfound (stat_of_hasNul hnul)⟩
  · cases h

theorem resolve_of_stat {n : Node} (hreal : t.realPath p = .ok q) (h : t.stat q = .ok n) : t.resolve p = .ok q := by
  simp only [resolve, hreal, confirm, h]

theorem isAbsolute_realPath (h : t.realPath p = .ok q) : q.isAbsolute = true := by
  rw [realPath_eq] at h
  split at h
  · cases h
    rfl
  · rename_i text hfollow
    cases h
    have habsolute := follow_looped_absolute hfollow
    obtain ⟨cs, hcs⟩ := List.head?_eq_some_iff.mp (by simpa [isAbsoluteText] using habsolute)
    have hanchor : Path.anchorOf text.toList ≠ .relative := by
      rw [hcs, Path.anchorOf]
      simp only [beq_self_eq_true, List.takeWhile_cons_of_pos, List.length_cons]
      split
      · omega
      · simp
      · simp
    simpa [collapse, Path.ofString, Path.isAbsolute] using hanchor
  · cases h

theorem isAbsolute_of_resolve (h : t.resolve p = .ok q) : q.isAbsolute = true :=
  isAbsolute_realPath (resolve_eq_ok h).1

theorem realPath_isPlain (hstart : ∀ n ∈ t.start p, Path.IsPlain n) (hnames : ∀ n ∈ p.names, '/' ∉ n.toList)
    (h : t.realPath p = .ok q) : ∀ n ∈ q.names, Path.IsPlain n := by
  rw [realPath_eq] at h
  split at h
  · rename_i l hfollow
    cases h
    exact isPlain_of_follow hstart hnames hfollow
  · cases h
    exact fun n hn => isPlain_of_mem_collapse hn
  · cases h

theorem resolve_isPlain (hstart : ∀ n ∈ t.start p, Path.IsPlain n) (hnames : ∀ n ∈ p.names, '/' ∉ n.toList)
    (h : t.resolve p = .ok q) : ∀ n ∈ q.names, Path.IsPlain n :=
  realPath_isPlain hstart hnames (resolve_eq_ok h).1

theorem start_of_isAbsolute (h : p.isAbsolute = true) : t.start p = [] := by
  rw [start, if_pos h]

/-! ## Trees without loops -/

/-- No path runs into a loop of links. -/
def Loopless (t : Tree) : Prop :=
  ∀ p text, t.following p ≠ .looped text

/-- Names run into no loop where no link on the way does. -/
theorem followOn_ne_looped {t : Tree} {enter : Location → Location → List String → Resolution}
    (henter : ∀ here name target text, t.linkAt? (here ++ [name]) = some target →
      enter (here ++ [name]) (linkStart here target) (Text.splitText '/' target) ≠ .looped text)
    {here : Location} {names : List String} (text : String) : followOn t enter here names ≠ .looped text := by
  induction names generalizing here with
  | nil => simp [followOn]
  | cons name rest ih =>
    rw [followOn]
    split
    · exact ih
    · split
      · exact ih
      · dsimp only
        split
        · exact Resolution.noConfusion
        · split
          · exact ih
          · rename_i target hlink
            split
            · rename_i looped hentered
              exact absurd hentered (henter here name target looped hlink)
            · exact Resolution.noConfusion
            · exact ih

def Resolution.ends : Resolution → Bool
  | .reached _ => true
  | .looped _ => false
  | .refused => true

/-- Following any one of the links comes to an end. -/
def linksEnd (t : Tree) : Bool :=
  t.nodes.all fun (l, n) => match n with
    | .link target =>
      (follow t t.linkCount [l] (linkStart l.dropLast target) (Text.splitText '/' target)).ends
    | _ => true

theorem loopless_of_linksEnd {t : Tree} (h : t.linksEnd = true) : t.Loopless := by
  intro p text
  refine followOn_ne_looped (fun here name target text hlink => ?_) text
  have hnode : t.node? (here ++ [name]) = some (.link target) := by
    unfold linkAt? at hlink
    split at hlink
    · rename_i target' hnode
      split at hlink
      · cases hlink
      · cases hlink
        exact hnode
    · cases hlink
  have hended := List.all_eq_true.mp h _ (mem_nodes (by simp) hnode)
  simp only [List.dropLast_concat] at hended
  intro hlooped
  have hentered : follow t t.linkCount [here ++ [name]] (linkStart here target) (Text.splitText '/' target) =
      .looped text := hlooped
  rw [hentered] at hended
  cases hended

/-- Where there is no loop a path has a real path, with no link on it, unless a NUL stands in the way. -/
theorem Loopless.resolve (h : t.Loopless) (hp : p.isAbsolute = true) :
    (∃ l : Location, t.resolve p = .ok l.path ∧ t.IsReal l) ∨ t.resolve p = .error .embeddedNul := by
  cases hfollow : t.following p with
  | looped text => exact absurd hfollow (h p text)
  | refused => exact Or.inr (by rw [Tree.resolve, realPath_eq, hfollow])
  | reached l =>
    have hreal : t.IsReal l := by
      rw [following, start_of_isAbsolute hp] at hfollow
      exact isReal_of_follow (isReal_root t) hfollow
    rw [Tree.resolve, realPath_of_reached hfollow]
    dsimp only [confirm]
    split
    · rename_i texts hstat
      exact absurd hstat (stat_real_ne hreal texts)
    · exact Or.inr rfl
    · exact Or.inl ⟨l, rfl, hreal⟩

end FileExchange.Tree

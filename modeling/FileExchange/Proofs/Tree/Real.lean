import FileExchange.Proofs.Tree.Lookup
import FileExchange.Tree.Resolve

/-!
# Real places

Following the links of a path ends at a place that no link stands on the way to, unless it ends in a loop or at a
name that cannot be looked at. The operating system, given the path of such a place, ends up
at that place and nowhere else.
-/

set_option autoImplicit false

namespace FileExchange.Tree

/-- What following all links of a path comes to. -/
def following (t : Tree) (p : Path) : Resolution :=
  follow t (t.linkCount + 1) [] (t.start p) p.names

/-- A place with no link on the way to it that can be looked at. -/
def IsReal (t : Tree) (l : Location) : Prop :=
  (∀ k, k <+: l → t.linkAt? k = none) ∧ ∀ n ∈ l, n ≠ "." ∧ n ≠ ".."

/-! ## The first name to follow -/

/-- What the first name does when names are followed: they are followed from some place on, or there is
a loop or a name with a NUL and they are not followed at all. -/
inductive FollowsFirst (t : Tree) (enter : Location → Location → List String → Resolution)
    (here : Location) (name : String) : Prop
  | stay (hrest : ∀ rest, followOn t enter here (name :: rest) = followOn t enter here rest)
  | up (hrest : ∀ rest, followOn t enter here (name :: rest) = followOn t enter here.dropLast rest)
  | down (hname : name ≠ "" ∧ name ≠ "." ∧ name ≠ "..") (hnul : hasNul name = false)
      (hlink : t.linkAt? (here ++ [name]) = none)
      (hrest : ∀ rest,
        followOn t enter here (name :: rest) = followOn t enter (here ++ [name]) rest)
  | through (target : String) (l : Location)
      (henter : enter (here ++ [name]) (linkStart here target) (Text.splitText '/' target) =
        .reached l)
      (hrest : ∀ rest, followOn t enter here (name :: rest) = followOn t enter l rest)
  | loop (target text : String)
      (henter : enter (here ++ [name]) (linkStart here target) (Text.splitText '/' target) =
        .looped text)
      (hrest : ∀ rest, followOn t enter here (name :: rest) = .looped (joinTextually text rest))
  | refuse (hrest : ∀ rest, followOn t enter here (name :: rest) = .refused)

theorem followOn_down {t : Tree} {enter : Location → Location → List String → Resolution}
    {here : Location} {name : String} (hname : name ≠ "" ∧ name ≠ "." ∧ name ≠ "..")
    (hnul : hasNul name = false)
    (hlink : t.linkAt? (here ++ [name]) = none) (rest : List String) :
    followOn t enter here (name :: rest) = followOn t enter (here ++ [name]) rest := by
  have hstay : ¬ (name == "" || name == ".") = true := by simp [hname]
  have hup : ¬ (name == "..") = true := by simp [hname]
  rw [followOn, if_neg hstay, if_neg hup, if_neg (by simp [hnul])]
  simp only [hlink]

theorem followOn_refused {t : Tree} {enter : Location → Location → List String → Resolution}
    {here : Location} {name : String} (hname : name ≠ "" ∧ name ≠ "." ∧ name ≠ "..")
    (hnul : hasNul name = true)
    (rest : List String) : followOn t enter here (name :: rest) = .refused := by
  have hstay : ¬ (name == "" || name == ".") = true := by simp [hname]
  have hup : ¬ (name == "..") = true := by simp [hname]
  rw [followOn, if_neg hstay, if_neg hup, if_pos hnul]

theorem followsFirst (t : Tree) (enter : Location → Location → List String → Resolution)
    (here : Location) (name : String) : t.FollowsFirst enter here name := by
  by_cases hstay : (name == "" || name == ".") = true
  · exact .stay fun rest => by rw [followOn, if_pos hstay]
  by_cases hup : (name == "..") = true
  · exact .up fun rest => by rw [followOn, if_neg hstay, if_pos hup]
  have hname : name ≠ "" ∧ name ≠ "." ∧ name ≠ ".." := by
    simp only [Bool.or_eq_true, beq_iff_eq, not_or] at hstay hup
    exact ⟨hstay.1, hstay.2, hup⟩
  by_cases hnul : hasNul name = true
  · exact .refuse (followOn_refused hname hnul)
  cases hlink : t.linkAt? (here ++ [name]) with
  | none => exact .down hname (by simpa using hnul) hlink (followOn_down hname (by simpa using hnul) hlink)
  | some target =>
    cases henter : enter (here ++ [name]) (linkStart here target) (Text.splitText '/' target) with
    | reached l =>
      refine .through target l henter fun rest => ?_
      rw [followOn, if_neg hstay, if_neg hup, if_neg hnul]
      simp only [hlink, henter]
    | looped text =>
      refine .loop target text henter fun rest => ?_
      rw [followOn, if_neg hstay, if_neg hup, if_neg hnul]
      simp only [hlink, henter]
    | refused =>
      refine .refuse fun rest => ?_
      rw [followOn, if_neg hstay, if_neg hup, if_neg hnul]
      simp only [hlink, henter]

/-! ## What following keeps -/

section Invariant

variable {t : Tree} {P : Location → Prop} {Q : String → Prop}

/-- One pass over the names keeps what holds of the root, of parents and of children that are no
links, provided that entering a link keeps it. -/
theorem followOn_invariant {enter : Location → Location → List String → Resolution} (hroot : P [])
    (hup : ∀ l, P l → P l.dropLast)
    (hdown : ∀ l n, P l → Q n → n ≠ "" → n ≠ "." → n ≠ ".." → hasNul n = false →
      t.linkAt? (l ++ [n]) = none →
      P (l ++ [n]))
    (htarget : ∀ target, ∀ n ∈ Text.splitText '/' target, Q n)
    (henter : ∀ link start names l, P start → (∀ n ∈ names, Q n) →
      enter link start names = .reached l → P l)
    {names : List String} {here l : Location} (hhere : P here) (hnames : ∀ n ∈ names, Q n)
    (h : followOn t enter here names = .reached l) : P l := by
  induction names generalizing here with
  | nil =>
    simp only [followOn, Resolution.reached.injEq] at h
    exact h ▸ hhere
  | cons name rest ih =>
    have hmore : ∀ n ∈ rest, Q n := fun n hn => hnames n (List.mem_cons_of_mem name hn)
    cases t.followsFirst enter here name with
    | stay hrest =>
      rw [hrest] at h
      exact ih hhere hmore h
    | up hrest =>
      rw [hrest] at h
      exact ih (hup here hhere) hmore h
    | down hname hnul hlink hrest =>
      rw [hrest] at h
      have hchild := hdown here name hhere (hnames name (by simp)) hname.1 hname.2.1 hname.2.2 hnul hlink
      exact ih hchild hmore h
    | through target l' hentered hrest =>
      rw [hrest] at h
      have hstart : P (linkStart here target) := by
        unfold linkStart
        split
        · exact hroot
        · exact hhere
      exact ih (henter _ _ _ l' hstart (htarget target) hentered) hmore h
    | loop target text hentered hrest =>
      rw [hrest] at h
      cases h
    | refuse hrest =>
      rw [hrest] at h
      cases h

theorem follow_invariant (hroot : P []) (hup : ∀ l, P l → P l.dropLast)
    (hdown : ∀ l n, P l → Q n → n ≠ "" → n ≠ "." → n ≠ ".." → hasNul n = false →
      t.linkAt? (l ++ [n]) = none →
      P (l ++ [n]))
    (htarget : ∀ target, ∀ n ∈ Text.splitText '/' target, Q n)
    {depth : Nat} {active : List Location} {names : List String} {here l : Location}
    (hhere : P here) (hnames : ∀ n ∈ names, Q n)
    (h : follow t depth active here names = .reached l) : P l := by
  induction depth generalizing active here names l with
  | zero =>
    refine followOn_invariant hroot hup hdown htarget ?_ hhere hnames h
    intro link start names l _ _ hentered
    cases hentered
  | succ depth ih =>
    refine followOn_invariant hroot hup hdown htarget ?_ hhere hnames h
    intro link start names l hstart hnames hentered
    split at hentered
    · cases hentered
    · exact ih hstart hnames hentered

end Invariant

/-! ## Following ends at real places -/

theorem isReal_root (t : Tree) : t.IsReal [] := by
  refine ⟨fun k hk => ?_, by simp⟩
  rw [List.prefix_nil.mp hk]
  rfl

theorem IsReal.dropLast {t : Tree} {l : Location} (h : t.IsReal l) : t.IsReal l.dropLast :=
  ⟨fun k hk => h.1 k (hk.trans (List.dropLast_prefix l)),
    fun n hn => h.2 n (List.dropLast_subset l hn)⟩

theorem IsReal.child {t : Tree} {l : Location} {name : String} (h : t.IsReal l) (hdot : name ≠ ".")
    (hdots : name ≠ "..") (hlink : t.linkAt? (l ++ [name]) = none) : t.IsReal (l ++ [name]) := by
  refine ⟨fun k hk => ?_, fun n hn => ?_⟩
  · rcases List.prefix_concat_iff.mp hk with rfl | hk
    · exact hlink
    · exact h.1 k hk
  · rcases List.mem_append.mp hn with hn | hn
    · exact h.2 n hn
    · rw [List.mem_singleton.mp hn]
      exact ⟨hdot, hdots⟩

theorem isReal_of_follow {t : Tree} {depth : Nat} {active : List Location} {names : List String}
    {here l : Location} (hhere : t.IsReal here)
    (h : follow t depth active here names = .reached l) : t.IsReal l :=
  follow_invariant (Q := fun _ => True) (isReal_root t) (fun _ hl => hl.dropLast)
    (fun _ _ hl _ _ hdot hdots _ hlink => hl.child hdot hdots hlink) (fun _ _ _ => trivial) hhere
    (fun _ _ => trivial) h

theorem isPlain_of_follow {t : Tree} {depth : Nat} {active : List Location} {names : List String}
    {here l : Location} (hhere : ∀ n ∈ here, Path.IsPlain n) (hnames : ∀ n ∈ names, '/' ∉ n.toList)
    (h : follow t depth active here names = .reached l) : ∀ n ∈ l, Path.IsPlain n := by
  refine follow_invariant (P := fun l => ∀ n ∈ l, Path.IsPlain n) (Q := fun n => '/' ∉ n.toList)
    (by simp) (fun l hl n hn => hl n (List.dropLast_subset l hn)) ?_
    (fun _ _ => Text.notMem_of_mem_splitText) hhere hnames h
  intro l name hl hslash hne hdot hdots _ _ n hn
  rcases List.mem_append.mp hn with hn | hn
  · exact hl n hn
  · rw [List.mem_singleton.mp hn]
    exact ⟨⟨hne, hdot, hslash⟩, hdots⟩

/-- The names of the place that following ends at have been looked at. -/
theorem hasNul_of_follow {t : Tree} {depth : Nat} {active : List Location} {names : List String}
    {here l : Location} (hhere : ∀ n ∈ here, hasNul n = false)
    (h : follow t depth active here names = .reached l) : ∀ n ∈ l, hasNul n = false := by
  refine follow_invariant (P := fun l => ∀ n ∈ l, hasNul n = false) (Q := fun _ => True) (by simp)
    (fun l hl n hn => hl n (List.dropLast_subset l hn)) ?_ (fun _ _ _ => trivial) hhere (fun _ _ => trivial) h
  intro l name hl _ _ _ _ hnul _ n hn
  rcases List.mem_append.mp hn with hn | hn
  · exact hl n hn
  · rw [List.mem_singleton.mp hn]
    exact hnul

/-! ## Looking up real places -/

theorem text_size_le {k l : Location} (h : k <+: l) :
    k.text.utf8ByteSize ≤ l.text.utf8ByteSize := by
  have hsize : ∀ a : String, ∀ m : List String, (Location.text (a :: m)).utf8ByteSize =
      ((a :: m).map fun n => n.utf8ByteSize + 1).sum := by
    intro a m
    rw [Location.text, Path.text_of_isAbsolute rfl, String.utf8ByteSize_append, ← Path.size_joinTexts]
    exact Nat.add_comm 1 _
  obtain ⟨rest, rfl⟩ := h
  cases k with
  | nil =>
    have hroot : (Location.text []).utf8ByteSize = 1 := by decide +kernel
    cases rest with
    | nil => exact Nat.le_refl _
    | cons a m =>
      rw [List.nil_append, hroot, hsize, List.map_cons, List.sum_cons]
      omega
  | cons a m =>
    rw [List.cons_append, hsize, hsize, ← List.cons_append, List.map_append, List.sum_append]
    omega

/-- On the way to a real place that is not too long to be looked at stands no link. -/
theorem IsReal.node?_ne_link {t : Tree} {k l : Location} (h : t.IsReal l) (hk : k <+: l)
    (hshort : isPathTooLong l.text = false) (target : String) : t.node? k ≠ some (.link target) := by
  intro hnode
  have hlink := h.1 k hk
  have hle := text_size_le hk
  have hlong : isPathTooLong k.text = false := by
    simp only [isPathTooLong, decide_eq_false_iff_not] at hshort ⊢
    omega
  simp [linkAt?, hnode, hlong] at hlink

/-- Names that lead to a real place lead there without a jump, or a name on the way leads nowhere. -/
theorem walkOn_real {t : Tree} {through : Bool} {l : Location}
    {jump : Location → List String → Except Errno Place} (h : t.IsReal l)
    (hshort : isPathTooLong l.text = false) {here : Location} {rest : List String}
    (hl : here ++ rest = l) (hhere : t.node? here = some .directory) :
    walkOn t through jump here rest = .ok ⟨l, t.node? l⟩ ∨
      ∃ errno, errno ≠ .tooManyLinks ∧ walkOn t through jump here rest = .error errno := by
  induction rest generalizing here with
  | nil =>
    rw [List.append_nil] at hl
    rw [walkOn, ← hl, hhere]
    exact Or.inl rfl
  | cons name rest ih =>
    have hnext : here ++ [name] ++ rest = l := by simpa using hl
    have hname := h.2 name (by simp [← hl])
    have hend : rest.isEmpty = true → here ++ [name] = l := by
      intro hrest
      rwa [List.isEmpty_iff.mp hrest, List.append_nil] at hnext
    -- A node that is no directory ends the walk, so that no name is left.
    cases t.firstName here name with
    | dot => exact absurd rfl hname.1
    | dots => exact absurd rfl hname.2
    | long _ hname hlong => exact Or.inr ⟨.nameTooLong, by simp, walkOn_long hname hlong⟩
    | missing _ hname hshort hnode =>
      rw [walkOn_missing hname hshort hnode]
      split
      · rename_i hrest
        exact Or.inl (by rw [← hend hrest, hnode])
      · exact Or.inr ⟨.noEntry, by simp, rfl⟩
    | directory _ hname hshort hnode =>
      rw [walkOn_directory hname hshort hnode]
      exact ih hnext hnode
    | file _ hname hshort id hnode =>
      rw [walkOn_file hname hshort hnode]
      split
      · rename_i hrest
        exact Or.inl (by rw [← hend hrest, hnode])
      · exact Or.inr ⟨.notDirectory, by simp, rfl⟩
    | link _ _ _ target hnode => exact absurd hnode (h.node?_ne_link ⟨rest, hnext⟩ hshort target)

theorem walk_real {t : Tree} {through : Bool} {links : Nat} {l : Location} (h : t.IsReal l)
    (hshort : isPathTooLong l.text = false) :
    walk t through links [] l = .ok ⟨l, t.node? l⟩ ∨
      ∃ errno, errno ≠ .tooManyLinks ∧ walk t through links [] l = .error errno := by
  cases links <;> exact walkOn_real h hshort rfl rfl

/-- The path of a real place leads there or is at fault, but never for want of links. -/
theorem locate_real_cases {t : Tree} {through : Bool} {l : Location} (h : t.IsReal l) :
    t.locate through l.path = .ok ⟨l, t.node? l⟩ ∨
      ∃ e, (∀ texts, e ≠ .system (.coded .tooManyLinks texts)) ∧ t.locate through l.path = .error e := by
  unfold locate
  split
  · exact Or.inr ⟨.embeddedNul, by simp, rfl⟩
  · split
    · exact Or.inr ⟨.system (.coded .nameTooLong [l.path.text]), by simp, rfl⟩
    · rename_i hlong
      have hshort : isPathTooLong l.text = false := by simpa [Location.text] using hlong
      have hstart : walk t through linkLimit (t.start l.path) l.path.names = walk t through linkLimit [] l := rfl
      rw [hstart]
      rcases walk_real h hshort with hreal | ⟨errno, hne, herror⟩
      · rw [hreal]
        exact Or.inl rfl
      · rw [herror]
        exact Or.inr ⟨.system (.coded errno [l.path.text]), by simp [hne], rfl⟩

theorem locate_real {t : Tree} {through : Bool} {l : Location} {place : Place} (h : t.IsReal l)
    (hlocate : t.locate through l.path = .ok place) : place = ⟨l, t.node? l⟩ := by
  rcases locate_real_cases h with hreal | ⟨e, _, herror⟩
  · exact Except.ok.inj (hlocate.symm.trans hreal)
  · cases hlocate.symm.trans herror

theorem stat_real_ne {t : Tree} {l : Location} (h : t.IsReal l) (texts : List String) :
    t.stat l.path ≠ .error (.system (.coded .tooManyLinks texts)) := by
  intro hstat
  rw [stat] at hstat
  rcases locate_real_cases h with hreal | ⟨e, hne, herror⟩
  · rw [hreal] at hstat
    cases hnode : t.node? l with
    | none =>
      rw [hnode] at hstat
      cases hstat
    | some n =>
      rw [hnode] at hstat
      cases hstat
  · rw [herror] at hstat
    exact hne texts (Except.error.inj hstat)

end FileExchange.Tree

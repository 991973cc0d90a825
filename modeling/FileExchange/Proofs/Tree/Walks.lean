import FileExchange.Proofs.Tree.Lookup
import FileExchange.Proofs.Tree.Places

/-!
# Walks

A walk by names and one name more is a walk by the names and a look at the child of that name. What a
walk has found it still finds when something is put where there was nothing.
-/

set_option autoImplicit false

namespace FileExchange.Tree

variable {t : Tree}

/-! ## One name more -/

/-- What a look at one child of a place shows. -/
def enter (t : Tree) (name : String) : Place → Except Errno Place
  | ⟨l, some .directory⟩ =>
    if isNameTooLong name then .error .nameTooLong else .ok ⟨l ++ [name], t.node? (l ++ [name])⟩
  | ⟨_, some _⟩ => .error .notDirectory
  | ⟨_, none⟩ => .error .noEntry

theorem walkOn_child {jump : Location → List String → Except Errno Place} {here : Location}
    {name : String} (h : Path.Descends name) :
    walkOn t false jump here [name] = t.enter name ⟨here, some .directory⟩ := by
  rw [walkOn_cons h, enter]
  split
  · rfl
  · cases hnode : t.node? (here ++ [name]) with
    | none => rfl
    | some n => cases n <;> rfl

theorem walkOn_concat {jump jump' : Location → List String → Except Errno Place} {name : String}
    (h : Path.Descends name)
    (hjump : ∀ here names, jump here (names ++ [name]) = (jump' here names).bind (t.enter name))
    {here : Location} {names : List String} :
    walkOn t false jump here (names ++ [name]) =
      (walkOn t true jump' here names).bind (t.enter name) := by
  induction names generalizing here with
  | nil => exact walkOn_child h
  | cons first rest ih =>
    have hne : (rest ++ [name]).isEmpty = false := by simp
    rw [List.cons_append]
    cases t.firstName here first with
    | dot => exact ih
    | dots => exact ih
    | long _ hfirst hlong =>
      rw [walkOn_long hfirst hlong, walkOn_long hfirst hlong]
      rfl
    | missing _ hfirst hshort hnode =>
      rw [walkOn_missing hfirst hshort hnode, walkOn_missing hfirst hshort hnode, hne]
      cases rest <;> rfl
    | directory _ hfirst hshort hnode =>
      rw [walkOn_directory hfirst hshort hnode, walkOn_directory hfirst hshort hnode]
      exact ih
    | file _ hfirst hshort id hnode =>
      rw [walkOn_file hfirst hshort hnode, walkOn_file hfirst hshort hnode, hne]
      cases rest <;> rfl
    | link _ hfirst hshort target hnode =>
      rw [walkOn_link hfirst hshort hnode, walkOn_link hfirst hshort hnode, if_neg (by simp),
        if_neg (by simp), ← List.append_assoc]
      exact hjump _ _

theorem walk_concat {links : Nat} {here : Location} {names : List String} {name : String}
    (h : Path.Descends name) :
    walk t false links here (names ++ [name]) =
      (walk t true links here names).bind (t.enter name) := by
  induction links generalizing here names with
  | zero => exact walkOn_concat h fun _ _ => rfl
  | succ links ih => exact walkOn_concat h fun _ _ => ih

/-- A walk that follows the last link too has passed through a directory as well. -/
theorem walkOn_concat_ok {jump : Location → List String → Except Errno Place} {name : String}
    (hjump : ∀ here names place, jump here (names ++ [name]) = .ok place →
      ∃ l, jump here names = .ok ⟨l, some .directory⟩)
    {here : Location} {names : List String} {place : Place}
    (hwalk : walkOn t true jump here (names ++ [name]) = .ok place) :
    ∃ l, walkOn t true jump here names = .ok ⟨l, some .directory⟩ := by
  induction names generalizing here with
  | nil => exact ⟨here, rfl⟩
  | cons first rest ih =>
    have hne : (rest ++ [name]).isEmpty = false := by simp
    rw [List.cons_append] at hwalk
    cases t.firstName here first with
    | dot => exact ih hwalk
    | dots => exact ih hwalk
    | long _ hfirst hlong =>
      rw [walkOn_long hfirst hlong] at hwalk
      cases hwalk
    | missing _ hfirst hshort hnode =>
      rw [walkOn_missing hfirst hshort hnode, hne] at hwalk
      cases hwalk
    | directory _ hfirst hshort hnode =>
      rw [walkOn_directory hfirst hshort hnode] at hwalk ⊢
      exact ih hwalk
    | file _ hfirst hshort id hnode =>
      rw [walkOn_file hfirst hshort hnode, hne] at hwalk
      cases hwalk
    | link _ hfirst hshort target hnode =>
      rw [walkOn_link hfirst hshort hnode, if_neg (by simp), ← List.append_assoc] at hwalk
      rw [walkOn_link hfirst hshort hnode, if_neg (by simp)]
      exact hjump _ _ _ hwalk

theorem walk_concat_ok {links : Nat} {here : Location} {names : List String} {name : String}
    {place : Place} (hwalk : walk t true links here (names ++ [name]) = .ok place) :
    ∃ l, walk t true links here names = .ok ⟨l, some .directory⟩ := by
  induction links generalizing here names place with
  | zero =>
    refine walkOn_concat_ok ?_ hwalk
    intro here names place hjump
    cases hjump
  | succ links ih =>
    refine walkOn_concat_ok ?_ hwalk
    intro here names place hjump
    exact ih hjump

/-! ## Trees that hold more -/

/-- Everything is where it was, and there may be more. -/
def Extends (t t' : Tree) : Prop :=
  (∀ l n, t.node? l = some n → t'.node? l = some n) ∧ t'.workingDirectory = t.workingDirectory

theorem extends_setContent (t : Tree) (id : FileId) (bytes : Bytes) :
    t.Extends (t.setContent id bytes) :=
  ⟨fun _ _ hn => hn, rfl⟩

theorem walkOn_extends {t' : Tree} {through : Bool} {here : Location} {names : List String}
    {jump jump' : Location → List String → Except Errno Place} (h : t.Extends t')
    (hjump : ∀ here names l n, jump here names = .ok ⟨l, some n⟩ → jump' here names = .ok ⟨l, some n⟩)
    {l : Location} {n : Node} (hwalk : walkOn t through jump here names = .ok ⟨l, some n⟩) :
    walkOn t' through jump' here names = .ok ⟨l, some n⟩ := by
  induction names generalizing here with
  | nil => exact hwalk
  | cons first rest ih =>
    cases t.firstName here first with
    | dot => exact ih hwalk
    | dots => exact ih hwalk
    | long _ hfirst hlong =>
      rw [walkOn_long hfirst hlong] at hwalk
      cases hwalk
    | missing _ hfirst hshort hnode =>
      rw [walkOn_missing hfirst hshort hnode] at hwalk
      split at hwalk <;> cases hwalk
    | directory _ hfirst hshort hnode =>
      rw [walkOn_directory hfirst hshort hnode] at hwalk
      rw [walkOn_directory hfirst hshort (h.1 _ _ hnode)]
      exact ih hwalk
    | file _ hfirst hshort id hnode =>
      rw [walkOn_file hfirst hshort hnode] at hwalk
      rw [walkOn_file hfirst hshort (h.1 _ _ hnode)]
      exact hwalk
    | link _ hfirst hshort target hnode =>
      rw [walkOn_link hfirst hshort hnode] at hwalk
      rw [walkOn_link hfirst hshort (h.1 _ _ hnode)]
      split at hwalk
      · rename_i hlast
        rw [if_pos hlast]
        exact hwalk
      · rename_i hlast
        rw [if_neg hlast]
        exact hjump _ _ _ _ hwalk

theorem walk_extends {t' : Tree} {through : Bool} {links : Nat} {here : Location}
    {names : List String} (h : t.Extends t') {l : Location} {n : Node}
    (hwalk : walk t through links here names = .ok ⟨l, some n⟩) :
    walk t' through links here names = .ok ⟨l, some n⟩ := by
  induction links generalizing here names l n with
  | zero => exact walkOn_extends h (fun _ _ _ _ hjump => by cases hjump) hwalk
  | succ links ih => exact walkOn_extends h (fun _ _ _ _ hjump => ih hjump) hwalk

/-! ## The last link -/

/-- Following the last link changes nothing unless there is one. -/
theorem walkOn_through {jump jump' : Location → List String → Except Errno Place}
    (hjump : ∀ here names, (∀ l target, jump here names ≠ .ok ⟨l, some (.link target)⟩) →
      jump' here names = jump here names)
    {here : Location} {names : List String}
    (h : ∀ l target, walkOn t false jump here names ≠ .ok ⟨l, some (.link target)⟩) :
    walkOn t true jump' here names = walkOn t false jump here names := by
  induction names generalizing here with
  | nil => rfl
  | cons first rest ih =>
    cases t.firstName here first with
    | dot => exact ih h
    | dots => exact ih h
    | long _ hfirst hlong => rw [walkOn_long hfirst hlong, walkOn_long hfirst hlong]
    | missing _ hfirst hshort hnode =>
      rw [walkOn_missing hfirst hshort hnode, walkOn_missing hfirst hshort hnode]
    | directory _ hfirst hshort hnode =>
      rw [walkOn_directory hfirst hshort hnode] at h
      rw [walkOn_directory hfirst hshort hnode, walkOn_directory hfirst hshort hnode]
      exact ih h
    | file _ hfirst hshort id hnode =>
      rw [walkOn_file hfirst hshort hnode, walkOn_file hfirst hshort hnode]
    | link _ hfirst hshort target hnode =>
      rw [walkOn_link hfirst hshort hnode] at h
      rw [walkOn_link hfirst hshort hnode, walkOn_link hfirst hshort hnode, if_neg (by simp)]
      split
      · rename_i hlast
        rw [if_pos hlast] at h
        exact absurd rfl (h _ target)
      · rename_i hlast
        rw [if_neg hlast] at h
        exact hjump _ _ h

theorem walk_through {links : Nat} {here : Location} {names : List String}
    (h : ∀ l target, walk t false links here names ≠ .ok ⟨l, some (.link target)⟩) :
    walk t true links here names = walk t false links here names := by
  induction links generalizing here names with
  | zero => exact walkOn_through (fun _ _ _ => rfl) h
  | succ links ih => exact walkOn_through (fun _ _ hjump => ih hjump) h

/-! ## Where walks end -/

/-- One pass over the names keeps what holds of the root, of parents and of child directories, and ends
at such a directory or at a child of one. -/
theorem walkOn_invariant {P : Location → Prop} {Q : Place → Prop} {through : Bool}
    {jump : Location → List String → Except Errno Place} (hroot : P [])
    (hup : ∀ l, P l → P l.dropLast)
    (hdown : ∀ l name, P l → Path.Descends name → t.node? (l ++ [name]) = some .directory →
      P (l ++ [name]))
    (hhalt : ∀ l, P l → Q ⟨l, some .directory⟩)
    (hchild : ∀ l name, P l → Path.Descends name → Q ⟨l ++ [name], t.node? (l ++ [name])⟩)
    (hjump : ∀ here names place, P here → jump here names = .ok place → Q place)
    {here : Location} {names : List String} {place : Place} (hhere : P here)
    (hwalk : walkOn t through jump here names = .ok place) : Q place := by
  induction names generalizing here with
  | nil =>
    cases hwalk
    exact hhalt here hhere
  | cons first rest ih =>
    cases t.firstName here first with
    | dot => exact ih hhere hwalk
    | dots => exact ih (hup here hhere) hwalk
    | long _ hfirst hlong =>
      rw [walkOn_long hfirst hlong] at hwalk
      cases hwalk
    | missing _ hfirst hshort hnode =>
      rw [walkOn_missing hfirst hshort hnode] at hwalk
      split at hwalk <;> cases hwalk
      exact hnode ▸ hchild here first hhere hfirst
    | directory _ hfirst hshort hnode =>
      rw [walkOn_directory hfirst hshort hnode] at hwalk
      exact ih (hdown here first hhere hfirst hnode) hwalk
    | file _ hfirst hshort id hnode =>
      rw [walkOn_file hfirst hshort hnode] at hwalk
      split at hwalk <;> cases hwalk
      exact hnode ▸ hchild here first hhere hfirst
    | link _ hfirst hshort target hnode =>
      rw [walkOn_link hfirst hshort hnode] at hwalk
      split at hwalk
      · cases hwalk
        exact hnode ▸ hchild here first hhere hfirst
      · refine hjump _ _ _ ?_ hwalk
        unfold linkStart
        split
        · exact hroot
        · exact hhere

theorem walk_invariant {P : Location → Prop} {Q : Place → Prop} {through : Bool} {links : Nat}
    (hroot : P []) (hup : ∀ l, P l → P l.dropLast)
    (hdown : ∀ l name, P l → Path.Descends name → t.node? (l ++ [name]) = some .directory →
      P (l ++ [name]))
    (hhalt : ∀ l, P l → Q ⟨l, some .directory⟩)
    (hchild : ∀ l name, P l → Path.Descends name → Q ⟨l ++ [name], t.node? (l ++ [name])⟩)
    {here : Location} {names : List String} {place : Place} (hhere : P here)
    (hwalk : walk t through links here names = .ok place) : Q place := by
  induction links generalizing here names place with
  | zero =>
    refine walkOn_invariant hroot hup hdown hhalt hchild ?_ hhere hwalk
    intro _ _ _ _ hjump
    cases hjump
  | succ links ih =>
    exact walkOn_invariant hroot hup hdown hhalt hchild (fun _ _ _ hhere hjump => ih hhere hjump)
      hhere hwalk

/-- A walk through a sound tree tells what is at the place where it ends. -/
theorem walk_node (ht : t.Sound) {through : Bool} {links : Nat} {here : Location}
    {names : List String} {place : Place} (hhere : t.node? here = some .directory)
    (hwalk : walk t through links here names = .ok place) : t.node? place.location = place.node := by
  refine walk_invariant (P := fun l => t.node? l = some .directory)
    (Q := fun place => t.node? place.location = place.node) rfl (fun l hl => ?_)
    (fun _ _ _ _ hnode => hnode) (fun _ hl => hl) (fun _ _ _ _ => rfl) hhere hwalk
  exact ht.directories_above hl _ (List.dropLast_prefix l)

theorem walk_descends {through : Bool} {links : Nat} {here : Location} {names : List String}
    {place : Place} (hhere : ∀ n ∈ here, Path.Descends n)
    (hwalk : walk t through links here names = .ok place) :
    ∀ n ∈ place.location, Path.Descends n := by
  have hchild : ∀ l name, (∀ n ∈ l, Path.Descends n) → Path.Descends name →
      ∀ n ∈ l ++ [name], Path.Descends n := by
    intro l name hl hname n hn
    rcases List.mem_append.mp hn with hn | hn
    · exact hl n hn
    · exact List.mem_singleton.mp hn ▸ hname
  exact walk_invariant (P := fun l => ∀ n ∈ l, Path.Descends n)
    (Q := fun place => ∀ n ∈ place.location, Path.Descends n) (by simp)
    (fun l hl n hn => hl n (List.dropLast_subset l hn)) (fun l name hl hname _ => hchild l name hl hname)
    (fun _ hl => hl) hchild hhere hwalk

/-- Names that lead from directory to directory lead to the last of them. -/
theorem walkOn_straight {through : Bool} {jump : Location → List String → Except Errno Place}
    {here : Location} {names : List String} (hnames : ∀ n ∈ names, Path.Descends n)
    (h : ∀ k, k <+: names → t.node? (here ++ k) = some .directory) :
    walkOn t through jump here names =
      if names.any isNameTooLong then .error .nameTooLong
      else .ok ⟨here ++ names, some .directory⟩ := by
  induction names generalizing here with
  | nil => simp [walkOn]
  | cons first rest ih =>
    have hfirst : Path.Descends first := hnames first (by simp)
    cases hlong : isNameTooLong first with
    | true => simp [walkOn_long hfirst hlong, hlong]
    | false =>
      have hnext : t.node? (here ++ [first]) = some .directory := h [first] (by simp)
      rw [walkOn_directory hfirst hlong hnext, ih fun n hn => hnames n (List.mem_cons_of_mem _ hn)]
      · simp [hlong]
      · intro k hk
        rw [List.append_assoc]
        exact h (first :: k) (List.prefix_cons_inj first |>.mpr hk)

end FileExchange.Tree

import FileExchange.Proofs.Path
import FileExchange.Tree.Lookup

/-!
# Lookups

What the first name of a walk does, which faults looking a path up can have, and which of them leave
the question open whether there is anything at the path.
-/

set_option autoImplicit false

namespace FileExchange.Tree

variable {t : Tree}

theorem isPathTooLong_eq_false {text : String} :
    isPathTooLong text = false ↔ text.utf8ByteSize ≤ pathLimit := by
  rw [isPathTooLong, decide_eq_false_iff_not, Nat.not_lt]

/-! ## NUL characters -/

theorem hasNul_text (p : Path) : hasNul p.text = true ↔ ∃ n ∈ p.names, '\x00' ∈ n.toList := by
  have hmem : ∀ s : String, hasNul s = true ↔ '\x00' ∈ s.toList := fun s => by simp [hasNul]
  rw [hmem]
  unfold Path.text
  split
  · rename_i hnames
    simp [hnames]
  · have hanchor : '\x00' ∉ (Path.anchorText p.anchor).toList := by
      cases p.anchor <;> decide
    rw [String.toList_append, List.mem_append, Path.mem_joinTexts (by decide)]
    simp [hanchor]

/-! ## The first name of a walk -/

/-- What the first name of a walk does from a place. -/
inductive FirstName (t : Tree) (here : Location) : String → Prop
  | dot : FirstName t here "."
  | dots : FirstName t here ".."
  | long (name : String) (h : Path.Descends name) (hlong : isNameTooLong name = true) :
      FirstName t here name
  | missing (name : String) (h : Path.Descends name) (hshort : isNameTooLong name = false)
      (hnode : t.node? (here ++ [name]) = none) : FirstName t here name
  | directory (name : String) (h : Path.Descends name) (hshort : isNameTooLong name = false)
      (hnode : t.node? (here ++ [name]) = some .directory) : FirstName t here name
  | file (name : String) (h : Path.Descends name) (hshort : isNameTooLong name = false) (id : FileId)
      (hnode : t.node? (here ++ [name]) = some (.file id)) : FirstName t here name
  | link (name : String) (h : Path.Descends name) (hshort : isNameTooLong name = false)
      (target : String) (hnode : t.node? (here ++ [name]) = some (.link target)) :
      FirstName t here name

theorem firstName (t : Tree) (here : Location) (name : String) : t.FirstName here name := by
  by_cases hdot : name = "."
  · exact hdot ▸ .dot
  by_cases hdots : name = ".."
  · exact hdots ▸ .dots
  cases hlong : isNameTooLong name with
  | true => exact .long name ⟨hdot, hdots⟩ hlong
  | false =>
    cases hnode : t.node? (here ++ [name]) with
    | none => exact .missing name ⟨hdot, hdots⟩ hlong hnode
    | some n =>
      cases n with
      | directory => exact .directory name ⟨hdot, hdots⟩ hlong hnode
      | file id => exact .file name ⟨hdot, hdots⟩ hlong id hnode
      | link target => exact .link name ⟨hdot, hdots⟩ hlong target hnode

section First

variable {through : Bool} {jump : Location → List String → Except Errno Place} {here : Location}
  {name : String} {rest : List String}

theorem walkOn_cons (h : Path.Descends name) :
    walkOn t through jump here (name :: rest) =
      if isNameTooLong name then .error .nameTooLong
      else match t.node? (here ++ [name]) with
        | none => if rest.isEmpty then .ok ⟨here ++ [name], none⟩ else .error .noEntry
        | some .directory => walkOn t through jump (here ++ [name]) rest
        | some (.file id) =>
          if rest.isEmpty then .ok ⟨here ++ [name], some (.file id)⟩ else .error .notDirectory
        | some (.link target) =>
          if rest.isEmpty && !through then .ok ⟨here ++ [name], some (.link target)⟩
          else jump (linkStart here target) (linkNames target ++ rest) := by
  have hdot : ¬ (name == ".") = true := by simpa using h.1
  have hdots : ¬ (name == "..") = true := by simpa using h.2
  exact (if_neg hdot).trans (if_neg hdots)

variable (h : Path.Descends name)

include h

theorem walkOn_long (hlong : isNameTooLong name = true) :
    walkOn t through jump here (name :: rest) = .error .nameTooLong := by
  rw [walkOn_cons h, if_pos hlong]

variable (hshort : isNameTooLong name = false)

include hshort

theorem walkOn_missing (hnode : t.node? (here ++ [name]) = none) :
    walkOn t through jump here (name :: rest) =
      if rest.isEmpty then .ok ⟨here ++ [name], none⟩ else .error .noEntry := by
  rw [walkOn_cons h, if_neg (by simp [hshort]), hnode]

theorem walkOn_directory (hnode : t.node? (here ++ [name]) = some .directory) :
    walkOn t through jump here (name :: rest) = walkOn t through jump (here ++ [name]) rest := by
  rw [walkOn_cons h, if_neg (by simp [hshort]), hnode]

theorem walkOn_file {id : FileId} (hnode : t.node? (here ++ [name]) = some (.file id)) :
    walkOn t through jump here (name :: rest) =
      if rest.isEmpty then .ok ⟨here ++ [name], some (.file id)⟩ else .error .notDirectory := by
  rw [walkOn_cons h, if_neg (by simp [hshort]), hnode]

theorem walkOn_link {target : String} (hnode : t.node? (here ++ [name]) = some (.link target)) :
    walkOn t through jump here (name :: rest) =
      if rest.isEmpty && !through then .ok ⟨here ++ [name], some (.link target)⟩
      else jump (linkStart here target) (linkNames target ++ rest) := by
  rw [walkOn_cons h, if_neg (by simp [hshort]), hnode]

end First

/-! ## Faults -/

theorem walkOn_error {through : Bool} {jump : Location → List String → Except Errno Place}
    (hjump : ∀ here names errno, jump here names = .error errno →
      errno ∈ [.noEntry, .notDirectory, .nameTooLong, .tooManyLinks])
    {here : Location} {names : List String} {errno : Errno}
    (h : walkOn t through jump here names = .error errno) :
    errno ∈ [.noEntry, .notDirectory, .nameTooLong, .tooManyLinks] := by
  induction names generalizing here with
  | nil => cases h
  | cons name rest ih =>
    cases t.firstName here name with
    | dot => exact ih h
    | dots => exact ih h
    | long _ hname hlong =>
      rw [walkOn_long hname hlong] at h
      cases h
      simp
    | missing _ hname hshort hnode =>
      rw [walkOn_missing hname hshort hnode] at h
      split at h <;> cases h
      simp
    | directory _ hname hshort hnode =>
      rw [walkOn_directory hname hshort hnode] at h
      exact ih h
    | file _ hname hshort id hnode =>
      rw [walkOn_file hname hshort hnode] at h
      split at h <;> cases h
      simp
    | link _ hname hshort target hnode =>
      rw [walkOn_link hname hshort hnode] at h
      split at h
      · cases h
      · exact hjump _ _ _ h

theorem walk_error {through : Bool} {links : Nat} {here : Location} {names : List String}
    {errno : Errno} (h : walk t through links here names = .error errno) :
    errno ∈ [.noEntry, .notDirectory, .nameTooLong, .tooManyLinks] := by
  induction links generalizing here names errno with
  | zero =>
    refine walkOn_error ?_ h
    intro here names errno herror
    cases herror
    simp
  | succ links ih => exact walkOn_error (fun here names errno => ih) h

theorem locate_error {through : Bool} {p : Path} {e : Failure} (h : t.locate through p = .error e) :
    e = .embeddedNul ∨
      ∃ errno, e = .system (.coded errno [p.text]) ∧
        errno ∈ [.noEntry, .notDirectory, .nameTooLong, .tooManyLinks] := by
  unfold locate at h
  split at h
  · cases h
    exact Or.inl rfl
  · split at h
    · cases h
      exact Or.inr ⟨.nameTooLong, rfl, by simp⟩
    · split at h
      · cases h
      · rename_i errno hwalk
        cases h
        exact Or.inr ⟨errno, rfl, walk_error hwalk⟩

theorem stat_eq_ok {p : Path} {n : Node} (h : t.stat p = .ok n) :
    ∃ l, t.locate true p = .ok ⟨l, some n⟩ := by
  unfold stat at h
  split at h
  · rename_i l n' hlocate
    cases h
    exact ⟨l, hlocate⟩
  · simp [failWith] at h
  · cases h

theorem stat_of_locate {p : Path} {l : Location} {n : Node}
    (h : t.locate true p = .ok ⟨l, some n⟩) : t.stat p = .ok n := by
  simp [stat, h]

theorem stat_of_hasNul {p : Path} (h : hasNul p.text = true) : t.stat p = .error .embeddedNul := by
  rw [stat, locate, if_pos h]

theorem stat_error {p : Path} {e : Failure} (h : t.stat p = .error e) :
    e = .embeddedNul ∨
      ∃ errno, e = .system (.coded errno [p.text]) ∧
        errno ∈ [.noEntry, .notDirectory, .nameTooLong, .tooManyLinks] := by
  unfold stat at h
  split at h
  · cases h
  · cases h
    exact Or.inr ⟨.noEntry, rfl, by simp⟩
  · rename_i e' hlocate
    cases h
    exact locate_error hlocate

/-! ## Questions about a path -/

section Answers

variable {found : Node → Bool} {looked : Except Failure Node}

theorem answers_of_stat {n : Node} (h : looked = .ok n) : answers found looked = .ok (found n) := by
  rw [h]
  rfl

theorem answers_eq_true : answers found looked = .ok true ↔ ∃ n, looked = .ok n ∧ found n = true := by
  cases looked with
  | ok n => simp [answers]
  | error e => by_cases h : meansAbsent e = true <;> simp [answers, h]

theorem answers_eq_error {e : Failure} (h : answers found looked = .error e) :
    looked = .error e ∧ meansAbsent e = false := by
  unfold answers at h
  split at h
  · cases h
  · split at h
    · cases h
    · rename_i hkept
      cases h
      exact ⟨rfl, Bool.eq_false_iff.mpr hkept⟩

end Answers

theorem answers_stat_error {found : Node → Bool} {p : Path} {e : Failure}
    (h : answers found (t.stat p) = .error e) :
    t.stat p = failWith .nameTooLong p ∧ e = .system (.coded .nameTooLong [p.text]) := by
  obtain ⟨hstat, hkept⟩ := answers_eq_error h
  rw [hstat]
  rcases stat_error hstat with rfl | ⟨errno, rfl, hmem⟩
  · cases hkept
  · cases errno with
    | nameTooLong => exact ⟨rfl, rfl⟩
    | noEntry => cases hkept
    | notDirectory => cases hkept
    | tooManyLinks => cases hkept
    | _ => simp at hmem

theorem isDirectory_eq_true {p : Path} :
    t.isDirectory p = .ok true ↔ t.stat p = .ok .directory := by
  simp [isDirectory, answers_eq_true]

theorem isFile_eq_true {p : Path} : t.isFile p = .ok true ↔ ∃ id, t.stat p = .ok (.file id) := by
  refine answers_eq_true.trans ⟨fun ⟨n, hstat, hfile⟩ => ?_, fun ⟨id, hstat⟩ => ⟨.file id, hstat, rfl⟩⟩
  cases n with
  | file id => exact ⟨id, hstat⟩
  | _ => cases hfile

end FileExchange.Tree

import FileExchange.Proofs.Tree.RealPath
import FileExchange.Serve.Dispatch

/-!
# Sites

What holds of every site that a configuration gives: its two directories are real paths, its pieces are
not empty, and it is refused nothing. What a site sees of the tree can be told from the tree alone where
nothing is refused.
-/

set_option autoImplicit false

namespace FileExchange

theorem except_bind_eq_ok {ε α β : Type} {r : Except ε α} {f : α → Except ε β} {b : β}
    (h : (r >>= f) = .ok b) : ∃ a, r = .ok a ∧ f a = .ok b := by
  cases r with
  | error e => cases h
  | ok a => exact ⟨a, rfl, h⟩

namespace Site

variable {c : ServerConfig} {t : Tree} {s : Site}

theorem ofConfig_eq_ok (h : ofConfig c t = .ok s) :
    c.rootPath t = .ok s.root ∧ c.uploadPath t = .ok s.uploads ∧ 1 ≤ c.chunkSize ∧
      s.files = { chunkSize := c.chunkSize.toNat, serverName := c.serverName } ∧ s.denials = [] := by
  unfold ofConfig at h
  obtain ⟨root, hroot, h⟩ := except_bind_eq_ok h
  obtain ⟨_, hchunk, h⟩ := except_bind_eq_ok h
  obtain ⟨uploads, huploads, h⟩ := except_bind_eq_ok h
  cases h
  refine ⟨hroot, huploads, ?_, rfl, rfl⟩
  unfold ServerConfig.require at hchunk
  split at hchunk
  · rename_i hle
    simpa using hle
  · cases hchunk

theorem encoding_eq (h : ofConfig c t = .ok s) : s.files.encoding = .utf8 := by
  rw [(ofConfig_eq_ok h).2.2.2.1]

theorem chunkSize_pos (h : ofConfig c t = .ok s) : 1 ≤ s.files.chunkSize := by
  obtain ⟨_, _, hchunk, hfiles, _⟩ := ofConfig_eq_ok h
  rw [hfiles]
  exact Int.toNat_le_toNat hchunk

theorem denials_eq_nil (h : ofConfig c t = .ok s) : s.denials = [] :=
  (ofConfig_eq_ok h).2.2.2.2

theorem root_isAbsolute (h : ofConfig c t = .ok s) : s.root.isAbsolute = true :=
  Tree.isAbsolute_of_resolve (ofConfig_eq_ok h).1

theorem root_isPlain (hw : ∀ n ∈ t.workingDirectory, Path.IsPlain n) (h : ofConfig c t = .ok s) :
    ∀ n ∈ s.root.names, Path.IsPlain n := by
  refine Tree.resolve_isPlain ?_ (fun n hn => (Path.isName_of_mem_namesOf hn).2.2)
    (ofConfig_eq_ok h).1
  unfold Tree.start
  split
  · simp
  · exact hw

theorem uploads_isPlain (hw : ∀ n ∈ t.workingDirectory, Path.IsPlain n) (h : ofConfig c t = .ok s) :
    ∀ n ∈ s.uploads.names, Path.IsPlain n := by
  have hresolved : ∃ p, t.resolve p = .ok s.uploads ∧ ∀ n ∈ p.names, '/' ∉ n.toList := by
    have huploads := (ofConfig_eq_ok h).2.1
    unfold ServerConfig.uploadPath at huploads
    dsimp only at huploads
    split at huploads
    · exact ⟨_, huploads, fun n hn => (Path.isName_of_mem_namesOf hn).2.2⟩
    · rename_i hrelative
      obtain ⟨root, hroot, hjoin⟩ := except_bind_eq_ok huploads
      rw [(ofConfig_eq_ok h).1] at hroot
      cases hroot
      refine ⟨_, hjoin, fun n hn => ?_⟩
      rw [Path.join, if_neg hrelative] at hn
      rcases List.mem_append.mp hn with hn | hn
      · exact (root_isPlain hw h n hn).1.2.2
      · exact (Path.isName_of_mem_namesOf hn).2.2
  obtain ⟨p, hp, hnames⟩ := hresolved
  refine Tree.resolve_isPlain ?_ hnames hp
  unfold Tree.start
  split
  · simp
  · exact hw

theorem uploads_isAbsolute (h : ofConfig c t = .ok s) : s.uploads.isAbsolute = true := by
  have huploads := (ofConfig_eq_ok h).2.1
  unfold ServerConfig.uploadPath at huploads
  dsimp only at huploads
  split at huploads
  · exact Tree.isAbsolute_of_resolve huploads
  · obtain ⟨_, _, hjoin⟩ := except_bind_eq_ok huploads
    exact Tree.isAbsolute_of_resolve hjoin

/-- Where nothing is refused, a site is the one that it is apart from what it is refused. -/
theorem ofConfig_of_open (h : ofConfig c t = .ok s) : ofConfig c t = .ok { s with denials := [] } := by
  rw [h, ← denials_eq_nil h]

/-! ## Refusals -/

section Refusals

variable {α : Type} {access : Access} {p : Path} {answer : Except Failure α}

theorem allow_of_free (h : s.refusal? access p = none) : s.allow access p answer = answer := by
  rw [allow, h]

theorem allow_of_refused {errno : Errno} (h : s.refusal? access p = some errno) :
    s.allow access p answer = Tree.failWith errno p := by
  rw [allow, h]

theorem allow_eq_ok {a : α} :
    s.allow access p answer = .ok a ↔ s.refusal? access p = none ∧ answer = .ok a := by
  cases h : s.refusal? access p with
  | none => simp [allow_of_free h]
  | some errno => simp [allow_of_refused h, Tree.failWith]

/-- A call fails as it would without anybody to refuse it, or because it is refused. -/
theorem allow_eq_error {e : Failure} (h : s.allow access p answer = .error e) :
    answer = .error e ∨ ∃ errno, e = .system (.coded errno [p.text]) := by
  cases hrefusal : s.refusal? access p with
  | none => exact Or.inl ((allow_of_free hrefusal).symm.trans h)
  | some errno =>
    rw [allow_of_refused hrefusal] at h
    cases h
    exact Or.inr ⟨errno, rfl⟩

theorem stat_eq_ok {n : Node} (h : s.stat t p = .ok n) : t.stat p = .ok n :=
  (allow_eq_ok.mp h).2

theorem stat_eq_error {e : Failure} (h : s.stat t p = .error e) :
    e = .embeddedNul ∨ ∃ errno, e = .system (.coded errno [p.text]) := by
  rcases allow_eq_error h with hstat | hrefused
  · exact (Tree.stat_error hstat).imp_right fun ⟨errno, he, _⟩ => ⟨errno, he⟩
  · exact Or.inr hrefused

theorem stat_of_hasNul (h : Tree.hasNul p.text = true) : s.stat t p = .error .embeddedNul := by
  rw [stat, allow, refusal?, if_pos h]
  exact Tree.stat_of_hasNul h

/-- A question about a path stays open only through the system's fault. -/
theorem answers_stat_eq_error {found : Node → Bool} {e : Failure}
    (h : Tree.answers found (s.stat t p) = .error e) : ∃ errno, e = .system (.coded errno [p.text]) := by
  obtain ⟨hstat, hkept⟩ := Tree.answers_eq_error h
  refine (stat_eq_error hstat).resolve_left ?_
  rintro rfl
  cases hkept

theorem exists_stat_of_pathExists (h : s.pathExists t p = .ok true) : ∃ n, s.stat t p = .ok n :=
  (Tree.answers_eq_true.mp h).imp fun _ => And.left

theorem pathExists_of_isDirectory (h : s.isDirectory t p = .ok true) : s.pathExists t p = .ok true := by
  obtain ⟨n, hstat, _⟩ := Tree.answers_eq_true.mp h
  exact Tree.answers_of_stat hstat

end Refusals

/-! ## Real paths -/

theorem realPath_eq_ok {p q : Path} (h : s.realPath t p = .ok q) :
    (s.seen t).realPath p = .ok q ∧ Tree.hasNul q.text = false := by
  unfold realPath at h
  split at h
  · rename_i real hreal
    obtain ⟨rfl, hfound⟩ := Tree.confirm_eq_ok h
    exact ⟨hreal, Bool.eq_false_iff.mpr fun hnul => hfound (stat_of_hasNul hnul)⟩
  · cases h

theorem realPath_of_stat {p q : Path} {n : Node} (hreal : (s.seen t).realPath p = .ok q)
    (h : s.stat t q = .ok n) : s.realPath t p = .ok q := by
  simp only [realPath, hreal, Tree.confirm, h]

/-! ## Where nothing is refused -/

section Open

variable {p : Path} (hopen : s.denials = [])

include hopen

theorem allow_of_open {α : Type} (access : Access) (answer : Except Failure α) :
    s.allow access p answer = answer := by
  simp [allow, refusal?, hopen]

theorem stat_of_open : s.stat t p = t.stat p :=
  allow_of_open hopen _ _

theorem pathExists_of_open : s.pathExists t p = t.pathExists p := by
  rw [pathExists, stat_of_open hopen, Tree.pathExists]

theorem isDirectory_of_open : s.isDirectory t = t.isDirectory := by
  funext p
  rw [isDirectory, stat_of_open hopen, Tree.isDirectory]

theorem entries_of_open (target : String) : s.entries t p target = Directory.entries t p target := by
  rw [entries, allow_of_open hopen, isDirectory_of_open hopen, Directory.entries]

theorem seen_of_open : s.seen t = t := by
  simp [seen, refusal?, hopen]

theorem realPath_of_open : s.realPath t p = t.resolve p := by
  rw [realPath, seen_of_open hopen, Tree.resolve]
  cases t.realPath p with
  | ok real => exact congrArg (Tree.confirm real) (stat_of_open hopen)
  | error e => rfl

end Open

end Site

end FileExchange

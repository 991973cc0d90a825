import FileExchange.Path
import FileExchange.Proofs.Text.Pieces
import Mathlib.Algebra.GroupWithZero.Nat

/-!
# Names and texts of paths

Reading the names that a path was written with gives them back, and a path is as long as its names
and the slashes in front of them.
-/

set_option autoImplicit false

namespace FileExchange.Path

/-! ## Names -/

/-- A name that stays when a path is read. -/
def IsName (name : String) : Prop :=
  name ≠ "" ∧ name ≠ "." ∧ '/' ∉ name.toList

/-- A name of a child, as it stands in a directory. -/
def IsPlain (name : String) : Prop :=
  IsName name ∧ name ≠ ".."

/-- A name that leads to a child when a path is followed. -/
def Descends (name : String) : Prop :=
  name ≠ "." ∧ name ≠ ".."

theorem IsPlain.descends {name : String} (h : IsPlain name) : Descends name :=
  ⟨h.1.2.1, h.2⟩

theorem isName_dots : IsName ".." := by
  refine ⟨by decide, by decide, by decide⟩

theorem isName_of_mem_namesOf {s name : String} (h : name ∈ namesOf s) : IsName name := by
  rw [namesOf, List.mem_filter] at h
  obtain ⟨hmem, hname⟩ := h
  have hne : name ≠ "" ∧ name ≠ "." := by simpa using hname
  exact ⟨hne.1, hne.2, Text.notMem_of_mem_splitText hmem⟩

theorem namesOf_empty : namesOf "" = [] := by
  rw [namesOf, Text.splitText_of_notMem (by decide)]
  rfl

theorem namesOf_append (a b : String) : namesOf (a ++ ("/" ++ b)) = namesOf a ++ namesOf b := by
  have h := Text.splitText_append '/' a b
  rw [show String.singleton '/' = "/" from rfl] at h
  rw [namesOf, h, List.filter_append, namesOf, namesOf]

theorem namesOf_slash (b : String) : namesOf ("/" ++ b) = namesOf b := by
  have h := namesOf_append "" b
  rwa [String.empty_append, namesOf_empty, List.nil_append] at h

theorem namesOf_joinTexts {names : List String} (h : ∀ n ∈ names, IsName n) :
    namesOf (Text.joinTexts "/" names) = names := by
  cases hn : names with
  | nil => exact namesOf_empty
  | cons a rest =>
    have hsplit : Text.splitText '/' (Text.joinTexts "/" names) = names :=
      Text.splitText_joinTexts (by simp [hn]) fun n hmem => (h n hmem).2.2
    rw [← hn, namesOf, hsplit, List.filter_eq_self]
    intro n hmem
    obtain ⟨hne, hdot, _⟩ := h n hmem
    simp [hne, hdot]

theorem namesOf_of_isName {name : String} (h : IsName name) : namesOf name = [name] := by
  have hnames : namesOf (Text.joinTexts "/" [name]) = [name] := namesOf_joinTexts (by simpa using h)
  rwa [Text.joinTexts, String.intercalate_singleton] at hnames

/-- Slashes at the front of a text name nothing. -/
theorem namesOf_dropWhile (s : String) :
    namesOf (String.ofList (s.toList.dropWhile (· == '/'))) = namesOf s := by
  suffices h : ∀ cs : List Char,
      namesOf (String.ofList (cs.dropWhile (· == '/'))) = namesOf (String.ofList cs) by
    rw [h s.toList, String.ofList_toList]
  intro cs
  induction cs with
  | nil => rfl
  | cons c cs ih =>
    by_cases hc : c = '/'
    · subst hc
      have hcons : String.ofList ('/' :: cs) = "/" ++ String.ofList cs := by
        rw [← String.toList_inj]
        simp
      rw [List.dropWhile_cons_of_pos (by simp), ih, hcons, namesOf_slash]
    · rw [List.dropWhile_cons_of_neg (by simpa using hc)]

/-! ## Where a text starts -/

theorem anchorOf_eq_relative {s : List Char} (h : s.head? ≠ some '/') : anchorOf s = .relative := by
  cases s with
  | nil => rfl
  | cons c s =>
    have hc : c ≠ '/' := fun e => h (by simp [e])
    simp [anchorOf, hc]

theorem head?_ne_slash {name : String} (h : IsName name) : name.toList.head? ≠ some '/' := by
  intro hhead
  exact h.2.2 (List.mem_of_mem_head? (by simp [hhead]))

theorem ofString_of_isName {name : String} (h : IsName name) :
    ofString name = ⟨.relative, [name]⟩ := by
  rw [ofString, namesOf_of_isName h, anchorOf_eq_relative (head?_ne_slash h)]

theorem anchorOf_append {front tail : List Char} (h : tail.head? ≠ some '/') :
    anchorOf (front ++ tail) = anchorOf front := by
  have htail : tail.takeWhile (· == '/') = [] := by
    cases tail with
    | nil => rfl
    | cons c tail =>
      have hc : c ≠ '/' := fun e => h (by simp [e])
      simp [hc]
  have htake : (front ++ tail).takeWhile (· == '/') = front.takeWhile (· == '/') := by
    rw [List.takeWhile_append, htail, List.append_nil]
    split
    · rename_i hall
      exact (List.IsPrefix.eq_of_length (List.takeWhile_prefix _) hall).symm
    · rfl
  rw [anchorOf, htake, anchorOf]

/-! ## Texts -/

theorem text_of_ne_nil {p : Path} (h : p.names ≠ []) :
    p.text = anchorText p.anchor ++ Text.joinTexts "/" p.names := by
  unfold text
  split
  · rename_i hnames
    exact absurd hnames h
  · rfl

theorem text_of_isAbsolute {p : Path} (h : p.isAbsolute = true) :
    p.text = anchorText p.anchor ++ Text.joinTexts "/" p.names := by
  unfold text
  split
  · rename_i hanchor _
    simp [isAbsolute, hanchor] at h
  · rfl

theorem size_joinTexts (a : String) (rest : List String) :
    (Text.joinTexts "/" (a :: rest)).utf8ByteSize + 1 =
      ((a :: rest).map fun n => n.utf8ByteSize + 1).sum := by
  induction rest generalizing a with
  | nil => simp [Text.joinTexts]
  | cons b rest ih =>
    have hslash : ("/" : String).utf8ByteSize = 1 := rfl
    have hb := ih b
    rw [Text.joinTexts, String.intercalate_cons_cons, String.utf8ByteSize_append,
      String.utf8ByteSize_append, List.map_cons, List.sum_cons, ← hb, hslash, Text.joinTexts]
    omega

theorem mem_joinTexts {c : Char} (hc : c ≠ '/') {names : List String} :
    c ∈ (Text.joinTexts "/" names).toList ↔ ∃ n ∈ names, c ∈ n.toList := by
  induction names with
  | nil => simp [Text.joinTexts]
  | cons a rest ih =>
    cases rest with
    | nil => simp [Text.joinTexts]
    | cons b rest =>
      rw [Text.joinTexts, String.intercalate_cons_cons, String.toList_append, String.toList_append,
        List.mem_append, List.mem_append]
      rw [Text.joinTexts] at ih
      rw [ih]
      simp [hc]

/-- The text of an absolute path and one name more, by its length. -/
theorem size_text_child {p : Path} (h : p.isAbsolute = true) :
    ∃ k, p.text.utf8ByteSize ≤ k ∧
      ∀ name, (text ⟨p.anchor, p.names ++ [name]⟩).utf8ByteSize = k + name.utf8ByteSize := by
  cases hnames : p.names with
  | nil =>
    refine ⟨p.text.utf8ByteSize, Nat.le_refl _, fun name => ?_⟩
    rw [text_of_isAbsolute h, text_of_ne_nil (by simp), String.utf8ByteSize_append, hnames]
    simp [Text.joinTexts]
  | cons a rest =>
    refine ⟨p.text.utf8ByteSize + 1, Nat.le_succ _, fun name => ?_⟩
    have hall := size_joinTexts a (rest ++ [name])
    have hfront := size_joinTexts a rest
    rw [text_of_isAbsolute h, text_of_ne_nil (by simp), String.utf8ByteSize_append,
      String.utf8ByteSize_append, hnames]
    simp only [List.cons_append, List.map_cons, List.map_append, List.sum_cons, List.sum_append,
      List.map_nil, List.sum_nil] at hall hfront ⊢
    omega

end FileExchange.Path

import FileExchange.Text.Split

/-!
# Pieces of a text

Cutting at a separator undoes joining with it, and no piece holds the separator. Numbers are made of digits, so they
are pieces for every separator that is none.
-/

set_option autoImplicit false

namespace FileExchange.Text

theorem splitOnChar_eq_splitOn (sep : Char) (s : List Char) : splitOnChar sep s = s.splitOn sep := by
  induction s with
  | nil => simp [splitOnChar]
  | cons c s ih =>
    have hstep : splitOnChar sep (c :: s) = prependToPieces sep c (splitOnChar sep s) := rfl
    rw [hstep, ih, List.splitOn_cons_eq_if_modifyHead]
    unfold prependToPieces
    split
    · rfl
    · cases h : s.splitOn sep with
      | nil => exact absurd h (List.splitOn_ne_nil sep s)
      | cons p rest => rfl

theorem splitText_eq (sep : Char) (s : String) :
    splitText sep s = (s.toList.splitOn sep).map String.ofList := by
  rw [splitText, splitOnChar_eq_splitOn]

/-! ## What the pieces are -/

theorem splitText_append (sep : Char) (a b : String) :
    splitText sep (a ++ (String.singleton sep ++ b)) = splitText sep a ++ splitText sep b := by
  have hlist : (a ++ (String.singleton sep ++ b)).toList = a.toList ++ sep :: b.toList := by
    simp
  rw [splitText_eq, hlist, List.splitOn_append_cons_self, List.map_append, ← splitText_eq,
    ← splitText_eq]

theorem splitText_of_notMem {sep : Char} {s : String} (h : sep ∉ s.toList) :
    splitText sep s = [s] := by
  rw [splitText_eq, List.splitOn_eq_singleton h, List.map_singleton, String.ofList_toList]

theorem notMem_of_mem_splitOn {sep : Char} {s piece : List Char} (h : piece ∈ s.splitOn sep) :
    sep ∉ piece := by
  induction s generalizing piece with
  | nil => simp_all
  | cons c s ih =>
    rw [List.splitOn_cons_eq_if_modifyHead] at h
    split at h
    · rcases List.mem_cons.mp h with rfl | h
      · simp
      · exact ih h
    · rename_i hc
      have hne : sep ≠ c := fun e => hc (by simp [e])
      cases hs : s.splitOn sep with
      | nil => exact absurd hs (List.splitOn_ne_nil sep s)
      | cons p rest =>
        rw [hs, List.modifyHead_cons] at h
        rcases List.mem_cons.mp h with rfl | h
        · have hp : p ∈ s.splitOn sep := by simp [hs]
          simpa [hne] using ih hp
        · exact ih (by simp [hs, h])

theorem notMem_of_mem_splitText {sep : Char} {s piece : String} (h : piece ∈ splitText sep s) :
    sep ∉ piece.toList := by
  rw [splitText_eq, List.mem_map] at h
  obtain ⟨p, hp, rfl⟩ := h
  rw [String.toList_ofList]
  exact notMem_of_mem_splitOn hp

/-! ## Joining -/

theorem splitText_joinTexts {sep : Char} {pieces : List String} (hne : pieces ≠ [])
    (h : ∀ p ∈ pieces, sep ∉ p.toList) :
    splitText sep (joinTexts (String.singleton sep) pieces) = pieces := by
  have hlist : (joinTexts (String.singleton sep) pieces).toList =
      [sep].intercalate (pieces.map String.toList) := by
    simp [joinTexts]
  rw [splitText_eq, hlist, List.splitOn_intercalate]
  · simp [List.map_map, Function.comp_def]
  · simpa using h
  · simpa using hne

/-! ## Numbers -/

theorem isDigit_of_mem_toString {n : Nat} {c : Char} (h : c ∈ (toString n).toList) : c.isDigit = true := by
  rw [Nat.toString_eq_repr, Nat.toList_repr] at h
  exact Nat.isDigit_of_mem_toDigits (by decide) (by decide) h

/-- A separator that is no digit stands in no number. -/
theorem notMem_toString {c : Char} (hc : c.isDigit = false) (n : Nat) : c ∉ (toString n).toList := by
  intro hmem
  rw [isDigit_of_mem_toString hmem] at hc
  exact Bool.noConfusion hc

end FileExchange.Text

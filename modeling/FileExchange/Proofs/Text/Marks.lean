import FileExchange.Text.Utf8
import Mathlib.Data.List.Basic

/-!
# Marks

Cutting bytes at the first occurrence of a mark. What stands before it holds no mark, and bytes without the
first byte of the mark hold no occurrence and none begins in them.
-/

set_option autoImplicit false

namespace FileExchange

/-- What stands before the first occurrence of a mark, and what stands behind it. -/
def cutAt (mark : Bytes) : Bytes → Option (Bytes × Bytes)
  | [] => if mark.isEmpty then some ([], []) else none
  | b :: rest =>
    if mark.isPrefixOf (b :: rest) then some ([], (b :: rest).drop mark.length)
    else (cutAt mark rest).map fun cut => (b :: cut.1, cut.2)

theorem cutAt_mark (mark rest : Bytes) : cutAt mark (mark ++ rest) = some ([], rest) := by
  have hprefix : mark.isPrefixOf (mark ++ rest) = true :=
    List.isPrefixOf_iff_prefix.mpr (List.prefix_append mark rest)
  cases hbytes : mark ++ rest with
  | nil =>
    obtain ⟨rfl, rfl⟩ := List.append_eq_nil_iff.mp hbytes
    rfl
  | cons b bytes =>
    rw [hbytes] at hprefix
    rw [cutAt, if_pos hprefix, ← hbytes, List.drop_left]

theorem cutAt_step {mark : Bytes} {b : UInt8} {rest : Bytes} (h : ¬ mark <+: b :: rest) :
    cutAt mark (b :: rest) = (cutAt mark rest).map fun cut => (b :: cut.1, cut.2) := by
  rw [cutAt, if_neg fun hprefix => h (List.isPrefixOf_iff_prefix.mp hprefix)]

/-- A mark that begins nowhere in the front is looked for behind it. -/
theorem cutAt_append {mark front rest : Bytes}
    (h : ∀ more, more <:+ front → more ≠ [] → ¬ mark <+: more ++ rest) :
    cutAt mark (front ++ rest) = (cutAt mark rest).map fun cut => (front ++ cut.1, cut.2) := by
  induction front with
  | nil => simp
  | cons b front ih =>
    have hstep : ¬ mark <+: b :: (front ++ rest) :=
      h (b :: front) List.suffix_rfl (List.cons_ne_nil b front)
    have hmore : ∀ more, more <:+ front → more ≠ [] → ¬ mark <+: more ++ rest :=
      fun more hmore => h more (hmore.trans (List.suffix_cons b front))
    rw [List.cons_append, cutAt_step hstep, ih hmore, Option.map_map]
    rfl

section First

variable {m : UInt8} (mark : Bytes)

theorem cutAt_append_of_notMem {front : Bytes} (h : m ∉ front) (rest : Bytes) :
    cutAt (m :: mark) (front ++ rest) =
      (cutAt (m :: mark) rest).map fun cut => (front ++ cut.1, cut.2) := by
  refine cutAt_append fun more hmore hne hprefix => ?_
  obtain ⟨b, more, rfl⟩ := List.exists_cons_of_ne_nil hne
  rw [(List.cons_prefix_cons.mp hprefix).1] at h
  exact h (hmore.mem List.mem_cons_self)

/-- The first mark is the one behind bytes that do not hold its first byte. -/
theorem cutAt_of_notMem {front : Bytes} (h : m ∉ front) (rest : Bytes) :
    cutAt (m :: mark) (front ++ (m :: mark ++ rest)) = some (front, rest) := by
  rw [cutAt_append_of_notMem mark h, cutAt_mark, Option.map_some, List.append_nil]

end First

/-- The first mark is the one behind bytes that do not hold its last byte. -/
theorem cutAt_last {m : UInt8} {mark front : Bytes} (hmark : m ∉ mark) (hfront : m ∉ front) (rest : Bytes) :
    cutAt (mark ++ [m]) (front ++ (mark ++ [m] ++ rest)) = some (front, rest) := by
  rw [cutAt_append fun more hmore hne hprefix => ?_, cutAt_mark, Option.map_some, List.append_nil]
  have hbehind : more ++ mark <+: more ++ (mark ++ [m] ++ rest) :=
    (List.prefix_append_right_inj more).mpr ⟨[m] ++ rest, by rw [List.append_assoc]⟩
  have hlength : (mark ++ [m]).length ≤ (more ++ mark).length := by
    have hpos := List.length_pos_iff.mpr hne
    simp only [List.length_append, List.length_singleton]
    omega
  have hmem : m ∈ more ++ mark := (List.prefix_of_prefix_length_le hprefix hbehind hlength).subset (by simp)
  rcases List.mem_append.mp hmem with hmem | hmem
  · exact hfront (hmore.subset hmem)
  · exact hmark hmem

theorem cutAt_eq_some {mark bytes front rest : Bytes} (h : cutAt mark bytes = some (front, rest)) :
    bytes = front ++ mark ++ rest := by
  fun_induction cutAt mark bytes generalizing front with
  | case1 hmark =>
    cases h
    simpa using hmark
  | case2 => cases h
  | case3 b bytes hprefix =>
    cases h
    obtain ⟨more, hmore⟩ := List.isPrefixOf_iff_prefix.mp hprefix
    rw [← hmore, List.drop_left, List.nil_append]
  | case4 b bytes hprefix ih =>
    obtain ⟨⟨front', rest'⟩, hcut, hpair⟩ := Option.map_eq_some_iff.mp h
    cases hpair
    rw [ih hcut]
    rfl

theorem cutAt_eq_none_iff {mark bytes : Bytes} (hmark : mark ≠ []) :
    cutAt mark bytes = none ↔ ¬ mark <:+: bytes := by
  fun_induction cutAt mark bytes with
  | case1 hempty => exact absurd (List.isEmpty_iff.mp hempty) hmark
  | case2 => simpa using hmark
  | case3 b bytes hprefix =>
    simpa using (List.isPrefixOf_iff_prefix.mp hprefix).isInfix
  | case4 b bytes hprefix ih =>
    rw [Option.map_eq_none_iff, ih, List.infix_cons_iff, not_or]
    exact ⟨fun h => ⟨fun h' => hprefix (List.isPrefixOf_iff_prefix.mpr h'), h⟩, And.right⟩

/-- No mark stands before the first one. -/
theorem not_infix_of_cutAt {mark bytes front rest : Bytes} (hmark : mark ≠ [])
    (h : cutAt mark bytes = some (front, rest)) : ¬ mark <:+: front := by
  fun_induction cutAt mark bytes generalizing front with
  | case1 hempty => exact absurd (List.isEmpty_iff.mp hempty) hmark
  | case2 => cases h
  | case3 b bytes hprefix =>
    cases h
    simpa using hmark
  | case4 b bytes hprefix ih =>
    obtain ⟨⟨front', rest'⟩, hcut, hpair⟩ := Option.map_eq_some_iff.mp h
    cases hpair
    have hlonger : b :: bytes = (b :: front') ++ (mark ++ rest') := by
      rw [cutAt_eq_some hcut, List.append_assoc]
      rfl
    rw [List.infix_cons_iff, not_or]
    refine ⟨fun hshort => hprefix (List.isPrefixOf_iff_prefix.mpr ?_), ih hcut⟩
    rw [hlonger]
    exact hshort.trans (List.prefix_append (b :: front') _)

/-- A mark that is there is the first one however the bytes go on. -/
theorem cutAt_more {mark bytes front rest : Bytes} (h : cutAt mark bytes = some (front, rest))
    (more : Bytes) : cutAt mark (bytes ++ more) = some (front, rest ++ more) := by
  fun_induction cutAt mark bytes generalizing front with
  | case1 hmark =>
    cases h
    rw [List.isEmpty_iff.mp hmark]
    exact cutAt_mark [] more
  | case2 => cases h
  | case3 b bytes hprefix =>
    cases h
    obtain ⟨rest, hrest⟩ := List.isPrefixOf_iff_prefix.mp hprefix
    rw [← hrest, List.drop_left, List.append_assoc, cutAt_mark]
  | case4 b bytes hprefix ih =>
    obtain ⟨⟨front', rest'⟩, hcut, hpair⟩ := Option.map_eq_some_iff.mp h
    cases hpair
    have hlonger : ¬ mark <+: b :: (bytes ++ more) := by
      intro hlong
      have hlen : mark.length ≤ (b :: bytes).length := by
        rw [cutAt_eq_some hcut]
        simp only [List.length_cons, List.length_append]
        omega
      exact hprefix (List.isPrefixOf_iff_prefix.mpr
        (List.prefix_of_prefix_length_le hlong (List.prefix_append (b :: bytes) more) hlen))
    rw [List.cons_append, cutAt, if_neg fun hlong => hlonger (List.isPrefixOf_iff_prefix.mp hlong),
      ih hcut]
    rfl

end FileExchange

import FileExchange.AccessRecord
import Mathlib.Tactic.SplitIfs

/-!
# Visible characters

Numbers in every spelling and JSON records are made of the visible characters of ASCII and spaces alone, so that
each of them stands on one line.
-/

set_option autoImplicit false

namespace FileExchange

namespace Text

/-- Only the visible characters of ASCII and the space. -/
def Visible (s : List Char) : Prop :=
  ∀ c ∈ s, 0x20 ≤ c.toNat ∧ c.toNat < 0x7F

instance (s : List Char) : Decidable (Visible s) :=
  List.decidableBAll _ s

theorem visible_nil : Visible [] := nofun

theorem Visible.append {a b : List Char} (ha : Visible a) (hb : Visible b) : Visible (a ++ b) :=
  fun c hc => (List.mem_append.mp hc).elim (ha c) (hb c)

theorem Visible.cons {c : Char} {s : List Char} (hc : Visible [c]) (hs : Visible s) : Visible (c :: s) :=
  hc.append hs

theorem Visible.subset {a b : List Char} (hb : Visible b) (h : a ⊆ b) : Visible a :=
  fun c hc => hb c (h hc)

theorem Visible.flatMap {α : Type} {f : α → List Char} (hf : ∀ a, Visible (f a)) (l : List α) :
    Visible (l.flatMap f) := by
  intro c hc
  obtain ⟨a, _, hmem⟩ := List.mem_flatMap.mp hc
  exact hf a c hmem

theorem visible_intercalate {sep : List Char} (hsep : Visible sep) {texts : List (List Char)}
    (h : ∀ s ∈ texts, Visible s) : Visible (sep.intercalate texts) := by
  induction texts with
  | nil => exact visible_nil
  | cons s texts ih =>
    have hs := h s List.mem_cons_self
    have hrest : ∀ s ∈ texts, Visible s := fun s' hs' => h s' (List.mem_cons_of_mem s hs')
    cases texts with
    | nil => rwa [List.intercalate_singleton]
    | cons next more =>
      rw [List.intercalate_cons_cons]
      exact (hs.append hsep).append (ih hrest)

end Text

open Text

/-! ## Numbers -/

namespace Number

theorem visible_decimalDigits (n : Nat) : Visible (decimalDigits n) := by
  intro c hc
  have hdigit := Nat.isDigit_of_mem_toDigits (by decide) (by decide) hc
  simp only [Char.isDigit, Bool.and_eq_true, decide_eq_true_eq, UInt32.le_iff_toNat_le] at hdigit
  have hlow : 48 ≤ c.toNat := hdigit.1
  have hhigh : c.toNat ≤ 57 := hdigit.2
  omega

theorem toList_toString (n : Int) :
    (toString n).toList = signChars (decide (n < 0)) ++ decimalDigits n.natAbs := by
  cases n with
  | ofNat n =>
    have hdigits : (toString (Int.ofNat n)).toList = decimalDigits n := String.toList_ofList
    exact hdigits
  | negSucc n =>
    change ("-" ++ String.ofList (decimalDigits (n + 1))).toList = _
    simp [signChars]

theorem visible_zeros (n : Nat) : Visible (zeros n) := by
  intro c hc
  rw [List.eq_of_mem_replicate hc]
  decide

theorem visible_signChars (negative : Bool) : Visible (signChars negative) := by
  cases negative <;> decide

theorem visible_toString (n : Int) : Visible (toString n).toList := by
  rw [toList_toString]
  exact (visible_signChars _).append (visible_decimalDigits _)

theorem visible_positional {ds : List Char} (h : Visible ds) (lead : Int) : Visible (positional ds lead) := by
  have htake := h.subset (List.take_subset (lead.toNat + 1) ds)
  have hdrop := h.subset (List.drop_subset (lead.toNat + 1) ds)
  unfold positional
  split
  · exact .cons (by decide) (.cons (by decide) ((visible_zeros _).append h))
  · refine (htake.append (visible_zeros _)).append (.cons (by decide) ?_)
    split
    · decide
    · exact hdrop

theorem visible_scientific {ds : List Char} (h : Visible ds) (lead : Int) : Visible (scientific ds lead) := by
  have hexponent : Visible ('e' :: (if lead < 0 then '-' else '+') ::
      zeros (2 - (decimalDigits lead.natAbs).length)) := by
    have hsign : Visible ['e', if lead < 0 then '-' else '+'] := by
      split <;> decide
    exact hsign.append (visible_zeros _)
  have hmantissa : ∀ d e rest, Visible (d :: e :: rest) → Visible (d :: '.' :: e :: rest) := by
    intro d e rest hdigits
    have hfirst : Visible [d] := hdigits.subset (by simp)
    have hrest : Visible (e :: rest) := hdigits.subset (List.subset_cons_self d _)
    exact hfirst.cons (.cons (by decide) hrest)
  unfold scientific
  rcases ds with _ | ⟨d, _ | ⟨e, rest⟩⟩
  · exact (h.append hexponent).append (visible_decimalDigits _)
  · exact (h.append hexponent).append (visible_decimalDigits _)
  · exact ((hmantissa d e rest h).append hexponent).append (visible_decimalDigits _)

theorem dropTrailingZeros_subset (ds : List Char) : dropTrailingZeros ds ⊆ ds :=
  fun _ hc => List.mem_reverse.mp (List.dropWhile_subset _ (List.mem_reverse.mp hc))

theorem visible_shortestChars (mantissa : Nat) (exponent : Int) :
    Visible (shortestChars mantissa exponent) := by
  have hdigits : ∀ n, Visible (dropTrailingZeros (decimalDigits n)) := fun n =>
    (visible_decimalDigits n).subset (dropTrailingZeros_subset _)
  unfold shortestChars
  dsimp only
  split
  · exact visible_positional (hdigits _) _
  · exact visible_scientific (hdigits _) _

theorem visible_shortestText {spelling : Spelling} (hnan : Visible spelling.notANumber.toList)
    (hinf : Visible spelling.infinity.toList) (x : Binary64) :
    Visible (shortestText spelling x).toList := by
  unfold shortestText
  split
  · exact hnan
  · rw [String.toList_append, String.toList_ofList]
    exact (visible_signChars _).append hinf
  · rw [String.toList_append, String.toList_ofList]
    exact (visible_signChars _).append (by decide)
  · rw [String.toList_ofList]
    exact (visible_signChars _).append (visible_shortestChars _ _)

end Number

open Number

theorem Binary64.visible_fixedText (x : Binary64) : Visible x.fixedText.toList := by
  cases x with
  | notANumber => decide
  | infinite negative =>
    rw [fixedText, String.toList_append, String.toList_ofList]
    exact (visible_signChars _).append (by decide)
  | finite negative m e =>
    simp only [fixedText, String.toList_ofList]
    refine ((((visible_signChars _).append (visible_decimalDigits _)).append ?_).append
      (visible_decimalDigits _))
    exact .cons (by decide) (visible_zeros _)

/-! ## JSON records -/

namespace JsonText

theorem visible_hex (width n : Nat) : Visible (Quoted.hex width n) := by
  have hdigit : ∀ d < 16, Visible [Quoted.hexDigit d] := by decide
  have honto : ∀ out, Visible out → Visible (Quoted.hexOnto out width n) := by
    induction width generalizing n with
    | zero => exact fun out hout => hout
    | succ width ih => exact fun out hout => ih (n / 16) _ (.cons (hdigit _ (Nat.mod_lt n (by decide))) hout)
  exact honto [] visible_nil

theorem visible_unit (n : Nat) : Visible (unit n) :=
  .cons (by decide) (.cons (by decide) (visible_hex 4 n))

theorem visible_escapeChar (c : Char) : Visible (escapeChar c) := by
  unfold escapeChar
  dsimp only
  split_ifs with hescaped _ _ _ _ _ hvisible
  · refine .cons (by decide) ?_
    simp only [Bool.or_eq_true, beq_iff_eq] at hescaped
    rcases hescaped with rfl | rfl <;> decide
  · decide
  · decide
  · decide
  · decide
  · decide
  · simp only [Bool.and_eq_true, decide_eq_true_eq] at hvisible
    exact fun d hd => List.mem_singleton.mp hd ▸ hvisible
  · exact visible_unit _
  · exact (visible_unit _).append (visible_unit _)

theorem visible_quote (s : String) : Visible (quote s).toList := by
  rw [quote, String.toList_ofList]
  exact (Visible.cons (by decide) (.flatMap visible_escapeChar _)).append (by decide)

theorem Value.visible_written (v : Value) : Visible v.written.toList := by
  cases v with
  | text s => exact visible_quote s
  | integer n => exact visible_toString n
  | number x => exact visible_shortestText (by decide) (by decide) x

/-- Whatever its texts hold, a record stands on one line. -/
theorem visible_recordText (fields : List (String × Value)) : Visible (recordText fields).toList := by
  have hfield : ∀ field : String × Value, Visible (quote field.1 ++ ": " ++ field.2.written).toList := by
    intro field
    rw [String.toList_append, String.toList_append]
    exact ((visible_quote _).append (by decide)).append field.2.visible_written
  rw [recordText, String.toList_append, String.toList_append, String.toList_intercalate]
  refine (Visible.append (by decide) (visible_intercalate (by decide) fun s hs => ?_)).append (by decide)
  obtain ⟨text, htext, rfl⟩ := List.mem_map.mp hs
  obtain ⟨field, _, rfl⟩ := List.mem_map.mp htext
  exact hfield field

end JsonText

end FileExchange

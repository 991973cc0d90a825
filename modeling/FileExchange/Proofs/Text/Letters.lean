import FileExchange.Proofs.Text.Words
import FileExchange.Text.Letters
import Mathlib.Data.List.TakeWhile

/-!
# Letter case

Two texts are equal up to the case of ASCII letters exactly if they have the same small letters. What does not look
at letters goes through making them small, and so does lower case, which knows one capital more.
-/

set_option autoImplicit false

namespace FileExchange.Text

/-! ## Single characters -/

/-- A character that is no letter of ASCII. -/
def IsCaseless (c : Char) : Prop :=
  c.toNat < 65 ∨ (90 < c.toNat ∧ c.toNat < 97) ∨ 122 < c.toNat

instance (c : Char) : Decidable (IsCaseless c) :=
  inferInstanceAs (Decidable (_ ∨ _))

/-- A capital letter of ASCII stands 32 places before its small letter; no other character changes. -/
theorem toLower_cases (c : Char) :
    (65 ≤ c.toNat ∧ c.toNat ≤ 90 ∧ c.toLower.toNat = c.toNat + 32) ∨
      ((c.toNat < 65 ∨ 90 < c.toNat) ∧ c.toLower = c) := by
  have hfirst : 'A'.val.toNat = 65 := rfl
  have hlast : 'Z'.val.toNat = 90 := rfl
  have hstep : ('a'.val - 'A'.val).toNat = 32 := rfl
  have hval : c.val.toNat = c.toNat := rfl
  unfold Char.toLower
  split
  · rename_i h
    simp only [ge_iff_le, UInt32.le_iff_toNat_le, hfirst, hlast, hval] at h
    refine Or.inl ⟨h.1, h.2, ?_⟩
    show (c.val + ('a'.val - 'A'.val)).toNat = c.toNat + 32
    rw [UInt32.toNat_add, hstep, hval]
    omega
  · rename_i h
    simp only [ge_iff_le, UInt32.le_iff_toNat_le, hfirst, hlast, hval] at h
    exact Or.inr ⟨by omega, rfl⟩

theorem toLower_eq_iff {d : Char} (hd : IsCaseless d) (c : Char) : c.toLower = d ↔ c = d := by
  unfold IsCaseless at hd
  rcases toLower_cases c with ⟨hleast, hmost, hlower⟩ | ⟨_, hsame⟩
  · refine ⟨fun h => ?_, fun h => ?_⟩
    · rw [h] at hlower
      omega
    · rw [h] at hleast hmost
      omega
  · rw [hsame]

theorem toLower_toLower (c : Char) : c.toLower.toLower = c.toLower := by
  rcases toLower_cases c with ⟨hleast, hmost, hlower⟩ | ⟨_, hsame⟩
  · rcases toLower_cases c.toLower with ⟨hcapital, hlimit, _⟩ | ⟨_, hsame⟩
    · omega
    · exact hsame
  · rw [hsame, hsame]

theorem lowerChar_toLower (c : Char) : lowerChar c.toLower = lowerChar c := by
  have hsign : c.toLower = '\u212A' ↔ c = '\u212A' := toLower_eq_iff (by decide) c
  unfold lowerChar
  rw [toLower_toLower]
  by_cases hc : c = '\u212A'
  · rw [hsign.mpr hc, hc]
  · have hc' : c.toLower ≠ '\u212A' := fun h => hc (hsign.mp h)
    rw [if_neg (by simpa using hc'), if_neg (by simpa using hc)]

/-- No blank is a letter. -/
theorem isBlank_toLower (c : Char) : isBlank c.toLower = isBlank c := by
  rcases toLower_cases c with ⟨hleast, hmost, hlower⟩ | ⟨_, hsame⟩
  · have hletter : ∀ n : Nat, 65 ≤ n → n ≤ 122 → ∀ d : Char, d.toNat = n → isBlank d = false := by
      intro n hn hn' d hd
      simp only [isBlank, hd, Bool.or_eq_false_iff, Bool.and_eq_false_iff, decide_eq_false_iff_not, beq_eq_false_iff_ne]
      omega
    rw [hletter _ (by omega) (by omega) c.toLower rfl, hletter _ hleast (by omega) c rfl]
  · rw [hsame]

/-! ## Small letters -/

/-- A text with the capital letters of ASCII made small. -/
def small (s : List Char) : List Char :=
  s.map Char.toLower

@[simp] theorem small_nil : small [] = [] := rfl

@[simp] theorem small_append (s s' : List Char) : small (s ++ s') = small s ++ small s' :=
  List.map_append

@[simp] theorem small_reverse (s : List Char) : small s.reverse = (small s).reverse :=
  List.map_reverse

@[simp] theorem length_small (s : List Char) : (small s).length = s.length :=
  List.length_map _

theorem small_cons_caseless {c : Char} (hc : IsCaseless c) (s : List Char) : small (c :: s) = c :: small s := by
  rw [small, List.map_cons, (toLower_eq_iff hc c).mpr rfl]
  rfl

theorem mem_small {c : Char} (hc : IsCaseless c) (s : List Char) : c ∈ small s ↔ c ∈ s := by
  rw [small, List.mem_map]
  refine ⟨fun ⟨d, hmem, hd⟩ => ?_, fun h => ⟨c, h, (toLower_eq_iff hc c).mpr rfl⟩⟩
  rwa [← (toLower_eq_iff hc d).mp hd]

theorem small_eq_nil {s : List Char} : small s = [] ↔ s = [] :=
  List.map_eq_nil_iff

/-- Making letters small moves no cut at a character that is no letter. -/
theorem small_eq_append {c : Char} (hc : IsCaseless c) {s front back : List Char} (h : small s = front ++ c :: back) :
    ∃ front' back', s = front' ++ c :: back' ∧ small front' = front ∧ small back' = back := by
  obtain ⟨front', rest, rfl, hfront, hrest⟩ := List.map_eq_append_iff.mp h
  obtain ⟨d, back', rfl, hd, hback⟩ := List.map_eq_cons_iff.mp hrest
  rw [(toLower_eq_iff hc d).mp hd]
  exact ⟨front', back', rfl, hfront, hback⟩

theorem takeWhile_small {p : Char → Bool} (hp : ∀ c, p c.toLower = p c) (s : List Char) :
    (small s).takeWhile p = small (s.takeWhile p) := by
  rw [small, List.takeWhile_map]
  congr 2
  funext c
  exact hp c

theorem dropWhile_small {p : Char → Bool} (hp : ∀ c, p c.toLower = p c) (s : List Char) :
    (small s).dropWhile p = small (s.dropWhile p) := by
  rw [small, List.dropWhile_map]
  congr 2
  funext c
  exact hp c

theorem filter_small {p : Char → Bool} (hp : ∀ c, p c.toLower = p c) (s : List Char) :
    (small s).filter p = small (s.filter p) := by
  rw [small, List.filter_map]
  congr 2
  funext c
  exact hp c

theorem lower_small (s : List Char) : lower (small s) = lower s := by
  rw [lower, small, List.map_map, lower]
  congr 1
  funext c
  exact lowerChar_toLower c

/-- Texts that differ in the case of ASCII letters alone have the same lower case. -/
theorem lower_eq_of_small {s s' : List Char} (h : small s = small s') : lower s = lower s' := by
  rw [← lower_small, h, lower_small]

/-- Only a word with the letter k has a spelling in which a sign stands for one of its letters. -/
theorem lower_eq_iff {word : List Char} (hk : 'k' ∉ word) (hsign : '\u212A' ∉ word) (s : List Char) :
    lower s = word ↔ small s = word := by
  have hchar : ∀ c ∈ s, c ≠ '\u212A' → lowerChar c = c.toLower := fun c _ hc => if_neg (by simpa using hc)
  refine ⟨fun h => ?_, fun h => ?_⟩
  · rw [← h]
    refine (List.map_congr_left fun c hc => hchar c hc ?_).symm
    rintro rfl
    exact hk (h ▸ List.mem_map.mpr ⟨_, hc, rfl⟩)
  · rw [← h]
    refine List.map_congr_left fun c hc => hchar c hc ?_
    rintro rfl
    exact hsign (h ▸ List.mem_map.mpr ⟨_, hc, rfl⟩)

theorem isWord_of_small {w word : List Char} (hword : IsWord word) (h : small w = word) : IsWord w := by
  refine ⟨fun hnil => hword.ne_nil (by rw [← h, hnil, small_nil]), fun c hc => ?_⟩
  rw [← isBlank_toLower]
  exact hword.solid _ (h ▸ List.mem_map.mpr ⟨c, hc, rfl⟩)

end FileExchange.Text

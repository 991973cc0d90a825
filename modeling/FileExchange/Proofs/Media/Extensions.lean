import FileExchange.Media.Type
import FileExchange.Proofs.Text.Letters
import FileExchange.Proofs.Text.Pieces

/-!
# Extensions of names

Where a name is cut into what stands in front and an extension, for the last suffix of a file's name and for the
registry behind the own types. Without a scheme both ways of cutting find the same suffix wherever the registry finds
one that is more than a dot, and neither looks at the case of letters.
-/

set_option autoImplicit false

namespace FileExchange

open Text

/-! ## The last suffix of a name -/

namespace Path

theorem takeWhile_append_dot {p : Char → Bool} {tail : List Char} (htail : ∀ c ∈ tail, p c = true)
    (hdot : p '.' = false) (front : List Char) : (tail ++ '.' :: front).takeWhile p = tail := by
  rw [List.takeWhile_append_of_pos htail, List.takeWhile_cons_of_neg (by simp [hdot]), List.append_nil]

theorem suffixOf_append {name : String} {stem tail : List Char} (hname : name.toList = stem ++ '.' :: tail)
    (hstem : stem ≠ []) (htail : tail ≠ []) (hdot : '.' ∉ tail) : suffixOf name = '.' :: tail := by
  have hback : name.toList.reverse = tail.reverse ++ '.' :: stem.reverse := by simp [hname]
  have htake : (tail.reverse ++ '.' :: stem.reverse).takeWhile (· != '.') = tail.reverse := by
    refine takeWhile_append_dot (fun c hc => ?_) (by decide) _
    rw [List.mem_reverse] at hc
    simpa using fun h : c = '.' => hdot (h ▸ hc)
  obtain ⟨c, front, hfront⟩ := List.exists_cons_of_ne_nil (List.reverse_ne_nil_iff.mpr hstem)
  have hsome : ¬ tail.reverse.isEmpty = true := by simpa using htail
  simp only [suffixOf, hback, htake, List.drop_left]
  rw [hfront, if_neg hsome, List.reverse_reverse]
  rfl

/-- A suffix has more than its dot, and something stands in front of it. -/
theorem suffixOf_cases (name : String) :
    suffixOf name = [] ∨ ∃ stem tail, name.toList = stem ++ '.' :: tail ∧ stem ≠ [] ∧
      tail ≠ [] ∧ '.' ∉ tail ∧
      suffixOf name = '.' :: tail := by
  unfold suffixOf
  dsimp only
  generalize htake : name.toList.reverse.takeWhile (· != '.') = tail
  split
  · rename_i c front hdrop
    split
    · exact Or.inl rfl
    · rename_i hsome
      have hback : name.toList.reverse = tail ++ '.' :: c :: front := by
        rw [← hdrop, ← htake]
        exact List.prefix_iff_eq_append.mp (List.takeWhile_prefix _) |>.symm
      have hname : name.toList = (c :: front).reverse ++ '.' :: tail.reverse := by
        rw [← List.reverse_reverse name.toList, hback]
        simp
      have hdot : '.' ∉ tail := by
        intro hmem
        have hp := List.mem_takeWhile_imp (htake ▸ hmem)
        simp at hp
      refine Or.inr ⟨_, _, hname, by simp, by simpa using hsome, by simpa using hdot, rfl⟩
  · exact Or.inl rfl

end Path

/-! ## The extension that the registry sees -/

namespace Media

/-- Something other than dots stands at the end of a text, behind its last slash. -/
def Stands (base : List Char) : Prop :=
  ∃ c ∈ base.reverse.takeWhile (· != '/'), c ≠ '.'

theorem Stands.ne_nil {base : List Char} (h : Stands base) : base ≠ [] := by
  rintro rfl
  obtain ⟨c, hmem, _⟩ := h
  cases hmem

/-- What stands in front still stands there when more follows. -/
theorem Stands.append {base tail : List Char} (h : Stands base) (htail : '/' ∉ tail) : Stands (base ++ tail) := by
  obtain ⟨c, hmem, hdot⟩ := h
  refine ⟨c, ?_, hdot⟩
  have hpos : ∀ d ∈ tail.reverse, (d != '/') = true := fun d hd => by
    simpa using fun hslash : d = '/' => htail (hslash ▸ List.mem_reverse.mp hd)
  rw [List.reverse_append, List.takeWhile_append_of_pos hpos]
  exact List.mem_append_right _ hmem

theorem stands_small {base : List Char} : Stands (small base) ↔ Stands base := by
  have hslash : ∀ c : Char, (c.toLower != '/') = (c != '/') := fun c => by
    have h : c.toLower = '/' ↔ c = '/' := toLower_eq_iff (by decide) c
    simp [bne, beq_eq_decide, h]
  have hdot : ∀ c : Char, c.toLower = '.' ↔ c = '.' := toLower_eq_iff (by decide)
  unfold Stands
  rw [← small_reverse, takeWhile_small hslash]
  refine ⟨fun ⟨c, hmem, hc⟩ => ?_, fun ⟨c, hmem, hc⟩ => ?_⟩
  · obtain ⟨d, hd, rfl⟩ := List.mem_map.mp hmem
    exact ⟨d, hd, fun h => hc ((hdot d).mpr h)⟩
  · exact ⟨c.toLower, List.mem_map.mpr ⟨c, hmem, rfl⟩, fun h => hc ((hdot c).mp h)⟩

/-- A text whose last dot is in its last component, with something other than dots in front of it. -/
structure HasExtension (s base tail : List Char) : Prop where
  eq : s = base ++ '.' :: tail
  stands : Stands base
  dot_notMem : '.' ∉ tail
  slash_notMem : '/' ∉ tail

theorem HasExtension.splitExtension_eq {s base tail : List Char} (h : HasExtension s base tail) :
    splitExtension s = (base, '.' :: tail) := by
  have hback : s.reverse = tail.reverse ++ '.' :: base.reverse := by simp [h.eq]
  have htake : (tail.reverse ++ '.' :: base.reverse).takeWhile (fun c => c != '.' && c != '/') = tail.reverse := by
    refine Path.takeWhile_append_dot (fun c hc => ?_) (by decide) _
    rw [List.mem_reverse] at hc
    simp only [Bool.and_eq_true, bne_iff_ne]
    exact ⟨fun hdot => h.dot_notMem (hdot ▸ hc), fun hslash => h.slash_notMem (hslash ▸ hc)⟩
  have hdots : (base.reverse.takeWhile (· != '/')).all (· == '.') = false := by
    obtain ⟨c, hmem, hc⟩ := h.stands
    exact List.all_eq_false.mpr ⟨c, hmem, by simpa using hc⟩
  simp only [splitExtension, hback, htake, List.drop_left, hdots]
  simp

theorem splitExtension_cases (s : List Char) :
    splitExtension s = (s, []) ∨ ∃ base tail, HasExtension s base tail := by
  unfold splitExtension
  dsimp only
  generalize htake : s.reverse.takeWhile (fun c => c != '.' && c != '/') = tail
  split
  · rename_i front hdrop
    split
    · exact Or.inl rfl
    · rename_i hdots
      have hback : s.reverse = tail ++ '.' :: front := by
        rw [← hdrop, ← htake]
        exact List.prefix_iff_eq_append.mp (List.takeWhile_prefix _) |>.symm
      have hs : s = front.reverse ++ '.' :: tail.reverse := by
        rw [← List.reverse_reverse s, hback]
        simp
      have hstands : Stands front.reverse := by
        obtain ⟨c, hmem, hc⟩ := List.all_eq_false.mp (Bool.eq_false_iff.mpr hdots)
        exact ⟨c, by rwa [List.reverse_reverse], by simpa using hc⟩
      have htail : ∀ c ∈ tail, c ≠ '.' ∧ c ≠ '/' := by
        intro c hc
        rw [← htake] at hc
        simpa using List.mem_takeWhile_imp hc
      refine Or.inr ⟨_, _, hs, hstands, fun hmem => ?_, fun hmem => ?_⟩
      · exact (htail _ (List.mem_reverse.mp hmem)).1 rfl
      · exact (htail _ (List.mem_reverse.mp hmem)).2 rfl
  · exact Or.inl rfl

theorem HasExtension.of_small {s base tail : List Char} (h : HasExtension (small s) base tail) :
    ∃ base' tail', HasExtension s base' tail' := by
  obtain ⟨base', tail', hs, hbase, htail⟩ := small_eq_append (by decide) h.eq
  refine ⟨base', tail', hs, ?_, ?_, ?_⟩
  · rw [← stands_small, hbase]
    exact h.stands
  · rw [← mem_small (by decide), htail]
    exact h.dot_notMem
  · rw [← mem_small (by decide), htail]
    exact h.slash_notMem

theorem HasExtension.small {s base tail : List Char} (h : HasExtension s base tail) :
    HasExtension (small s) (small base) (small tail) where
  eq := by rw [h.eq, small_append, small_cons_caseless (by decide)]
  stands := stands_small.mpr h.stands
  dot_notMem := by rw [mem_small (by decide)]; exact h.dot_notMem
  slash_notMem := by rw [mem_small (by decide)]; exact h.slash_notMem

/-- Cutting at the extension does not look at the case of letters. -/
theorem splitExtension_small (s : List Char) :
    splitExtension (small s) = (small (splitExtension s).1, small (splitExtension s).2) := by
  rcases splitExtension_cases s with hnone | ⟨base, tail, h⟩
  · rcases splitExtension_cases (small s) with hsmall | ⟨base, tail, h⟩
    · rw [hsmall, hnone, small_nil]
    · obtain ⟨base', tail', h'⟩ := h.of_small
      rw [h'.splitExtension_eq] at hnone
      cases hnone
  · rw [h.splitExtension_eq, h.small.splitExtension_eq, small_cons_caseless (by decide)]

/-! ## Schemes -/

theorem bne_toLower {d : Char} (hd : IsCaseless d) (c : Char) : (c.toLower != d) = (c != d) := by
  simp [bne, beq_eq_decide, toLower_eq_iff hd c]

theorem isControlOrSpace_toLower (c : Char) : isControlOrSpace c.toLower = isControlOrSpace c := by
  unfold isControlOrSpace
  rcases toLower_cases c with ⟨hleast, hmost, hlower⟩ | ⟨_, hsame⟩
  · rw [hlower, decide_eq_decide]
    omega
  · rw [hsame]

theorem isLayout_toLower (c : Char) : isLayout c.toLower = isLayout c := by
  have hchar : ∀ d : Char, IsCaseless d → (c.toLower == d) = (c == d) := fun d hd => by
    simp [beq_eq_decide, toLower_eq_iff hd c]
  simp only [isLayout, hchar '\t' (by decide), hchar '\n' (by decide), hchar '\r' (by decide)]

theorem isAlpha_of_letter {c : Char} (h : 65 ≤ c.toNat ∧ c.toNat ≤ 90 ∨ 97 ≤ c.toNat ∧ c.toNat ≤ 122) :
    c.isAlpha = true := by
  have hval : c.val.toNat = c.toNat := rfl
  have halpha : c.isAlpha =
      (decide (65 ≤ c.val ∧ c.val ≤ 90) || (decide (97 ≤ c.val) && decide (c.val ≤ 122))) := rfl
  simp only [halpha, Bool.or_eq_true, Bool.and_eq_true, decide_eq_true_eq, UInt32.le_iff_toNat_le, hval]
  exact h

theorem isAlpha_toLower (c : Char) : c.toLower.isAlpha = c.isAlpha := by
  rcases toLower_cases c with ⟨hleast, hmost, hlower⟩ | ⟨_, hsame⟩
  · rw [isAlpha_of_letter (c := c) (Or.inl ⟨hleast, hmost⟩), isAlpha_of_letter (Or.inr (by omega))]
  · rw [hsame]

theorem isSchemeChar_toLower (c : Char) : isSchemeChar c.toLower = isSchemeChar c := by
  rcases toLower_cases c with ⟨hleast, hmost, hlower⟩ | ⟨_, hsame⟩
  · have hletter : ∀ d : Char, d.isAlpha = true → isSchemeChar d = true := fun d hd => by
      simp only [isSchemeChar, Char.isAlphanum, hd, Bool.true_or]
    rw [hletter c (isAlpha_of_letter (Or.inl ⟨hleast, hmost⟩)),
      hletter c.toLower (isAlpha_of_letter (Or.inr (by omega)))]
  · rw [hsame]

theorem endsLocation_toLower (scheme : List Char) (c : Char) :
    endsLocation scheme c.toLower = endsLocation scheme c := by
  have hchar : ∀ d : Char, IsCaseless d → (c.toLower == d) = (c == d) := fun d hd => by
    simp [beq_eq_decide, toLower_eq_iff hd c]
  simp only [endsLocation, hchar '#' (by decide), hchar '?' (by decide), hchar ';' (by decide)]

theorem isScheme_small (s : List Char) : isScheme (small s) = isScheme s := by
  cases s with
  | nil => rfl
  | cons c rest =>
    have hrest : (small rest).all isSchemeChar = rest.all isSchemeChar := by
      rw [small, List.all_map]
      congr 1
      funext c
      exact isSchemeChar_toLower c
    have hempty : (small rest).isEmpty = rest.isEmpty := List.isEmpty_map
    simp only [isScheme, small, List.map_cons, isAlpha_toLower]
    rw [← small, hrest, hempty]

theorem referenceOf_small (s : List Char) : referenceOf (small s) = small (referenceOf s) := by
  unfold referenceOf
  rw [dropWhile_small isControlOrSpace_toLower, filter_small fun c => by rw [isLayout_toLower]]

/-- A scheme does not depend on the case of letters, and neither does where the name of the file behind it ends. -/
theorem splitScheme_small (s : List Char) :
    splitScheme (small s) = (splitScheme s).map fun x => (x.1, small x.2) := by
  unfold splitScheme
  dsimp only
  rw [referenceOf_small, takeWhile_small (bne_toLower (by decide)), length_small, lower_small, isScheme_small, small,
    ← List.map_drop]
  generalize (referenceOf s).takeWhile (· != ':') = front
  cases (referenceOf s).drop front.length with
  | nil => rfl
  | cons c rest =>
    by_cases hc : c = ':'
    · subst hc
      have hends := takeWhile_small (p := fun c => !endsLocation (lower front) c)
        (fun c => by rw [endsLocation_toLower]) rest
      cases isScheme front with
      | true => exact congrArg (fun location => some (lower front, location)) hends
      | false => rfl
    · have hc' : c.toLower ≠ ':' := fun h => hc ((toLower_eq_iff (by decide) c).mp h)
      rw [List.map_cons]
      split
      · rename_i heq
        exact absurd (List.cons.inj heq).1 hc'
      · split
        · rename_i heq
          exact absurd (List.cons.inj heq).1 hc
        · rfl

/-- Names with the same small letters have the same scheme, if any, and what follows has the same small letters. -/
theorem splitScheme_of_small {s s' : List Char} (h : small s = small s') :
    (splitScheme s = none ∧ splitScheme s' = none) ∨
      ∃ scheme rest rest', splitScheme s = some (scheme, rest) ∧ splitScheme s' = some (scheme, rest') ∧
        small rest = small rest' := by
  have hsame := splitScheme_small s
  rw [h, splitScheme_small] at hsame
  cases hs : splitScheme s with
  | none =>
    rw [hs, Option.map_none, Option.map_eq_none_iff] at hsame
    exact Or.inl ⟨rfl, hsame⟩
  | some x =>
    rw [hs, Option.map_some, Option.map_eq_some_iff] at hsame
    obtain ⟨x', hs', heq⟩ := hsame
    obtain ⟨hscheme, hrest⟩ := Prod.mk.inj heq
    exact Or.inr ⟨x.1, x.2, x'.2, rfl, by rw [hs', ← hscheme], hrest.symm⟩

/-! ## The part of a name that the registry looks at -/

/-- What names the file behind the scheme of a name, if it has one; a `data:` name announces its type itself. -/
def registryText? (name : String) : Option (List Char) :=
  match splitScheme name.toList with
  | some (scheme, rest) => if String.ofList scheme == "data" then none else some rest
  | none => some name.toList

theorem guess_eq (name : String) :
    guess name = match registryText? name with
      | some s => registeredTypeOf s
      | none => ((splitScheme name.toList).bind fun x => announcedType x.2) := by
  unfold guess registryText?
  cases splitScheme name.toList with
  | none => rfl
  | some x =>
    obtain ⟨scheme, rest⟩ := x
    dsimp only
    split <;> rfl

/-- A fragment is no part of what the registry sees. -/
example : registryText? "ab:x.txt.bz2#y" = some "x.txt.bz2".toList := by decide

/-- Without a scheme the registry looks at the whole name. -/
theorem registryText?_of_plain {name : String} (h : splitScheme name.toList = none) :
    registryText? name = some name.toList := by
  rw [registryText?, h]

/-- The registry's extension of a whole name is its last suffix, if it is more than a dot. -/
theorem suffixOf_of_hasExtension {name : String} {base tail : List Char} (h : HasExtension name.toList base tail)
    (htail : tail ≠ []) : Path.suffixOf name = '.' :: tail :=
  Path.suffixOf_append h.eq h.stands.ne_nil htail h.dot_notMem

end Media

end FileExchange

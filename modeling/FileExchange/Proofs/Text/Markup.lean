import FileExchange.Text.Markup

/-!
# Markup read back

A reader of markup replaces every character reference by what it stands for. Escaped text holds no tag and is
read as the text that was escaped, by every reader that knows the references that escaping writes: three between
tags, and two more for the quotes inside an attribute.
-/

set_option autoImplicit false

namespace FileExchange.Markup

/-- What the reference behind an ampersand stands for and how many characters it takes, if there is one. -/
abbrev References := List Char → Option (List Char × Nat)

def unescapeChars (references : References) : List Char → List Char
  | [] => []
  | c :: s =>
    if c == '&' then
      match references s with
      | some (meaning, size) => meaning ++ unescapeChars references (s.drop size)
      | none => c :: unescapeChars references s
    else c :: unescapeChars references s
termination_by s => s.length

/-- The references that stand for the characters of tags mean what they do in every page. -/
structure References.Known (references : References) : Prop where
  ampersand : ∀ rest, references ("amp;".toList ++ rest) = some (['&'], 4)
  less : ∀ rest, references ("lt;".toList ++ rest) = some (['<'], 3)
  greater : ∀ rest, references ("gt;".toList ++ rest) = some (['>'], 3)

/-- The references that stand for quotes mean what they do in every page, too. -/
structure References.KnownQuoted (references : References) : Prop extends references.Known where
  quote : ∀ rest, references ("quot;".toList ++ rest) = some (['"'], 5)
  apostrophe : ∀ rest, references ("#x27;".toList ++ rest) = some (['\''], 5)

/-- The references that every kind of markup has. -/
def predefined : References := fun s =>
  [("amp;", '&'), ("lt;", '<'), ("gt;", '>'), ("quot;", '"'), ("#x27;", '\'')].findSome?
    fun (name, c) => if name.toList.isPrefixOf s then some ([c], name.length) else none

theorem known_predefined : predefined.Known :=
  ⟨fun _ => rfl, fun _ => rfl, fun _ => rfl⟩

theorem knownQuoted_predefined : predefined.KnownQuoted :=
  ⟨known_predefined, fun _ => rfl, fun _ => rfl⟩

variable {references : References}

theorem unescapeChars_reference {s meaning : List Char} {size : Nat}
    (h : references s = some (meaning, size)) :
    unescapeChars references ('&' :: s) = meaning ++ unescapeChars references (s.drop size) := by
  rw [unescapeChars, if_pos (by decide), h]

theorem unescapeChars_plain {c : Char} (hc : c ≠ '&') (s : List Char) :
    unescapeChars references (c :: s) = c :: unescapeChars references s := by
  rw [unescapeChars, if_neg (by simpa using hc)]

/-- An escaped character is a reference that means the character, or the character itself. -/
theorem escapeChar_cases (c : Char) :
    (c = '&' ∧ escapeChar c = '&' :: "amp;".toList) ∨ (c = '<' ∧ escapeChar c = '&' :: "lt;".toList) ∨
      (c = '>' ∧ escapeChar c = '&' :: "gt;".toList) ∨
      (c ≠ '&' ∧ c ≠ '<' ∧ c ≠ '>' ∧ escapeChar c = [c]) := by
  unfold escapeChar
  split
  · exact Or.inl ⟨rfl, by decide⟩
  · exact Or.inr (Or.inl ⟨rfl, by decide⟩)
  · exact Or.inr (Or.inr (Or.inl ⟨rfl, by decide⟩))
  · rename_i hand hless hgreater
    exact Or.inr (Or.inr (Or.inr ⟨hand, hless, hgreater, rfl⟩))

theorem unescapeChars_escapeChar (h : references.Known) (c : Char) (rest : List Char) :
    unescapeChars references (escapeChar c ++ rest) = c :: unescapeChars references rest := by
  rcases escapeChar_cases c with ⟨rfl, hc⟩ | ⟨rfl, hc⟩ | ⟨rfl, hc⟩ | ⟨hand, _, _, hc⟩
  · rw [hc, List.cons_append, unescapeChars_reference (h.ampersand rest)]
    rfl
  · rw [hc, List.cons_append, unescapeChars_reference (h.less rest)]
    rfl
  · rw [hc, List.cons_append, unescapeChars_reference (h.greater rest)]
    rfl
  · rw [hc, List.singleton_append, unescapeChars_plain hand]

theorem unescapeChars_escapeChars (h : references.Known) (s : List Char) :
    unescapeChars references (escapeChars s) = s := by
  induction s with
  | nil => rw [escapeChars, List.flatMap_nil, unescapeChars]
  | cons c s ih =>
    rw [escapeChars, List.flatMap_cons, unescapeChars_escapeChar h]
    exact congrArg (c :: ·) ih

/-! ## Text with quotes -/

theorem escapeQuotedChar_cases (c : Char) :
    (c = '"' ∧ escapeQuotedChar c = '&' :: "quot;".toList) ∨
      (c = '\'' ∧ escapeQuotedChar c = '&' :: "#x27;".toList) ∨ escapeQuotedChar c = escapeChar c := by
  unfold escapeQuotedChar
  split
  · exact Or.inl ⟨rfl, by decide⟩
  · exact Or.inr (Or.inl ⟨rfl, by decide⟩)
  · exact Or.inr (Or.inr rfl)

theorem unescapeChars_escapeQuotedChar (h : references.KnownQuoted) (c : Char) (rest : List Char) :
    unescapeChars references (escapeQuotedChar c ++ rest) = c :: unescapeChars references rest := by
  rcases escapeQuotedChar_cases c with ⟨rfl, hc⟩ | ⟨rfl, hc⟩ | hc
  · rw [hc, List.cons_append, unescapeChars_reference (h.quote rest)]
    rfl
  · rw [hc, List.cons_append, unescapeChars_reference (h.apostrophe rest)]
    rfl
  · rw [hc, unescapeChars_escapeChar h.toKnown]

theorem unescapeChars_escapeQuoted (h : references.KnownQuoted) (s : String) :
    unescapeChars references (escapeQuoted s).toList = s.toList := by
  rw [escapeQuoted, String.toList_ofList]
  generalize s.toList = s
  induction s with
  | nil => rw [List.flatMap_nil, unescapeChars]
  | cons c s ih =>
    rw [List.flatMap_cons, unescapeChars_escapeQuotedChar h, ih]

/-! ## Inert text -/

/-- The names of the references that escaping writes. -/
def escapeNames : List String := ["amp;", "lt;", "gt;"]

/-- Text in which no tag starts or ends, and every ampersand starts a reference that escaping writes. -/
structure Inert (s : List Char) : Prop where
  less : '<' ∉ s
  greater : '>' ∉ s
  ampersand : ∀ before after, s = before ++ '&' :: after → ∃ name ∈ escapeNames, name.toList <+: after

theorem inert_nil : Inert [] := by
  refine ⟨by simp, by simp, fun before after h => ?_⟩
  cases before <;> cases h

theorem Inert.append {s s' : List Char} (h : Inert s) (h' : Inert s') : Inert (s ++ s') := by
  refine ⟨by simp [h.less, h'.less], by simp [h.greater, h'.greater], fun before after hsplit => ?_⟩
  rcases List.append_eq_append_iff.mp hsplit with ⟨more, _, hright⟩ | ⟨more, hleft, hright⟩
  · exact h'.ampersand more after hright
  · cases more with
    | nil => exact h'.ampersand [] after hright.symm
    | cons c more =>
      obtain ⟨rfl, rfl⟩ := List.cons.inj hright
      obtain ⟨name, hname, hprefix⟩ := h.ampersand before more hleft
      exact ⟨name, hname, hprefix.trans (List.prefix_append more s')⟩

theorem inert_reference {name : String} (h : name ∈ escapeNames) : Inert ('&' :: name.toList) := by
  have hless : ∀ name ∈ escapeNames, '<' ∉ '&' :: name.toList := by decide
  have hgreater : ∀ name ∈ escapeNames, '>' ∉ '&' :: name.toList := by decide
  have hampersand : ∀ name ∈ escapeNames, '&' ∉ name.toList := by decide
  refine ⟨hless name h, hgreater name h, fun before after hsplit => ?_⟩
  cases before with
  | nil => exact ⟨name, h, (List.cons.inj hsplit).2 ▸ List.prefix_refl _⟩
  | cons c before =>
    have hmem : '&' ∈ name.toList := by
      rw [(List.cons.inj hsplit).2]
      exact List.mem_append_right _ List.mem_cons_self
    exact absurd hmem (hampersand name h)

theorem inert_singleton {c : Char} (hand : c ≠ '&') (hless : c ≠ '<') (hgreater : c ≠ '>') :
    Inert [c] := by
  refine ⟨by simpa using hless.symm, by simpa using hgreater.symm, fun before after hsplit => ?_⟩
  have hmem : '&' ∈ [c] := by
    rw [hsplit]
    exact List.mem_append_right _ List.mem_cons_self
  exact absurd (List.mem_singleton.mp hmem).symm hand

theorem inert_escapeChar (c : Char) : Inert (escapeChar c) := by
  rcases escapeChar_cases c with ⟨_, hc⟩ | ⟨_, hc⟩ | ⟨_, hc⟩ | ⟨hand, hless, hgreater, hc⟩ <;> rw [hc]
  · exact inert_reference (by decide)
  · exact inert_reference (by decide)
  · exact inert_reference (by decide)
  · exact inert_singleton hand hless hgreater

/-- No tag starts in text that is escaped for an attribute either. -/
theorem less_notMem_escapeQuoted (s : String) : '<' ∉ (escapeQuoted s).toList := by
  rw [escapeQuoted, String.toList_ofList]
  intro hmem
  obtain ⟨c, _, hc⟩ := List.mem_flatMap.mp hmem
  rcases escapeQuotedChar_cases c with ⟨_, hquote⟩ | ⟨_, hapostrophe⟩ | hplain
  · rw [hquote] at hc
    exact absurd hc (by decide)
  · rw [hapostrophe] at hc
    exact absurd hc (by decide)
  · rw [hplain] at hc
    exact (inert_escapeChar c).less hc

/-- No quote is left in it, so that it stands inside one. -/
theorem quote_notMem_escapeQuoted (s : String) : '"' ∉ (escapeQuoted s).toList := by
  rw [escapeQuoted, String.toList_ofList]
  intro hmem
  obtain ⟨c, _, hc⟩ := List.mem_flatMap.mp hmem
  unfold escapeQuotedChar at hc
  split at hc
  · exact absurd hc (by decide)
  · exact absurd hc (by decide)
  · rename_i hquote _
    rcases escapeChar_cases c with ⟨_, hand⟩ | ⟨_, hless⟩ | ⟨_, hgreater⟩ | ⟨_, _, _, hplain⟩
    · rw [hand] at hc
      exact absurd hc (by decide)
    · rw [hless] at hc
      exact absurd hc (by decide)
    · rw [hgreater] at hc
      exact absurd hc (by decide)
    · rw [hplain] at hc
      exact hquote (List.mem_singleton.mp hc).symm

theorem getLast?_escapeChars {s : List Char} (h : s.getLast? = some '\n') :
    (escapeChars s).getLast? = some '\n' := by
  obtain ⟨init, rfl⟩ := List.getLast?_eq_some_iff.mp h
  rw [escapeChars, List.flatMap_append, List.getLast?_append]
  rfl

/-- Escaped text is read as text alone. -/
theorem inert_escapeChars (s : List Char) : Inert (escapeChars s) := by
  induction s with
  | nil => exact inert_nil
  | cons c s ih =>
    rw [escapeChars, List.flatMap_cons]
    exact (inert_escapeChar c).append ih

end FileExchange.Markup

import FileExchange.Proofs.Media.Packing
import FileExchange.Proofs.Media.Type

/-!
# Spellings of a suffix

The own types and the registry look at a suffix in lower case, and only the packings count in one spelling. So the case
of a suffix decides the type of a file just where it decides whether the file is packed and there is a type for what
would be packed. In a name without a scheme that is so for four suffixes.
-/

set_option autoImplicit false

namespace FileExchange

open Text

namespace Media

/-! ## The registry -/

/-- The type of the extension in front of the last one. -/
def innerTypeOf (s : List Char) : Option String :=
  typeOfExtension? (splitExtension (splitExtension s).1).2

theorem innerTypeOf_of_small {s s' : List Char} (h : small s = small s') : innerTypeOf s = innerTypeOf s' := by
  have hsmall : ∀ s, small (splitExtension (splitExtension s).1).2 =
      (splitExtension (splitExtension (small s)).1).2 := fun s => by
    rw [splitExtension_small s, splitExtension_small]
  refine typeOfExtension?_of_small ?_
  rw [hsmall, h, ← hsmall]

/-- The extensions of packings in small letters, in which only some of them tell a packing. -/
def packingSuffixes : List String :=
  packingNames.map fun x => String.ofList (lower x.1.toList)

theorem typeOfExtension?_of_packing {ext : List Char} (h : String.ofList (lower ext) ∈ packingSuffixes) :
    typeOfExtension? ext = none := by
  have hnone : ∀ suffix ∈ packingSuffixes, registeredTypes.lookup suffix = none := by decide
  exact hnone _ h

section Text

variable {s base tail : List Char}

theorem registeredTypeOf_of_long (h : HasExtension s base tail) {inner packing : String}
    (hlong : longForm? ('.' :: tail) = some (inner, packing)) :
    registeredTypeOf s = typeOfExtension? ('.' :: inner.toList) := by
  rw [registeredTypeOf_eq, readingOf_of_long h hlong]

theorem registeredTypeOf_of_packed (h : HasExtension s base tail) (hshort : longForm? ('.' :: tail) = none)
    {packing : String} (hpacked : packingNames.lookup (String.ofList ('.' :: tail)) = some packing) :
    registeredTypeOf s = innerTypeOf s := by
  rw [registeredTypeOf_eq, readingOf_of_short h hshort, hpacked, innerTypeOf, h.splitExtension_eq]

theorem registeredTypeOf_of_plain (h : HasExtension s base tail) (hshort : longForm? ('.' :: tail) = none)
    (hplain : packingNames.lookup (String.ofList ('.' :: tail)) = none) :
    registeredTypeOf s = typeOfExtension? ('.' :: tail) := by
  rw [registeredTypeOf_eq, readingOf_of_short h hshort, hplain]

theorem packing_of_long (h : HasExtension s base tail) {inner packing : String}
    (hlong : longForm? ('.' :: tail) = some (inner, packing)) :
    (readingOf s).packing = packingNames.lookup ("." ++ packing) := by
  rw [readingOf_of_long h hlong]

theorem packing_of_short (h : HasExtension s base tail) (hshort : longForm? ('.' :: tail) = none) :
    (readingOf s).packing = packingNames.lookup (String.ofList ('.' :: tail)) := by
  rw [readingOf_of_short h hshort]
  cases packingNames.lookup (String.ofList ('.' :: tail)) <;> rfl

end Text

theorem lower_mem_packingSuffixes {ext : List Char} {packing : String}
    (h : packingNames.lookup (String.ofList ext) = some packing) : String.ofList (lower ext) ∈ packingSuffixes := by
  refine List.mem_map.mpr ⟨_, mem_of_lookup_eq_some h, ?_⟩
  rw [String.toList_ofList]

/-- No two packings are told by suffixes that differ in their case alone. -/
theorem packing_eq_of_lower {ext ext' : List Char} {packing packing' : String} (hlower : lower ext = lower ext')
    (h : packingNames.lookup (String.ofList ext) = some packing)
    (h' : packingNames.lookup (String.ofList ext') = some packing') : packing = packing' := by
  have hdistinct : ∀ x ∈ packingNames, ∀ y ∈ packingNames, lower x.1.toList = lower y.1.toList →
      x.2 = y.2 := by
    decide
  refine hdistinct _ (mem_of_lookup_eq_some h) _ (mem_of_lookup_eq_some h') ?_
  rw [String.toList_ofList, String.toList_ofList, hlower]

section Pairs

variable {s s' : List Char}

/-- Both spellings of a text have an extension, which is then the same up to its spelling, or none has. -/
theorem extension_cases (hsmall : small s = small s') :
    (splitExtension s = (s, []) ∧ splitExtension s' = (s', [])) ∨
      ∃ base tail base' tail', HasExtension s base tail ∧ HasExtension s' base' tail' ∧
        small ('.' :: tail) = small ('.' :: tail') := by
  have hsplit := splitExtension_small s
  rw [hsmall, splitExtension_small] at hsplit
  have hext := (Prod.mk.inj hsplit).2.symm
  rcases splitExtension_cases s with hnone | ⟨base, tail, h⟩
  · rcases splitExtension_cases s' with hnone' | ⟨base', tail', h'⟩
    · exact Or.inl ⟨hnone, hnone'⟩
    · rw [hnone, h'.splitExtension_eq] at hext
      exact absurd (small_eq_nil.mp hext.symm) (List.cons_ne_nil _ _)
  · rcases splitExtension_cases s' with hnone' | ⟨base', tail', h'⟩
    · rw [h.splitExtension_eq, hnone'] at hext
      exact absurd (small_eq_nil.mp hext) (List.cons_ne_nil _ _)
    · rw [h.splitExtension_eq, h'.splitExtension_eq] at hext
      exact Or.inr ⟨base, tail, base', tail', h, h', hext⟩

theorem registeredTypeOf_eq_iff_of_short {base tail base' tail' : List Char} (hsmall : small s = small s')
    (h : HasExtension s base tail) (h' : HasExtension s' base' tail')
    (hext : small ('.' :: tail) = small ('.' :: tail'))
    (hshort : longForm? ('.' :: tail) = none) (hshort' : longForm? ('.' :: tail') = none) :
    registeredTypeOf s = registeredTypeOf s' ↔
      innerTypeOf s = none ∨ (readingOf s).packing = (readingOf s').packing := by
  have hlower := lower_eq_of_small hext
  rw [packing_of_short h hshort, packing_of_short h' hshort']
  cases hp : packingNames.lookup (String.ofList ('.' :: tail)) with
  | none =>
    rw [registeredTypeOf_of_plain h hshort hp]
    cases hp' : packingNames.lookup (String.ofList ('.' :: tail')) with
    | none =>
      rw [registeredTypeOf_of_plain h' hshort' hp', typeOfExtension?_of_small hext]
      exact ⟨fun _ => Or.inr rfl, fun _ => rfl⟩
    | some packing' =>
      have hmem : String.ofList (lower ('.' :: tail)) ∈ packingSuffixes := hlower ▸ lower_mem_packingSuffixes hp'
      rw [registeredTypeOf_of_packed h' hshort' hp', typeOfExtension?_of_packing hmem, innerTypeOf_of_small hsmall]
      exact ⟨fun heq => Or.inl heq.symm, fun hor => (hor.resolve_right fun hno => by cases hno).symm⟩
  | some packing =>
    rw [registeredTypeOf_of_packed h hshort hp]
    cases hp' : packingNames.lookup (String.ofList ('.' :: tail')) with
    | none =>
      have hmem : String.ofList (lower ('.' :: tail')) ∈ packingSuffixes := hlower ▸ lower_mem_packingSuffixes hp
      rw [registeredTypeOf_of_plain h' hshort' hp', typeOfExtension?_of_packing hmem]
      exact ⟨Or.inl, fun hor => hor.resolve_right fun hno => by cases hno⟩
    | some packing' =>
      rw [registeredTypeOf_of_packed h' hshort' hp', innerTypeOf_of_small hsmall, packing_eq_of_lower hlower hp hp']
      exact ⟨fun _ => Or.inr rfl, fun _ => rfl⟩

/-- Two spellings of a text have the same type in the registry exactly if both tell the same packing, or nothing is
known of what would be packed. -/
theorem registeredTypeOf_eq_iff (hsmall : small s = small s') :
    registeredTypeOf s = registeredTypeOf s' ↔
      innerTypeOf s = none ∨ (readingOf s).packing = (readingOf s').packing := by
  rcases extension_cases hsmall with ⟨hnone, hnone'⟩ | ⟨base, tail, base', tail', h, h', hext⟩
  · rw [registeredTypeOf_eq, registeredTypeOf_eq, readingOf_of_none hnone, readingOf_of_none hnone']
    exact ⟨fun _ => Or.inr rfl, fun _ => rfl⟩
  · have hlong := longForm?_of_small hext
    cases hform : longForm? ('.' :: tail) with
    | none => exact registeredTypeOf_eq_iff_of_short hsmall h h' hext hform (hlong.symm.trans hform)
    | some form =>
      have hform' := hlong.symm.trans hform
      rw [registeredTypeOf_of_long h hform, registeredTypeOf_of_long h' hform', packing_of_long h hform,
        packing_of_long h' hform']
      exact ⟨fun _ => Or.inr rfl, fun _ => rfl⟩

/-- Only the suffix of a packing tells different packings in different spellings. -/
theorem exists_hasExtension_of_packing_ne (hsmall : small s = small s')
    (hne : (readingOf s).packing ≠ (readingOf s').packing) :
    ∃ base tail, HasExtension s base tail ∧ String.ofList (lower ('.' :: tail)) ∈ packingSuffixes := by
  rcases extension_cases hsmall with ⟨hnone, hnone'⟩ | ⟨base, tail, base', tail', h, h', hext⟩
  · rw [readingOf_of_none hnone, readingOf_of_none hnone'] at hne
    exact absurd rfl hne
  · refine ⟨base, tail, h, ?_⟩
    have hlong := longForm?_of_small hext
    cases hform : longForm? ('.' :: tail) with
    | some form =>
      rw [packing_of_long h hform, packing_of_long h' (hlong.symm.trans hform)] at hne
      exact absurd rfl hne
    | none =>
      rw [packing_of_short h hform, packing_of_short h' (hlong.symm.trans hform)] at hne
      cases hp : packingNames.lookup (String.ofList ('.' :: tail)) with
      | some packing => exact lower_mem_packingSuffixes hp
      | none =>
        obtain ⟨packing', hp'⟩ := Option.ne_none_iff_exists'.mp (hp ▸ hne).symm
        rw [lower_eq_of_small hext]
        exact lower_mem_packingSuffixes hp'

end Pairs

/-! ## Names -/

/-- Without a slash a type that a name announces is always the same. -/
theorem announcedType_eq {s : List Char} (h : '/' ∉ s) :
    announcedType s = if ',' ∈ s then some "text/plain" else none := by
  by_cases hcomma : ',' ∈ s
  · have hsome : ∃ type, announcedType s = some type := by
      unfold announcedType
      rw [if_pos (by simpa using hcomma)]
      dsimp only
      split
      · exact ⟨_, rfl⟩
      · exact ⟨_, rfl⟩
    obtain ⟨type, htype⟩ := hsome
    rw [if_pos hcomma, htype, announcedType_of_notMem h htype]
  · rw [if_neg hcomma, announcedType, if_neg (by simpa using hcomma)]

theorem registryText?_of_small {name name' : String} (h : small name.toList = small name'.toList) :
    (registryText? name).map small = (registryText? name').map small := by
  unfold registryText?
  rcases splitScheme_of_small h with ⟨hnone, hnone'⟩ | ⟨scheme, rest, rest', hsome, hsome', hrest⟩
  · rw [hnone, hnone']
    exact congrArg some h
  · rw [hsome, hsome']
    dsimp only
    split
    · rfl
    · exact congrArg some hrest

/-- The type of the extension in front of the last one that the registry sees in a name. -/
def innerType? (name : String) : Option String :=
  (registryText? name).bind innerTypeOf

theorem innerType?_of_small {name name' : String} (h : small name.toList = small name'.toList) :
    innerType? name = innerType? name' := by
  have htext := registryText?_of_small h
  unfold innerType?
  cases hs : registryText? name with
  | none =>
    rw [hs, Option.map_none, eq_comm, Option.map_eq_none_iff] at htext
    rw [htext]
  | some s =>
    rw [hs, Option.map_some, eq_comm, Option.map_eq_some_iff] at htext
    obtain ⟨s', hs', hsmall⟩ := htext
    rw [hs', Option.bind_some, Option.bind_some, innerTypeOf_of_small hsmall]

theorem guess_eq_iff {name name' : String} (hslash : '/' ∉ name.toList) (h : small name.toList = small name'.toList) :
    guess name = guess name' ↔ innerType? name = none ∨ packing? name = packing? name' := by
  have htext := registryText?_of_small h
  rw [guess_eq, guess_eq, innerType?, packing?, packing?]
  cases hs : registryText? name with
  | some s =>
    rw [hs, Option.map_some, eq_comm, Option.map_eq_some_iff] at htext
    obtain ⟨s', hs', hsmall⟩ := htext
    rw [hs']
    exact registeredTypeOf_eq_iff hsmall.symm
  | none =>
    rw [hs, Option.map_none, eq_comm, Option.map_eq_none_iff] at htext
    rw [htext]
    refine ⟨fun _ => Or.inl rfl, fun _ => ?_⟩
    have hslash' : '/' ∉ name'.toList := by
      rw [← mem_small (by decide), ← h, mem_small (by decide)]
      exact hslash
    dsimp only
    rcases splitScheme_of_small h with ⟨hnone, hnone'⟩ | ⟨scheme, rest, rest', hsome, hsome', hrest⟩
    · rw [hnone, hnone']
    · have hnot : '/' ∉ rest := fun hmem => hslash (mem_of_splitScheme hsome hmem)
      have hnot' : '/' ∉ rest' := fun hmem => hslash' (mem_of_splitScheme hsome' hmem)
      have hcomma : ',' ∈ rest ↔ ',' ∈ rest' := by
        rw [← mem_small (by decide), hrest, mem_small (by decide)]
      rw [hsome, hsome', Option.bind_some, Option.bind_some, announcedType_eq hnot, announcedType_eq hnot']
      simp only [hcomma]

/-! ## Paths -/

/-- Two paths that differ, if at all, in the case of ASCII letters in the last suffix of their names. -/
def Respelt (p q : Path) : Prop :=
  ∃ front stem ext, p.names = front ++ [String.ofList (stem ++ p.suffix)] ∧
    q = ⟨p.anchor, front ++ [String.ofList (stem ++ ext)]⟩ ∧ small ext = small p.suffix

section Respelling

variable {p q : Path}

/-- Another spelling of the last suffix is the last suffix of the other name. -/
theorem suffixOf_respelt {name : String} {stem ext : List Char} (hname : name.toList = stem ++ Path.suffixOf name)
    (hsmall : small ext = small (Path.suffixOf name)) : Path.suffixOf (String.ofList (stem ++ ext)) = ext := by
  rcases Path.suffixOf_cases name with hnone | ⟨stem', tail, hname', hstem, htail, hdot, hsuffix⟩
  · rw [hnone, small_nil, small_eq_nil] at hsmall
    rw [hnone, List.append_nil] at hname
    rw [hsmall, List.append_nil, ← hname, String.ofList_toList, hnone]
  · rw [hsuffix] at hname hsmall
    rw [hname] at hname'
    obtain rfl := List.append_cancel_right hname'
    have hcut : small ext = [] ++ '.' :: small tail := hsmall.trans (small_cons_caseless (by decide) tail)
    obtain ⟨front, tail', rfl, hfront, htail'⟩ := small_eq_append (by decide) hcut
    obtain rfl := small_eq_nil.mp hfront
    refine Path.suffixOf_append String.toList_ofList hstem ?_ ?_
    · rintro rfl
      exact htail (small_eq_nil.mp htail'.symm)
    · rw [← mem_small (by decide), htail', mem_small (by decide)]
      exact hdot

theorem name_concat (anchor : Anchor) (front : List String) (name : String) :
    Path.name ⟨anchor, front ++ [name]⟩ = name := by
  rw [Path.name, List.getLastD_eq_getLast?, List.getLast?_concat]
  rfl

theorem Respelt.small_name (h : Respelt p q) : small p.name.toList = small q.name.toList := by
  obtain ⟨front, stem, ext, hnames, rfl, hsmall⟩ := h
  have hname : p.name = String.ofList (stem ++ p.suffix) := by
    rw [← name_concat p.anchor front (String.ofList (stem ++ p.suffix)), ← hnames]
  rw [hname, name_concat, String.toList_ofList, String.toList_ofList, small_append, small_append, hsmall]

theorem Respelt.small_suffix (h : Respelt p q) : small p.suffix = small q.suffix := by
  obtain ⟨front, stem, ext, hnames, rfl, hsmall⟩ := h
  have hname : p.name = String.ofList (stem ++ p.suffix) := by
    rw [← name_concat p.anchor front (String.ofList (stem ++ p.suffix)), ← hnames]
  have hlist : p.name.toList = stem ++ Path.suffixOf p.name := by
    rw [hname, String.toList_ofList, ← hname]
    rfl
  rw [Path.suffix, Path.suffix, name_concat, suffixOf_respelt hlist hsmall]
  exact hsmall.symm

/-- Another spelling of the last suffix leaves the type as it is exactly if the server's own table knows the suffix,
nothing is known of what the file would pack, or both spellings tell the same packing. -/
theorem Respelt.typeOf?_eq_iff (h : Respelt p q) (hp : '/' ∉ p.name.toList) :
    typeOf? q = typeOf? p ↔
      ownType? p.suffix ≠ none ∨ innerType? p.name = none ∨ packing? q.name = packing? p.name := by
  have hown : ownType? q.suffix = ownType? p.suffix := by
    rw [ownType?, ownType?, lower_eq_of_small h.small_suffix]
  rw [typeOf?_eq, typeOf?_eq, hown]
  cases ownType? p.suffix with
  | some type => exact ⟨fun _ => Or.inl (Option.some_ne_none type), fun _ => rfl⟩
  | none =>
    rw [Option.none_or, Option.none_or, eq_comm, guess_eq_iff hp h.small_name, @eq_comm _ (packing? p.name)]
    exact ⟨Or.inr, fun hor => hor.resolve_left fun hne => hne rfl⟩

theorem exists_respelt {ext : List Char} (hsuffix : p.suffix ≠ []) (hsmall : small ext = small p.suffix) :
    ∃ q, Respelt p q ∧ q.suffix = ext := by
  rcases Path.suffixOf_cases p.name with hnone | ⟨stem, tail, hname, _, _, _, hcut⟩
  · exact absurd hnone hsuffix
  · rw [← hcut] at hname
    have hnames : p.names ≠ [] := by
      intro hnil
      have hempty : p.suffix = Path.suffixOf "" := by rw [Path.suffix, Path.name, hnil]; rfl
      exact hsuffix (hempty.trans (by decide))
    have hlast : p.name = p.names.getLast hnames := by
      rw [Path.name, List.getLastD_eq_getLast?, List.getLast?_eq_some_getLast hnames]
      rfl
    refine ⟨⟨p.anchor, p.names.dropLast ++ [String.ofList (stem ++ ext)]⟩,
      ⟨p.names.dropLast, stem, ext, ?_, rfl, hsmall⟩, ?_⟩
    · rw [Path.suffix, ← hname, String.ofList_toList, hlast, List.dropLast_concat_getLast]
    · rw [Path.suffix, name_concat, suffixOf_respelt hname hsmall]

end Respelling

/-- The type of a file and the way of serving it do not depend on the case of the last suffix of its name. -/
def CaseBlind (p : Path) : Prop :=
  ∀ q, Respelt p q → typeOf? q = typeOf? p ∧ classify q = classify p

theorem caseBlind_iff_typeOf? (p : Path) : CaseBlind p ↔ ∀ q, Respelt p q → typeOf? q = typeOf? p := by
  refine ⟨fun h q hq => (h q hq).1, fun h q hq => ⟨h q hq, ?_⟩⟩
  rw [classify, h q hq, classify]

/-- The case of the last suffix counts exactly where the server's own table does not know the suffix, the type of what
would be packed is known, and the case decides whether the file is packed. -/
theorem caseBlind_iff {p : Path} (hp : '/' ∉ p.name.toList) :
    CaseBlind p ↔ ownType? p.suffix ≠ none ∨ innerType? p.name = none ∨
      ∀ q, Respelt p q → packing? q.name = packing? p.name := by
  rw [caseBlind_iff_typeOf?]
  refine ⟨fun h => ?_, fun h q hq => (hq.typeOf?_eq_iff hp).mpr (h.imp_right (Or.imp_right fun h => h q hq))⟩
  by_cases hown : ownType? p.suffix = none
  · by_cases hinner : innerType? p.name = none
    · exact Or.inr (Or.inl hinner)
    · refine Or.inr (Or.inr fun q hq => ?_)
      exact (((hq.typeOf?_eq_iff hp).mp (h q hq)).resolve_left fun hne => hne hown).resolve_left hinner
  · exact Or.inl hown

/-- Nothing is known of what `Makefile.bz2` holds, so no spelling of it has a type. -/
theorem caseBlind_makefile :
    '/' ∉ (Path.ofString "/srv/Makefile.bz2").name.toList ∧ CaseBlind (Path.ofString "/srv/Makefile.bz2") := by
  have hname : '/' ∉ (Path.ofString "/srv/Makefile.bz2").name.toList := by decide
  have hinner : innerType? (Path.ofString "/srv/Makefile.bz2").name = none := by decide
  exact ⟨hname, (caseBlind_iff hname).mpr (Or.inr (Or.inl hinner))⟩

theorem not_caseBlind_packed :
    classify (Path.ofString "notes.txt.bz2") = (.text, "text/plain") ∧
      classify (Path.ofString "notes.txt.BZ2") = (.unknown, fallbackType) ∧
      ¬ CaseBlind (Path.ofString "notes.txt.bz2") := by
  have hpacked : classify (Path.ofString "notes.txt.bz2") = (.text, "text/plain") := by decide
  have hplain : classify (Path.ofString "notes.txt.BZ2") = (.unknown, fallbackType) := by decide
  have hrespelt : Respelt (Path.ofString "notes.txt.bz2") (Path.ofString "notes.txt.BZ2") :=
    ⟨[], "notes.txt".toList, ".BZ2".toList, by decide, by decide, by decide⟩
  refine ⟨hpacked, hplain, fun h => ?_⟩
  have hsame := (h _ hrespelt).2
  rw [hpacked, hplain] at hsame
  cases hsame

/-! ## Names without a scheme -/

/-- The suffixes of packings that the server's own table does not know, in small letters. -/
def boundSuffixes : List String := [".z", ".bz2", ".xz", ".br"]

/-- The letter k is in none of these suffixes. -/
theorem small_of_bound {ext : List Char} (h : String.ofList (lower ext) ∈ boundSuffixes) : small ext = lower ext := by
  have hletters : ∀ x ∈ boundSuffixes, 'k' ∉ x.toList ∧ '\u212A' ∉ x.toList := by decide
  obtain ⟨hk, hsign⟩ := hletters _ h
  rw [String.toList_ofList] at hk hsign
  exact (lower_eq_iff hk hsign ext).mp rfl

theorem ne_nil_of_bound {ext : List Char} (h : String.ofList (lower ext) ∈ boundSuffixes) : ext ≠ [] := by
  have hempty : String.ofList (lower []) ∉ boundSuffixes := by decide
  exact fun hnil => hempty (hnil ▸ h)

/-- Each of these suffixes has a spelling that is a packing, and one that is none. -/
theorem exists_spellings {suffix : String} (h : suffix ∈ boundSuffixes) :
    ∃ packed plain, small packed = suffix.toList ∧ small plain = suffix.toList ∧
      packingNames.lookup (String.ofList packed) ≠ none ∧ packingNames.lookup (String.ofList plain) = none := by
  simp only [boundSuffixes, List.mem_cons, List.not_mem_nil, or_false] at h
  rcases h with rfl | rfl | rfl | rfl
  · exact ⟨['.', 'Z'], ['.', 'z'], by decide, by decide, by decide, by decide⟩
  · exact ⟨['.', 'b', 'z', '2'], ['.', 'B', 'Z', '2'], by decide, by decide, by decide, by decide⟩
  · exact ⟨['.', 'x', 'z'], ['.', 'X', 'Z'], by decide, by decide, by decide, by decide⟩
  · exact ⟨['.', 'b', 'r'], ['.', 'B', 'R'], by decide, by decide, by decide, by decide⟩

/-- A name with a suffix does not end in a dot. -/
theorem tail_ne_nil {name : String} {base tail : List Char} (h : HasExtension name.toList base tail)
    (hsuffix : Path.suffixOf name ≠ []) : tail ≠ [] := by
  rintro rfl
  rcases Path.suffixOf_cases name with hnone | ⟨stem, tail, hname, _, htail, hdot, _⟩
  · exact hsuffix hnone
  · obtain ⟨c, back, hback⟩ := List.exists_cons_of_ne_nil (List.reverse_ne_nil_iff.mpr htail)
    have hends : (base ++ ['.']).reverse = (stem ++ '.' :: tail).reverse := by rw [← hname, h.eq]
    simp only [List.reverse_append, List.reverse_cons, List.reverse_nil, List.nil_append, List.cons_append, hback,
      List.append_assoc] at hends
    have hmem : c ∈ tail := List.mem_reverse.mp (hback ▸ List.mem_cons_self)
    exact hdot ((List.cons.inj hends).1 ▸ hmem)

theorem packing?_of_plain {name : String} (hplain : splitScheme name.toList = none) :
    packing? name = (readingOf name.toList).packing := by
  rw [packing?, registryText?_of_plain hplain, Option.bind_some]

/-- With one of these suffixes it alone tells the packing, if the type of what would be packed is known. -/
theorem packing?_of_bound {name : String} (hplain : splitScheme name.toList = none)
    (hbound : String.ofList (lower (Path.suffixOf name)) ∈ boundSuffixes) (hinner : innerType? name ≠ none) :
    packing? name = packingNames.lookup (String.ofList (Path.suffixOf name)) := by
  rw [innerType?, registryText?_of_plain hplain, Option.bind_some] at hinner
  rcases splitExtension_cases name.toList with hnone | ⟨base, tail, h⟩
  · have hempty : typeOfExtension? [] = none := by decide
    rw [innerTypeOf, hnone] at hinner
    dsimp only at hinner
    rw [hnone, hempty] at hinner
    exact absurd rfl hinner
  · have hforeign : ∀ x ∈ boundSuffixes, longForms.lookup x = none := by decide
    have hsuffix := suffixOf_of_hasExtension h (tail_ne_nil h (ne_nil_of_bound hbound))
    rw [hsuffix] at hbound ⊢
    rw [packing?_of_plain hplain, packing_of_short h (hforeign _ hbound)]

section Respelling

variable {p q : Path}

theorem Respelt.plain (h : Respelt p q) (hplain : splitScheme p.name.toList = none) :
    splitScheme q.name.toList = none := by
  rcases splitScheme_of_small h.small_name with ⟨_, hnone⟩ | ⟨scheme, rest, rest', hsome, _, _⟩
  · exact hnone
  · rw [hplain] at hsome
    cases hsome

theorem Respelt.packing?_of_bound (h : Respelt p q) (hplain : splitScheme p.name.toList = none)
    (hbound : String.ofList (lower p.suffix) ∈ boundSuffixes) (hinner : innerType? p.name ≠ none) :
    packing? q.name = packingNames.lookup (String.ofList q.suffix) := by
  refine Media.packing?_of_bound (h.plain hplain) ?_ ?_
  · rwa [← Path.suffix, ← lower_eq_of_small h.small_suffix]
  · rwa [← innerType?_of_small h.small_name]

theorem Respelt.bound_of_packing?_ne (h : Respelt p q) (hplain : splitScheme p.name.toList = none)
    (hown : ownType? p.suffix = none) (hne : packing? q.name ≠ packing? p.name) :
    String.ofList (lower p.suffix) ∈ boundSuffixes := by
  rw [packing?_of_plain hplain, packing?_of_plain (h.plain hplain)] at hne
  obtain ⟨base, tail, hext, hpacking⟩ := exists_hasExtension_of_packing_ne h.small_name hne.symm
  have hdot : String.ofList (lower ['.']) ∉ packingSuffixes := by decide
  have htail : tail ≠ [] := by
    rintro rfl
    exact hdot hpacking
  have hbound : ∀ x ∈ packingSuffixes, ownTypes.lookup x = none → x ∈ boundSuffixes := by decide
  have hsuffix : p.suffix = '.' :: tail := suffixOf_of_hasExtension hext htail
  rw [hsuffix] at hown ⊢
  exact hbound _ hpacking hown

/-- Without a scheme the case counts for four suffixes, where the type of what would be packed is known. -/
theorem caseBlind_iff_of_plain (hp : '/' ∉ p.name.toList) (hplain : splitScheme p.name.toList = none) :
    CaseBlind p ↔ (String.ofList (lower p.suffix) ∈ boundSuffixes → innerType? p.name = none) := by
  rw [caseBlind_iff_typeOf?]
  refine ⟨fun h hbound => ?_, fun h q hq => (hq.typeOf?_eq_iff hp).mpr ?_⟩
  · by_contra hinner
    obtain ⟨packed, plain, hpacked, hplainly, hsome, hnone⟩ := exists_spellings hbound
    rw [String.toList_ofList, ← small_of_bound hbound] at hpacked hplainly
    obtain ⟨q, hq, hqsuffix⟩ := exists_respelt (ne_nil_of_bound hbound) hpacked
    obtain ⟨r, hr, hrsuffix⟩ := exists_respelt (ne_nil_of_bound hbound) hplainly
    have hforeign : ∀ x ∈ boundSuffixes, ownTypes.lookup x = none := by decide
    have hsame : ∀ q, Respelt p q → packing? q.name = packing? p.name := fun q hq =>
      (((hq.typeOf?_eq_iff hp).mp (h q hq)).resolve_left fun hne => hne (hforeign _ hbound)).resolve_left hinner
    have hlookup := (hsame q hq).trans (hsame r hr).symm
    rw [hq.packing?_of_bound hplain hbound hinner, hr.packing?_of_bound hplain hbound hinner, hqsuffix, hrsuffix,
      hnone] at hlookup
    exact hsome hlookup
  · by_cases hown : ownType? p.suffix = none
    · exact Or.inr (or_iff_not_imp_right.mpr fun hne => h (hq.bound_of_packing?_ne hplain hown hne))
    · exact Or.inl hown

end Respelling

end Media

end FileExchange

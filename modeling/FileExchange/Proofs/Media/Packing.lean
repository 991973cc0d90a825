import FileExchange.Proofs.Media.Extensions
import FileExchange.Serve.File

/-!
# Packed files

What the registry reads off a name: the extension that the type belongs to, and how the bytes are packed. The type of
a file ignores the second, so a packed file is shown on a page as what it holds, unless its last suffix has a type of
its own. Of the suffixes that tell a packing by themselves only `.gz` has one.
-/

set_option autoImplicit false

namespace FileExchange

open Text

namespace Media

/-! ## What abbreviations stand for -/

/-- The two extensions that each abbreviation stands for, without their dots. -/
def longForms : List (String × String × String) :=
  [(".svgz", "svg", "gz"), (".tgz", "tar", "gz"), (".taz", "tar", "gz"), (".tz", "tar", "gz"),
   (".tbz2", "tar", "bz2"), (".txz", "tar", "xz")]

theorem abbreviations_eq :
    abbreviations = longForms.map fun (short, inner, packing) => (short, "." ++ inner ++ ("." ++ packing)) := by
  decide

theorem lookup_map {α β γ : Type} [BEq α] (f : β → γ) (table : List (α × β)) (key : α) :
    (table.map fun x => (x.1, f x.2)).lookup key = (table.lookup key).map f := by
  induction table with
  | nil => rfl
  | cons entry rest ih =>
    rw [List.map_cons, List.lookup_cons, List.lookup_cons]
    cases key == entry.1 with
    | true => rfl
    | false => exact ih

theorem mem_of_lookup_eq_some {α β : Type} [BEq α] [LawfulBEq α] {table : List (α × β)} {key : α} {value : β}
    (h : table.lookup key = some value) : (key, value) ∈ table := by
  obtain ⟨before, after, rfl, _⟩ := List.lookup_eq_some_iff.mp h
  exact List.mem_append_right _ List.mem_cons_self

/-- The long form of an extension, if it is an abbreviation in any case. -/
def longForm? (ext : List Char) : Option (String × String) :=
  longForms.lookup (String.ofList (lower ext))

theorem longForm?_of_small {ext ext' : List Char} (h : small ext = small ext') : longForm? ext = longForm? ext' := by
  rw [longForm?, longForm?, lower_eq_of_small h]

theorem expandExtension_eq (base ext : List Char) :
    expandExtension base ext = match longForm? ext with
      | some (inner, packing) => splitExtension (base ++ ("." ++ inner ++ ("." ++ packing)).toList)
      | none => (base, ext) := by
  have hlookup := lookup_map (fun x : String × String => "." ++ x.1 ++ ("." ++ x.2)) longForms
    (String.ofList (lower ext))
  have htable : (longForms.map fun x => (x.1, "." ++ x.2.1 ++ ("." ++ x.2.2))) = abbreviations :=
    abbreviations_eq.symm
  rw [htable] at hlookup
  rw [expandExtension, hlookup, longForm?]
  cases longForms.lookup (String.ofList (lower ext)) <;> rfl

/-! ## Readings -/

/-- The packings by the extensions that tell them, each in the one spelling that counts. -/
def packingNames : List (String × String) :=
  [(".gz", "gzip"), (".Z", "compress"), (".bz2", "bzip2"), (".xz", "xz"), (".br", "br")]

theorem contains_packings (ext : String) : packings.contains ext = (packingNames.lookup ext).isSome := by
  have hnames : packings = packingNames.map Prod.fst := rfl
  rw [Bool.eq_iff_iff, List.lookup_isSome_iff, hnames, List.contains_iff_mem, List.mem_map]
  simp only [beq_iff_eq]
  exact ⟨fun ⟨x, hmem, hx⟩ => ⟨x, hmem, hx.symm⟩, fun ⟨x, hmem, hx⟩ => ⟨x, hmem, hx.symm⟩⟩

/-- What the registry reads off a name: the extension that the type belongs to, and how the bytes are packed. -/
structure Reading where
  extension : List Char
  packing : Option String
  deriving Repr, DecidableEq

def readingOf (s : List Char) : Reading :=
  let (base, ext) := splitExtension s
  let (base, ext) := expandExtension base ext
  match packingNames.lookup (String.ofList ext) with
  | some packing => ⟨(splitExtension base).2, some packing⟩
  | none => ⟨ext, none⟩

/-- The type that the registry has for an extension, in any case. -/
def typeOfExtension? (ext : List Char) : Option String :=
  registeredTypes.lookup (String.ofList (lower ext))

theorem typeOfExtension?_of_small {ext ext' : List Char} (h : small ext = small ext') :
    typeOfExtension? ext = typeOfExtension? ext' := by
  rw [typeOfExtension?, typeOfExtension?, lower_eq_of_small h]

/-- The type does not depend on the packing. -/
theorem registeredTypeOf_eq (s : List Char) : registeredTypeOf s = typeOfExtension? (readingOf s).extension := by
  unfold registeredTypeOf readingOf typeOfExtension?
  dsimp only
  rw [contains_packings]
  cases packingNames.lookup (String.ofList (expandExtension (splitExtension s).1 (splitExtension s).2).2) <;> rfl

section Cases

variable {s base tail : List Char}

theorem readingOf_of_none (h : splitExtension s = (s, [])) : readingOf s = ⟨[], none⟩ := by
  have hshort : longForm? [] = none := by decide
  have hplain : packingNames.lookup (String.ofList []) = none := by decide
  unfold readingOf
  rw [h]
  dsimp only
  rw [expandExtension_eq, hshort]
  dsimp only
  rw [hplain]

/-- An abbreviation is read as the two extensions that it stands for. -/
theorem readingOf_of_long (h : HasExtension s base tail) {inner packing : String}
    (hlong : longForm? ('.' :: tail) = some (inner, packing)) :
    readingOf s = ⟨'.' :: inner.toList, packingNames.lookup ("." ++ packing)⟩ := by
  have hplain : ∀ x ∈ longForms, '.' ∉ x.2.1.toList ∧ '/' ∉ x.2.1.toList ∧ '.' ∉ x.2.2.toList ∧
      '/' ∉ x.2.2.toList ∧ (packingNames.lookup ("." ++ x.2.2)).isSome = true := by decide
  obtain ⟨hdot, hslash, hdot', hslash', hpacking⟩ := hplain _ (mem_of_lookup_eq_some hlong)
  have hinner : HasExtension (base ++ '.' :: inner.toList) base inner.toList := ⟨rfl, h.stands, hdot, hslash⟩
  have houter : HasExtension (base ++ ("." ++ inner ++ ("." ++ packing)).toList) (base ++ '.' :: inner.toList)
      packing.toList := by
    refine ⟨by simp, h.stands.append ?_, hdot', hslash'⟩
    exact fun hmem => (List.mem_cons.mp hmem).elim (by decide) hslash
  have hext : String.ofList ('.' :: packing.toList) = "." ++ packing := by
    rw [← String.toList_inj]
    simp
  obtain ⟨name, hname⟩ := Option.isSome_iff_exists.mp hpacking
  unfold readingOf
  rw [h.splitExtension_eq]
  dsimp only
  rw [expandExtension_eq, hlong]
  dsimp only
  rw [houter.splitExtension_eq, hext, hname, hinner.splitExtension_eq]

/-- Any other extension is a packing or that of the type. -/
theorem readingOf_of_short (h : HasExtension s base tail) (hshort : longForm? ('.' :: tail) = none) :
    readingOf s = match packingNames.lookup (String.ofList ('.' :: tail)) with
      | some packing => ⟨(splitExtension base).2, some packing⟩
      | none => ⟨'.' :: tail, none⟩ := by
  unfold readingOf
  rw [h.splitExtension_eq]
  dsimp only
  rw [expandExtension_eq, hshort]

end Cases

/-! ## Packed files -/

/-- How the bytes of a file are packed, as its name tells it. -/
def packing? (name : String) : Option String :=
  (registryText? name).bind fun s => (readingOf s).packing

/-- The type of what a file's packing holds, as its name tells it. -/
def contentType? (name : String) : Option String :=
  (registryText? name).bind fun s => typeOfExtension? (readingOf s).extension

/-- A type whose files are shown on a page. -/
def IsShown (type : String) : Prop :=
  startsWith "text/" type = true ∨ startsWith "image/" type = true

instance (type : String) : Decidable (IsShown type) :=
  inferInstanceAs (Decidable (_ ∨ _))

/-- The type that the server's own table has for a suffix, in any case. -/
def ownType? (suffix : List Char) : Option String :=
  ownTypes.lookup (String.ofList (lower suffix))

theorem typeOf?_eq (p : Path) : typeOf? p = (ownType? p.suffix).or (guess p.name) := by
  unfold typeOf? ownType?
  cases ownTypes.lookup (String.ofList (lower p.suffix)) <;> rfl

theorem guess_of_packing? {name packing : String} (h : packing? name = some packing) :
    guess name = contentType? name := by
  obtain ⟨s, hs, _⟩ := Option.bind_eq_some_iff.mp h
  rw [guess_eq, contentType?, hs, Option.bind_some]
  dsimp only
  rw [registeredTypeOf_eq]

theorem typeOf?_of_packing? {p : Path} {packing : String} (h : packing? p.name = some packing) :
    typeOf? p = (ownType? p.suffix).or (contentType? p.name) := by
  rw [typeOf?_eq, guess_of_packing? h]

/-! ### Names without a scheme -/

/-- The last suffix of a name that tells a packing is one of the packings, or an abbreviation. -/
theorem suffix_of_packing? {name packing : String} (hplain : splitScheme name.toList = none)
    (h : packing? name = some packing) :
    (packingNames.lookup (String.ofList (Path.suffixOf name)) = some packing) ∨
      (longForm? (Path.suffixOf name)).isSome = true := by
  rw [packing?, registryText?_of_plain hplain, Option.bind_some] at h
  rcases splitExtension_cases name.toList with hnone | ⟨base, tail, hext⟩
  · rw [readingOf_of_none hnone] at h
    cases h
  · cases hlong : longForm? ('.' :: tail) with
    | some long =>
      have hdot : longForm? ['.'] = none := by decide
      have htail : tail ≠ [] := by
        rintro rfl
        rw [hdot] at hlong
        cases hlong
      rw [suffixOf_of_hasExtension hext htail, hlong]
      exact Or.inr rfl
    | none =>
      rw [readingOf_of_short hext hlong] at h
      split at h
      · rename_i packing' hlookup
        have hdot : packingNames.lookup (String.ofList ['.']) = none := by decide
        have htail : tail ≠ [] := by
          rintro rfl
          rw [hdot] at hlookup
          cases hlookup
        cases h
        rw [suffixOf_of_hasExtension hext htail]
        exact Or.inl hlookup
      · cases h

/-- The own types know one of the suffixes that tell a packing. -/
theorem ownType?_of_packing? {name packing : String} (hplain : splitScheme name.toList = none)
    (h : packing? name = some packing) :
    ownType? (Path.suffixOf name) = if Path.suffixOf name = ".gz".toList then some "application/gzip" else none := by
  rcases suffix_of_packing? hplain h with hlookup | hlong
  · have hown : ∀ x ∈ packingNames, ownTypes.lookup (String.ofList (lower x.1.toList)) =
        if x.1.toList = ".gz".toList then some "application/gzip" else none := by decide
    have hmem := hown _ (mem_of_lookup_eq_some hlookup)
    rwa [String.toList_ofList] at hmem
  · obtain ⟨long, hlong⟩ := Option.isSome_iff_exists.mp hlong
    have hown : ∀ x ∈ longForms, ownTypes.lookup x.1 = none ∧ x.1 ≠ ".gz" := by decide
    obtain ⟨hnone, hne⟩ := hown _ (mem_of_lookup_eq_some hlong)
    have hsmall : String.ofList (lower ".gz".toList) = ".gz" := by decide
    have hgz : Path.suffixOf name ≠ ".gz".toList := by
      intro hsuffix
      rw [hsuffix] at hne
      exact hne hsmall
    rw [if_neg hgz]
    exact hnone

/-! ### The way of serving -/

/-- A file is sent as it is: the bytes that it has, as an attachment. -/
structure SentAsIs (p : Path) : Prop where
  kind : (classify p).1 = .binary ∨ (classify p).1 = .unknown
  respond : ∀ f : FileService, f.respond p = discard (f.sendAttachment p (classify p).2)

theorem kindOf_of_not_shown {type : String} (h : ¬ IsShown type) : kindOf (some type) = .binary := by
  obtain ⟨htext, himage⟩ := not_or.mp h
  rw [kindOf, if_neg htext, if_neg himage]

theorem kindOf_of_shown {type : String} (h : IsShown type) :
    kindOf (some type) = .text ∨ kindOf (some type) = .image := by
  rw [kindOf]
  by_cases htext : startsWith "text/" type = true
  · exact Or.inl (if_pos htext)
  · rw [if_neg htext, if_pos (h.resolve_left htext)]
    exact Or.inr rfl

/-- A file is sent as it is exactly if it has no type whose files are shown. -/
theorem sentAsIs_iff (p : Path) : SentAsIs p ↔ ∀ type, typeOf? p = some type → ¬ IsShown type := by
  refine ⟨fun h type htype hshown => ?_, fun h => ?_⟩
  · have hkind : (classify p).1 = kindOf (some type) := by rw [classify, htype]
    rcases kindOf_of_shown hshown with hshown' | hshown'
    · rcases hkind ▸ h.kind with h' | h' <;> cases hshown'.symm.trans h'
    · rcases hkind ▸ h.kind with h' | h' <;> cases hshown'.symm.trans h'
  · have hkind : (classify p).1 = .binary ∨ (classify p).1 = .unknown := by
      rw [classify]
      cases htype : typeOf? p with
      | none => exact Or.inr rfl
      | some type => exact Or.inl (kindOf_of_not_shown (h type htype))
    refine ⟨hkind, fun f => ?_⟩
    unfold FileService.respond
    generalize classify p = verdict at hkind ⊢
    obtain ⟨kind, type⟩ := verdict
    rcases hkind with rfl | rfl <;> rfl

/-- A file whose name tells a packing is sent as it is. -/
def KeepsPacked (p : Path) : Prop :=
  packing? p.name ≠ none → SentAsIs p

theorem keepsPacked_iff_sentAsIs {p : Path} {packing : String} (h : packing? p.name = some packing) :
    KeepsPacked p ↔ SentAsIs p :=
  ⟨fun hkeeps => hkeeps (by rw [h]; exact Option.some_ne_none packing), fun hsent _ => hsent⟩

theorem keepsPacked_of_unpacked {p : Path} (h : packing? p.name = none) : KeepsPacked p :=
  fun hsome => absurd h hsome

/-- A packed file is sent as it is exactly if neither the server's own type of its last suffix nor else the type of what
the packing holds is one that is shown. -/
theorem keepsPacked_iff (p : Path) :
    KeepsPacked p ↔ packing? p.name = none ∨
      ∀ type, (ownType? p.suffix).or (contentType? p.name) = some type → ¬ IsShown type := by
  cases hpacking : packing? p.name with
  | none => exact ⟨fun _ => Or.inl rfl, fun _ => keepsPacked_of_unpacked hpacking⟩
  | some packing =>
    rw [keepsPacked_iff_sentAsIs hpacking, sentAsIs_iff, typeOf?_of_packing? hpacking]
    exact ⟨Or.inr, fun h => h.resolve_left (Option.some_ne_none packing)⟩

/-- Without a scheme the last suffix tells the packing, and `.gz` is the only one that the server's own table knows. -/
theorem keepsPacked_iff_of_plain {p : Path} (hplain : splitScheme p.name.toList = none) :
    KeepsPacked p ↔ packing? p.name = none ∨ p.suffix = ".gz".toList ∨
      ∀ type, contentType? p.name = some type → ¬ IsShown type := by
  cases hpacking : packing? p.name with
  | none => exact ⟨fun _ => Or.inl rfl, fun _ => keepsPacked_of_unpacked hpacking⟩
  | some packing =>
    have hown := ownType?_of_packing? hplain hpacking
    rw [← Path.suffix] at hown
    rw [keepsPacked_iff_sentAsIs hpacking, sentAsIs_iff, typeOf?_of_packing? hpacking, hown]
    by_cases hgz : p.suffix = ".gz".toList
    · rw [if_pos hgz]
      refine ⟨fun _ => Or.inr (Or.inl hgz), fun _ type htype => ?_⟩
      cases htype
      decide
    · rw [if_neg hgz, Option.none_or]
      refine ⟨fun h => Or.inr (Or.inr h), fun h => ?_⟩
      exact (h.resolve_left (Option.some_ne_none packing)).resolve_left hgz

theorem not_keepsPacked_text :
    packing? "notes.txt.bz2" = some "bzip2" ∧ classify (Path.ofString "notes.txt.bz2") = (.text, "text/plain") ∧
      ¬ KeepsPacked (Path.ofString "notes.txt.bz2") := by
  have hname : (Path.ofString "notes.txt.bz2").name = "notes.txt.bz2" := by decide
  have hpacking : packing? "notes.txt.bz2" = some "bzip2" := by decide
  have hclassify : classify (Path.ofString "notes.txt.bz2") = (.text, "text/plain") := by decide
  refine ⟨hpacking, hclassify, fun h => ?_⟩
  have hkind := (h (by rw [hname, hpacking]; exact Option.some_ne_none _)).kind
  rw [hclassify] at hkind
  rcases hkind with h | h <;> cases h

end Media

end FileExchange

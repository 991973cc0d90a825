import FileExchange.Proofs.Http.Listing

/-!
# Links of a directory page

All links of a page as they are printed, and when they point back: a rooted path of this server in which one
slash stands between the path of the directory and the name of the child.
-/

set_option autoImplicit false

namespace FileExchange

/-! ## Slashes and encoding -/

namespace Percent

theorem encodeChars_append (a b : List Char) : encodeChars (a ++ b) = encodeChars a ++ encodeChars b := by
  rw [encodeChars, encodeChars, encodeChars, Utf8.encodeChars_append, List.flatMap_append]

theorem encodeChars_slash (s : List Char) : encodeChars ('/' :: s) = '/' :: encodeChars s := by
  have hslash : encodeChars ['/'] = ['/'] := by decide
  have hcons : '/' :: s = ['/'] ++ s := rfl
  rw [hcons, encodeChars_append, hslash]
  rfl

/-- Slashes stay slashes, and nothing else becomes one. -/
theorem slash_mem_encodeChars {s : List Char} : '/' ∈ encodeChars s ↔ '/' ∈ s := by
  constructor
  · intro h
    obtain ⟨b, hb, hmem⟩ := List.mem_flatMap.mp h
    have hall : ∀ n < 256, '/' ∈ encodeByte (UInt8.ofNat n) → UInt8.ofNat n = 0x2F := by decide +kernel
    have hbyte := hall b.toNat b.toNat_lt
    rw [UInt8.ofNat_toNat] at hbyte
    rw [hbyte hmem] at hb
    exact Utf8.mem_of_mem_encodeChars (b := 0x2F) (by decide) hb
  · intro h
    obtain ⟨front, back, rfl⟩ := List.append_of_mem h
    rw [encodeChars_append, encodeChars_slash]
    exact List.mem_append_right _ List.mem_cons_self

theorem encodeChars_eq_nil {s : List Char} : encodeChars s = [] ↔ s = [] := by
  refine ⟨fun h => ?_, fun h => by rw [h]; rfl⟩
  rw [← decodeChars_encodeChars s, h]
  rfl

/-- Any other character becomes characters other than a slash, at least one. -/
theorem encodeChars_singleton {c : Char} (hc : c ≠ '/') : encodeChars [c] ≠ [] ∧ '/' ∉ encodeChars [c] :=
  ⟨mt encodeChars_eq_nil.mp (List.cons_ne_nil c []),
    fun hmem => hc (List.mem_singleton.mp (slash_mem_encodeChars.mp hmem)).symm⟩

theorem head?_encodeChars {s : List Char} : (encodeChars s).head? = some '/' ↔ s.head? = some '/' := by
  cases s with
  | nil => exact iff_of_false nofun nofun
  | cons c s =>
    by_cases hc : c = '/'
    · rw [hc, encodeChars_slash]
      exact iff_of_true rfl rfl
    · obtain ⟨hne, hslash⟩ := encodeChars_singleton hc
      refine iff_of_false (fun hhead => ?_) (by simpa using hc)
      have hcons : encodeChars (c :: s) = encodeChars [c] ++ encodeChars s := encodeChars_append [c] s
      rw [hcons, List.head?_append_of_ne_nil _ hne] at hhead
      exact hslash (List.mem_of_mem_head? hhead)

theorem getLast?_encodeChars {s : List Char} :
    (encodeChars s).getLast? = some '/' ↔ s.getLast? = some '/' := by
  rcases List.eq_nil_or_concat s with rfl | ⟨s, c, rfl⟩
  · exact iff_of_false nofun nofun
  · rw [List.concat_eq_append, encodeChars_append]
    by_cases hc : c = '/'
    · have hnil : encodeChars [] = [] := rfl
      simp [hc, encodeChars_slash, hnil]
    · obtain ⟨hne, hslash⟩ := encodeChars_singleton hc
      refine iff_of_false (fun hlast => ?_) (by simpa using hc)
      rw [List.getLast?_append_of_ne_nil _ hne] at hlast
      exact hslash (List.mem_of_getLast? hlast)

end Percent

namespace Listing

/-! ## Links that point back -/

/-- A printed link is a rooted path of this server, with one slash between what it is the child of and its name. -/
structure PointsBack (href name : String) : Prop where
  rooted : ∃ rest, href.toList = '/' :: rest ∧ rest.head? ≠ some '/'
  joined : ∃ parent, href.toList = parent ++ '/' :: (Percent.encode name).toList ∧ parent.getLast? ≠ some '/'

/-- A target that starts with one slash and ends with one at most. -/
structure Straight (target : String) : Prop where
  rooted : ∃ rest, target.toList = '/' :: rest ∧ rest.head? ≠ some '/'
  closed : ¬ ['/', '/'] <:+ target.toList

/-- Nothing, or one slash and more behind it. -/
def Rooted (front : List Char) : Prop :=
  front = [] ∨ ∃ c rest, front = '/' :: c :: rest ∧ c ≠ '/'

theorem rooted_append_iff {front back : List Char} (hback : back.head? ≠ some '/') :
    (∃ rest, front ++ '/' :: back = '/' :: rest ∧ rest.head? ≠ some '/') ↔ Rooted front := by
  constructor
  · rintro ⟨rest, hrest, hhead⟩
    rcases front with _ | ⟨d, _ | ⟨c, front⟩⟩
    · exact Or.inl rfl
    · cases hrest
      exact absurd rfl hhead
    · cases hrest
      exact Or.inr ⟨c, front, rfl, fun hc => hhead (congrArg some hc)⟩
  · rintro (rfl | ⟨c, rest, rfl, hc⟩)
    · exact ⟨back, rfl, hback⟩
    · exact ⟨c :: rest ++ '/' :: back, rfl, fun hhead => hc (Option.some.inj hhead)⟩

theorem rooted_encodeChars {front : List Char} : Rooted (Percent.encodeChars front) ↔ Rooted front := by
  constructor
  · rintro (hnil | ⟨c, rest, hcons, hc⟩)
    · exact Or.inl (Percent.encodeChars_eq_nil.mp hnil)
    · cases front with
      | nil => cases hcons
      | cons d front =>
        have hhead : (d :: front).head? = some '/' := Percent.head?_encodeChars.mp (by rw [hcons]; rfl)
        have hd : d = '/' := Option.some.inj hhead
        rw [hd, Percent.encodeChars_slash] at hcons
        have htail := (List.cons.inj hcons).2
        cases front with
        | nil => cases htail
        | cons e front =>
          refine Or.inr ⟨e, front, by rw [hd], fun he => hc ?_⟩
          have hhead : (Percent.encodeChars (e :: front)).head? = some '/' :=
            Percent.head?_encodeChars.mpr (congrArg some he)
          rw [htail] at hhead
          exact Option.some.inj hhead
  · rintro (rfl | ⟨c, rest, rfl, hc⟩)
    · exact Or.inl rfl
    · rw [Percent.encodeChars_slash]
      have hne := mt Percent.encodeChars_eq_nil.mp (List.cons_ne_nil c rest)
      obtain ⟨d, ds, hd⟩ := List.exists_cons_of_ne_nil hne
      refine Or.inr ⟨d, ds, by rw [hd], fun hslash => hc ?_⟩
      have hhead : (Percent.encodeChars (c :: rest)).head? = some '/' := by rw [hd, hslash]; rfl
      exact Option.some.inj (Percent.head?_encodeChars.mp hhead)

/-- A slash and the name of a child may stand behind the path of its directory. -/
def Joins (parent : List Char) : Prop :=
  Rooted parent ∧ parent.getLast? ≠ some '/'

variable {target name : String} {parent : List Char}

theorem pointsBack_iff_joins {href : String} (hname : '/' ∉ name.toList)
    (hhref : href.toList = Percent.encodeChars parent ++ '/' :: Percent.encodeChars name.toList) :
    PointsBack href name ↔ Joins parent := by
  have hback : (Percent.encodeChars name.toList).head? ≠ some '/' := fun hhead =>
    hname (List.mem_of_mem_head? (Percent.head?_encodeChars.mp hhead))
  have hchars : (Percent.encode name).toList = Percent.encodeChars name.toList := String.toList_ofList
  have hrooted : _ ↔ Rooted parent := (rooted_append_iff hback).trans rooted_encodeChars
  rw [← hhref] at hrooted
  constructor
  · rintro ⟨hroot, parent', hjoined, hclosed⟩
    rw [hhref, hchars] at hjoined
    rw [← List.append_cancel_right hjoined] at hclosed
    exact ⟨hrooted.mp hroot, mt Percent.getLast?_encodeChars.mpr hclosed⟩
  · rintro ⟨hroot, hclosed⟩
    refine ⟨hrooted.mpr hroot, Percent.encodeChars parent, ?_, mt Percent.getLast?_encodeChars.mp hclosed⟩
    rw [hchars, hhref]

theorem slashes_suffix_append : ['/', '/'] <:+ parent ++ ['/'] ↔ parent.getLast? = some '/' := by
  have hpair : ['/', '/'] = ['/'] ++ ['/'] := rfl
  rw [hpair, List.suffix_append_inj_of_length_eq rfl, and_iff_left rfl,
    List.singleton_suffix_iff_getLast?_eq_some]

/-- What comes in front of the slash and the name: the target without a slash at its end. -/
def IsParent (parent : List Char) (target : String) : Prop :=
  target.toList = parent ++ ['/'] ∨ target.toList = parent ∧ parent ≠ [] ∧ parent.getLast? ≠ some '/'

theorem straight_iff_joins (h : IsParent parent target) : Straight target ↔ Joins parent := by
  rcases h with htarget | ⟨htarget, hne, hlast⟩
  · have hrooted : (∃ rest, parent ++ ['/'] = '/' :: rest ∧ rest.head? ≠ some '/') ↔ Rooted parent :=
      rooted_append_iff nofun
    have hclosed : ¬ ['/', '/'] <:+ parent ++ ['/'] ↔ parent.getLast? ≠ some '/' :=
      not_congr slashes_suffix_append
    rw [← htarget] at hrooted hclosed
    exact ⟨fun h => ⟨hrooted.mp h.rooted, hclosed.mp h.closed⟩, fun h => ⟨hrooted.mpr h.1, hclosed.mpr h.2⟩⟩
  · constructor
    · rintro ⟨⟨rest, hrest, hhead⟩, _⟩
      rw [htarget] at hrest
      refine ⟨Or.inr ?_, hlast⟩
      cases rest with
      | nil => exact absurd (by rw [hrest]; rfl) hlast
      | cons c rest => exact ⟨c, rest, hrest, fun hc => hhead (congrArg some hc)⟩
    · rintro ⟨hnil | ⟨c, rest, hcons, hc⟩, _⟩
      · exact absurd hnil hne
      · refine ⟨⟨c :: rest, htarget.trans hcons, fun hhead => hc (Option.some.inj hhead)⟩,
          fun hsuffix => hlast ?_⟩
        rw [htarget] at hsuffix
        obtain ⟨front, hfront⟩ := hsuffix
        rw [← hfront, List.getLast?_append_of_ne_nil _ (List.cons_ne_nil _ _)]
        rfl

/-- What is printed of a child: the path of its directory up to a slash at its end, a slash, and its name. -/
theorem exists_parent (name : String) (htarget : target ≠ "") : ∃ parent, IsParent parent target ∧
      (Percent.encode (hrefOf target name)).toList =
        Percent.encodeChars parent ++ '/' :: Percent.encodeChars name.toList := by
  have hchars : target.toList ≠ [] := fun hnil => htarget (String.toList_eq_nil_iff.mp hnil)
  unfold hrefOf
  split
  · rename_i hlast
    obtain ⟨parent, hparent⟩ := List.getLast?_eq_some_iff.mp (beq_iff_eq.mp hlast)
    refine ⟨parent, Or.inl hparent, ?_⟩
    rw [Percent.encode, String.toList_ofList, String.toList_append, hparent, List.append_assoc,
      Percent.encodeChars_append, List.singleton_append, Percent.encodeChars_slash]
  · rename_i hlast
    refine ⟨target.toList, Or.inr ⟨rfl, hchars, fun h => hlast (beq_iff_eq.mpr h)⟩, ?_⟩
    rw [Percent.encode, String.toList_ofList, String.toList_append, String.toList_append, List.append_assoc,
      Percent.encodeChars_append]
    exact congrArg _ (Percent.encodeChars_slash _)

/-- The link of a child points back exactly if the target of its directory is straight. -/
theorem pointsBack_hrefOf_iff (htarget : target ≠ "") (hname : '/' ∉ name.toList) :
    PointsBack (Percent.encode (hrefOf target name)) name ↔ Straight target := by
  obtain ⟨parent, hparent, hhref⟩ := exists_parent name htarget
  rw [pointsBack_iff_joins hname hhref, straight_iff_joins hparent]

/-! ## All links of a page -/

/-- All that stands in quotes behind an equals sign and the name of the attribute for links, read from the front. -/
def links (page : Bytes) : List String :=
  match _hmark : cutAt (Utf8.encode "href=\"") page with
  | none => []
  | some (_, inner) =>
    match _hend : cutAt (Utf8.encode "\"") inner with
    | none => []
    | some (href, rest) => Utf8.decode href :: links rest
termination_by page.length
decreasing_by
  have hmark : (Utf8.encode "href=\"").length = 6 := by decide
  have hinner := length_of_cutAt _hmark
  have hrest := length_of_cutAt _hend
  omega

theorem links_of_some {page front inner href rest : Bytes}
    (hmark : cutAt (Utf8.encode "href=\"") page = some (front, inner))
    (hend : cutAt (Utf8.encode "\"") inner = some (href, rest)) :
    links page = Utf8.decode href :: links rest := by
  rw [links]
  split
  · rename_i hnone
    cases hmark.symm.trans hnone
  · rename_i front' inner' hsome
    cases hmark.symm.trans hsome
    split
    · rename_i hnone
      cases hend.symm.trans hnone
    · rename_i href' rest' hsome
      cases hend.symm.trans hsome
      rfl

/-- Where no quote stands there is no link. -/
theorem links_of_notMem {page : Bytes} (h : 0x22 ∉ page) : links page = [] := by
  have hnone : cutAt (Utf8.encode "href=\"") page = none := by
    rw [cutAt_eq_none_iff (by decide)]
    intro hinfix
    exact h (List.IsInfix.subset hinfix (by decide))
  rw [links]
  split
  · rfl
  · rename_i hsome
    cases hnone.symm.trans hsome

/-- The first link of what starts without a quote. -/
theorem links_append {front href : Bytes} (hfront : 0x22 ∉ front) (hhref : 0x22 ∉ href) (rest : Bytes) :
    links (front ++ (Utf8.encode "href=\"" ++ (href ++ 0x22 :: rest))) = Utf8.decode href :: links rest := by
  have hname : (0x22 : UInt8) ∉ Utf8.encode "href=" := by decide
  exact links_of_some (cutAt_last hname hfront _) (cutAt_of_notMem [] hhref rest)

/-- What stands on a page between the link of an entry and the end of the entry. -/
def entryEnd (e : Entry) : Bytes :=
  Utf8.encode ">" ++ (Utf8.encode (label e) ++ Utf8.encode "</a></li>")

theorem quote_notMem_entryEnd (e : Entry) : 0x22 ∉ entryEnd e := by
  have hname : (0x22 : UInt8) ∉ Utf8.encode (Markup.escapeQuoted e.name) :=
    Utf8.notMem_encodeChars (by decide) (Markup.quote_notMem_escapeQuoted e.name)
  have hlabel : (0x22 : UInt8) ∉ Utf8.encode (label e) := by
    unfold label
    dsimp only
    split
    · rw [Utf8.encode_append, Utf8.encode_append]
      simp only [List.mem_append, not_or]
      exact ⟨⟨by decide, hname⟩, by decide⟩
    · exact hname
  simp only [entryEnd, List.mem_append, not_or]
  exact ⟨by decide, hlabel, by decide⟩

theorem encode_entry (e : Entry) (rest : Bytes) : Utf8.encode entryOpening ++ (entryBody e ++ rest) =
    Utf8.encode "<li><a " ++ (Utf8.encode "href=\"" ++
      (Utf8.encode (Percent.encode e.href) ++ 0x22 :: (entryEnd e ++ rest))) := by
  have hopening : Utf8.encode entryOpening = Utf8.encode "<li><a " ++ Utf8.encode "href=\"" := by decide
  have hend : Utf8.encode "\">" = 0x22 :: Utf8.encode ">" := by decide
  simp only [hopening, entryBody, hend, entryEnd, List.append_assoc, List.cons_append]

theorem links_pageRest {front : Bytes} (hfront : 0x22 ∉ front) (es : List Entry) :
    links (front ++ pageRest es) = es.map fun e => Percent.encode e.href := by
  induction es generalizing front with
  | nil =>
    refine links_of_notMem ?_
    simp only [List.mem_append, not_or]
    exact ⟨hfront, by decide⟩
  | cons e es ih =>
    have hhref : (0x22 : UInt8) ∉ Utf8.encode (Percent.encode e.href) := by
      have hchars : '"' ∉ (Percent.encode e.href).toList := by
        rw [Percent.encode, String.toList_ofList]
        exact Percent.quote_notMem_encodeChars e.href.toList
      exact Utf8.notMem_encodeChars (by decide) hchars
    have hbefore : 0x22 ∉ front ++ (Utf8.encode "\r\n" ++ Utf8.encode "<li><a ") := by
      simp only [List.mem_append, not_or]
      exact ⟨hfront, by decide, by decide⟩
    have hfirst := links_append hbefore hhref (entryEnd e ++ pageRest es)
    rw [pageRest_cons, encode_entry]
    simp only [List.append_assoc] at hfirst
    rw [hfirst, Utf8.decode_encode, ih (quote_notMem_entryEnd e), List.map_cons]

/-- A page has the links of its entries, in their order, and no others. -/
theorem links_page (es : List Entry) :
    links (Utf8.encode (page es)) = es.map fun e => Percent.encode e.href := by
  rw [encode_page]
  exact links_pageRest (by decide) es

end Listing

end FileExchange

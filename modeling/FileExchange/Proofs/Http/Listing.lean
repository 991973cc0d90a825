import FileExchange.Http.Listing
import FileExchange.Proofs.Text.Marks
import FileExchange.Proofs.Text.Markup
import FileExchange.Proofs.Text.Percent

/-!
# Directory pages read back

A reader of directory pages that knows nothing but the fixed tags of an entry. It finds just the entries that
a page was made of, since no quote comes into a link and no tag into a label.
-/

set_option autoImplicit false

namespace FileExchange.Listing

/-! ## Reading -/

/-- The label in front of the end of an entry, bold and italic if it is one of a directory, and what follows. -/
def readLabel? (page : Bytes) : Option (Bool × Bytes × Bytes) :=
  match page.dropPrefix? (Utf8.encode "<b><i>") with
  | some inner => (cutAt (Utf8.encode "</i></b></a></li>") inner).map (true, ·)
  | none => (cutAt (Utf8.encode "</a></li>") page).map (false, ·)

/-- The entry whose link begins here, and what follows the entry. -/
def readItem? (references : Markup.References) (page : Bytes) : Option (Entry × Bytes) := do
  let (href, page) ← cutAt (Utf8.encode "\">") page
  let (isDirectory, label, page) ← readLabel? page
  let name := Markup.unescapeChars references (Utf8.decodeChars label)
  return (⟨String.ofList name, Percent.decode (Utf8.decode href), isDirectory⟩, page)

def entryOpening : String := "<li><a href=\""

theorem dropPrefix?_eq_none {front bytes : Bytes} (h : ¬ front <+: bytes) : bytes.dropPrefix? front = none := by
  rw [Option.eq_none_iff_forall_ne_some]
  rintro rest hrest
  obtain ⟨front', rfl, hfront⟩ := List.dropPrefix?_eq_some_iff.mp hrest
  rw [eq_of_beq hfront] at h
  exact h (List.prefix_append front rest)

theorem length_of_cutAt {mark bytes front rest : Bytes} (h : cutAt mark bytes = some (front, rest)) :
    rest.length + mark.length ≤ bytes.length := by
  rw [cutAt_eq_some h, List.length_append, List.length_append]
  omega

theorem length_of_readLabel? {page shown rest : Bytes} {isDirectory : Bool}
    (h : readLabel? page = some (isDirectory, shown, rest)) : rest.length ≤ page.length := by
  unfold readLabel? at h
  split at h
  · rename_i inner hinner
    obtain ⟨cut, hcut, hpair⟩ := Option.map_eq_some_iff.mp h
    cases hpair
    obtain ⟨front, hpage, _⟩ := List.dropPrefix?_eq_some_iff.mp hinner
    have hlength := length_of_cutAt hcut
    rw [hpage, List.length_append]
    omega
  · obtain ⟨cut, hcut, hpair⟩ := Option.map_eq_some_iff.mp h
    cases hpair
    have hlength := length_of_cutAt hcut
    omega

theorem length_of_readItem? {references : Markup.References} {page rest : Bytes} {e : Entry}
    (h : readItem? references page = some (e, rest)) : rest.length ≤ page.length := by
  rw [readItem?] at h
  obtain ⟨⟨href, after⟩, hhref, h⟩ := Option.bind_eq_some_iff.mp h
  obtain ⟨⟨isDirectory, shown, rest'⟩, hlabel, h⟩ := Option.bind_eq_some_iff.mp h
  cases h
  have hafter := length_of_cutAt hhref
  have hrest := length_of_readLabel? hlabel
  omega

/-- All entries of a page, from one opening tag to the next. -/
def readEntries? (references : Markup.References) (page : Bytes) : Option (List Entry) :=
  match _hopening : cutAt (Utf8.encode entryOpening) page with
  | none => some []
  | some (_, inner) =>
    match _hentry : readItem? references inner with
    | none => none
    | some (e, rest) => (readEntries? references rest).map (e :: ·)
termination_by page.length
decreasing_by
  have hmark : (Utf8.encode entryOpening).length = 13 := by decide
  have hinner := length_of_cutAt _hopening
  have hrest := length_of_readItem? _hentry
  omega

/-! ## Labels and links -/

variable {references : Markup.References}

theorem readLabel?_label (e : Entry) (rest : Bytes) :
    readLabel? (Utf8.encode (label e) ++ (Utf8.encode "</a></li>" ++ rest)) =
      some (e.isDirectory, Utf8.encode (Markup.escapeQuoted e.name), rest) := by
  have hless : 0x3C ∉ Utf8.encode (Markup.escapeQuoted e.name) :=
    Utf8.notMem_encodeChars (by decide) (Markup.less_notMem_escapeQuoted e.name)
  obtain ⟨name, href, isDirectory⟩ := e
  cases isDirectory with
  | true =>
    have hsplit : Utf8.encode (label ⟨name, href, true⟩) ++ (Utf8.encode "</a></li>" ++ rest) =
        Utf8.encode "<b><i>" ++ (Utf8.encode (Markup.escapeQuoted name) ++
          (Utf8.encode "</i></b></a></li>" ++ rest)) := by
      have hclosing : Utf8.encode "</i></b></a></li>" = Utf8.encode "</i></b>" ++ Utf8.encode "</a></li>" := by
        decide
      rw [label, if_pos rfl, Utf8.encode_append, Utf8.encode_append, hclosing]
      simp only [List.append_assoc]
    have hcut := cutAt_of_notMem (Utf8.encode "/i></b></a></li>") hless rest
    rw [readLabel?, hsplit, List.dropPrefix?_append_of_beq _ (beq_self_eq_true _)]
    exact congrArg (Option.map (true, ·)) hcut
  | false =>
    have hplain : (Utf8.encode (label ⟨name, href, false⟩) ++ (Utf8.encode "</a></li>" ++ rest)).dropPrefix?
        (Utf8.encode "<b><i>") = none := by
      refine dropPrefix?_eq_none fun hprefix => ?_
      have hopening : Utf8.encode "<b><i>" = 0x3C :: 0x62 :: Utf8.encode "><i>" := by decide
      have hclosing : Utf8.encode "</a></li>" = 0x3C :: 0x2F :: Utf8.encode "a></li>" := by decide
      rw [label, if_neg (by simp), hopening, hclosing] at hprefix
      generalize Utf8.encode (Markup.escapeQuoted name) = shown at hprefix hless
      cases shown with
      | nil =>
        have hsecond := (List.cons_prefix_cons.mp (List.cons_prefix_cons.mp hprefix).2).1
        exact absurd hsecond (by decide)
      | cons b shown =>
        obtain ⟨rfl, _⟩ := List.cons_prefix_cons.mp hprefix
        exact hless List.mem_cons_self
    have hcut := cutAt_of_notMem (Utf8.encode "/a></li>") hless rest
    rw [readLabel?, hplain]
    exact congrArg (Option.map (false, ·)) hcut

/-- What stands on a page behind the opening tag of an entry, up to its end. -/
def entryBody (e : Entry) : Bytes :=
  Utf8.encode (Percent.encode e.href) ++ (Utf8.encode "\">" ++ (Utf8.encode (label e) ++ Utf8.encode "</a></li>"))

theorem encode_item (e : Entry) : Utf8.encode (item e) = Utf8.encode entryOpening ++ entryBody e := by
  delta item
  simp only [Utf8.encode_append, entryBody, entryOpening, List.append_assoc]

theorem readItem?_body (h : references.KnownQuoted) (e : Entry) (rest : Bytes) :
    readItem? references (entryBody e ++ rest) = some (e, rest) := by
  have hquote : 0x22 ∉ Utf8.encode (Percent.encode e.href) := by
    have hchars : '"' ∉ (Percent.encode e.href).toList := by
      rw [Percent.encode, String.toList_ofList]
      exact Percent.quote_notMem_encodeChars e.href.toList
    exact Utf8.notMem_encodeChars (by decide) hchars
  have hhref : cutAt (Utf8.encode "\">") (Utf8.encode (Percent.encode e.href) ++ (Utf8.encode "\">" ++
      (Utf8.encode (label e) ++ (Utf8.encode "</a></li>" ++ rest)))) =
        some (Utf8.encode (Percent.encode e.href), Utf8.encode (label e) ++ (Utf8.encode "</a></li>" ++ rest)) :=
    cutAt_of_notMem (Utf8.encode ">") hquote _
  have hdecoded : Percent.decode (Percent.encode e.href) = e.href := by
    rw [Percent.decode, Percent.encode, String.toList_ofList, Percent.decodeChars_encodeChars,
      String.ofList_toList]
  have hbody : entryBody e ++ rest = Utf8.encode (Percent.encode e.href) ++ (Utf8.encode "\">" ++
      (Utf8.encode (label e) ++ (Utf8.encode "</a></li>" ++ rest))) := by
    simp only [entryBody, List.append_assoc]
  rw [readItem?, hbody, hhref]
  simp only [Option.bind_eq_bind, Option.bind_some, readLabel?_label, Utf8.decode_encode, hdecoded]
  rw [Utf8.encode, Utf8.decodeChars_encodeChars, Markup.unescapeChars_escapeQuoted h, String.ofList_toList]
  rfl

/-! ## Pages -/

theorem readEntries?_of_some {page front inner rest : Bytes} {e : Entry}
    (hopening : cutAt (Utf8.encode entryOpening) page = some (front, inner))
    (hentry : readItem? references inner = some (e, rest)) :
    readEntries? references page = (readEntries? references rest).map (e :: ·) := by
  rw [readEntries?]
  split
  · rename_i hnone
    cases hopening.symm.trans hnone
  · rename_i front' inner' hsome
    cases hopening.symm.trans hsome
    split
    · rename_i hnone
      cases hentry.symm.trans hnone
    · rename_i e' rest' hsome
      cases hentry.symm.trans hsome
      rfl

theorem readEntries?_of_none {page : Bytes} (h : cutAt (Utf8.encode entryOpening) page = none) :
    readEntries? references page = some [] := by
  rw [readEntries?]
  split
  · rfl
  · rename_i hsome
    cases h.symm.trans hsome

/-- A page from the end of its first line on. -/
def pageRest (es : List Entry) : Bytes :=
  es.flatMap (fun e => Utf8.encode "\r\n" ++ (Utf8.encode entryOpening ++ entryBody e)) ++
    Utf8.encode ("\r\n" ++ closing ++ "\r\n")

theorem pageRest_cons (e : Entry) (es : List Entry) : pageRest (e :: es) =
    Utf8.encode "\r\n" ++ (Utf8.encode entryOpening ++ (entryBody e ++ pageRest es)) := by
  simp only [pageRest, List.flatMap_cons, List.append_assoc]

theorem encode_page (es : List Entry) : Utf8.encode (page es) = Utf8.encode opening ++ pageRest es := by
  have hlines : ∀ lines : List String, Utf8.encode "\r\n" ++ (lines.map (· ++ "\r\n")).flatMap Utf8.encode =
      (lines.map ("\r\n" ++ ·)).flatMap Utf8.encode ++ Utf8.encode "\r\n" := by
    intro lines
    induction lines with
    | nil => rfl
    | cons line lines ih =>
      simp only [List.map_cons, List.flatMap_cons, Utf8.encode_append, List.append_assoc, ih]
  rw [page, Utf8.encode_join, List.cons_append, List.map_cons, List.flatMap_cons, Utf8.encode_append,
    List.append_assoc, hlines, pageRest, Utf8.encode_append]
  simp only [List.map_append, List.map_map, List.flatMap_append, List.append_assoc, List.map_cons,
    List.map_nil, List.flatMap_map, Function.comp, Utf8.encode_append, encode_item, List.flatMap_singleton]

theorem readEntries?_pageRest (h : references.KnownQuoted) (es : List Entry) :
    readEntries? references (pageRest es) = some es := by
  induction es with
  | nil => exact readEntries?_of_none (by decide)
  | cons e es ih =>
    have hline : 0x3C ∉ Utf8.encode "\r\n" := by decide
    have hopening : cutAt (Utf8.encode entryOpening) (pageRest (e :: es)) =
        some (Utf8.encode "\r\n", entryBody e ++ pageRest es) := by
      rw [pageRest_cons]
      exact cutAt_of_notMem (Utf8.encode "li><a href=\"") hline _
    rw [readEntries?_of_some hopening (readItem?_body h e (pageRest es)), ih]
    rfl

/-- A page is read as the entries that it was made of, whatever these are. -/
theorem readEntries?_page (h : references.KnownQuoted) (es : List Entry) :
    readEntries? references (Utf8.encode (page es)) = some es := by
  rw [encode_page]
  cases es with
  | nil => exact readEntries?_of_none (by decide)
  | cons e es =>
    have hfirst : cutAt (Utf8.encode entryOpening)
        (Utf8.encode opening ++ (Utf8.encode "\r\n" ++ Utf8.encode entryOpening)) =
          some (Utf8.encode (opening ++ "\r\n"), []) := by decide
    have hopening : cutAt (Utf8.encode entryOpening) (Utf8.encode opening ++ pageRest (e :: es)) =
        some (Utf8.encode (opening ++ "\r\n"), entryBody e ++ pageRest es) := by
      have hmore := cutAt_more hfirst (entryBody e ++ pageRest es)
      rw [List.nil_append, List.append_assoc, List.append_assoc, ← pageRest_cons] at hmore
      exact hmore
    rw [readEntries?_of_some hopening (readItem?_body h e (pageRest es)), readEntries?_pageRest h es]
    rfl

end FileExchange.Listing

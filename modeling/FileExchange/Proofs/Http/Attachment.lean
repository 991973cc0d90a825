import FileExchange.Proofs.Http.Head
import FileExchange.Proofs.Media.Type

/-!
# Heads of downloads read back

The head of a download is a status line and five fields, the last of which tells the name to save the file
under. Quotes and backslashes in the name are undone by whoever reads it; a line end in the name is not
escaped, and cuts the field.
-/

set_option autoImplicit false

namespace FileExchange

namespace Response

/-! ## Quoted strings -/

/-- The rest of a quoted string behind its opening quote: a character behind a backslash stands for itself,
and nothing may follow the closing quote. -/
def unquoteRest? : List Char → Option (List Char)
  | [] => none
  | ['\\'] => none
  | '"' :: rest => if rest = [] then some [] else none
  | '\\' :: c :: rest => (unquoteRest? rest).map (c :: ·)
  | c :: rest => (unquoteRest? rest).map (c :: ·)

theorem escapeQuotedChar_cases (c : Char) :
    ((c = '\\' ∨ c = '"') ∧ escapeQuotedChar c = ['\\', c]) ∨
      (c ≠ '\\' ∧ c ≠ '"' ∧ escapeQuotedChar c = [c]) := by
  by_cases h : c = '\\' ∨ c = '"'
  · exact Or.inl ⟨h, by simp [escapeQuotedChar, h]⟩
  · have hplain := not_or.mp h
    exact Or.inr ⟨hplain.1, hplain.2, by simp [escapeQuotedChar, h]⟩

theorem unquoteRest?_escapeQuotedChar (c : Char) (rest : List Char) :
    unquoteRest? (escapeQuotedChar c ++ rest) = (unquoteRest? rest).map (c :: ·) := by
  rcases escapeQuotedChar_cases c with ⟨_, hc⟩ | ⟨hslash, hquote, hc⟩
  · rw [hc, List.cons_append, List.singleton_append, unquoteRest?]
  · rw [hc, List.singleton_append, unquoteRest?]
    · exact fun h _ => hslash h
    · exact hquote
    · exact fun _ _ h _ => hslash h

theorem unquoteRest?_escaped (s : List Char) :
    unquoteRest? (s.flatMap escapeQuotedChar ++ ['"']) = some s := by
  induction s with
  | nil => rfl
  | cons c s ih =>
    rw [List.flatMap_cons, List.append_assoc, unquoteRest?_escapeQuotedChar, ih]
    rfl

/-! ## Line ends in quoted strings -/

theorem infix_lineEnd_append {front : List Char} (h : '\r' ∉ front) (rest : List Char) :
    lineEnd.toList <:+: front ++ rest ↔ lineEnd.toList <:+: rest := by
  induction front with
  | nil => rfl
  | cons c front ih =>
    rw [List.mem_cons, not_or] at h
    have hstart : ¬ lineEnd.toList <+: c :: (front ++ rest) :=
      fun hprefix => h.1 (List.cons_prefix_cons.mp hprefix).1
    rw [List.cons_append, List.infix_cons_iff, ih h.2]
    exact or_iff_right hstart

theorem breaks_append (front : String) (h : '\r' ∉ front.toList) {rest : String} :
    Breaks (front ++ rest) ↔ Breaks rest := by
  rw [Breaks, String.toList_append]
  exact infix_lineEnd_append h rest.toList

/-- What is escaped begins with a line feed exactly if it did before. -/
theorem feed_prefix_escaped_iff (s : List Char) :
    ['\n'] <+: s.flatMap escapeQuotedChar ++ ['"'] ↔ ['\n'] <+: s := by
  cases s with
  | nil => decide
  | cons c s =>
    rcases escapeQuotedChar_cases c with ⟨rfl | rfl, hc⟩ | ⟨_, _, hc⟩
    · simp [hc, List.cons_prefix_cons]
    · simp [hc, List.cons_prefix_cons]
    · simp [hc, List.cons_prefix_cons]

/-- Escaping puts nothing between the two characters of a line end and makes none. -/
theorem infix_escaped_iff (s : List Char) :
    lineEnd.toList <:+: s.flatMap escapeQuotedChar ++ ['"'] ↔ lineEnd.toList <:+: s := by
  induction s with
  | nil => decide
  | cons c s ih =>
    rw [List.flatMap_cons, List.append_assoc]
    rcases escapeQuotedChar_cases c with ⟨hescaped, hc⟩ | ⟨_, _, hc⟩
    · have hreturn : '\r' ∉ [c] := by rcases hescaped with rfl | rfl <;> decide
      have hpair : '\r' ∉ ['\\', c] := List.not_mem_cons_of_ne_of_not_mem (by decide) hreturn
      rw [hc, infix_lineEnd_append hpair, ih]
      exact (infix_lineEnd_append hreturn s).symm
    · have hstart : lineEnd.toList <+: c :: (s.flatMap escapeQuotedChar ++ ['"']) ↔
          lineEnd.toList <+: c :: s := by
        show ['\r', '\n'] <+: _ ↔ ['\r', '\n'] <+: _
        rw [List.cons_prefix_cons, List.cons_prefix_cons, feed_prefix_escaped_iff]
      rw [hc, List.singleton_append, List.infix_cons_iff, List.infix_cons_iff, hstart, ih]

theorem breaks_quotedString (name : String) : Breaks (quotedString name) ↔ Breaks name := by
  rw [Breaks, quotedString, String.toList_ofList, List.cons_append]
  show lineEnd.toList <:+: ['"'] ++ _ ↔ _
  rw [infix_lineEnd_append (by decide)]
  exact infix_escaped_iff name.toList

/-! ## Framed heads -/

def dispositionFront : String := "attachment; filename="

/-- The name to save a download under, as the last field tells it. -/
def fileNameOf? (disposition : String) : Option String := do
  let quoted ← disposition.toList.dropPrefix? (dispositionFront.toList ++ ['"'])
  let name ← unquoteRest? quoted
  return String.ofList name

theorem fileNameOf?_quotedString (name : String) :
    fileNameOf? (dispositionFront ++ quotedString name) = some name := by
  have hquoted : (dispositionFront ++ quotedString name).toList =
      (dispositionFront.toList ++ ['"']) ++ (name.toList.flatMap escapeQuotedChar ++ ['"']) := by
    simp [quotedString]
  rw [fileNameOf?, hquoted, List.dropPrefix?_append_of_beq _ (beq_self_eq_true _)]
  simp [unquoteRest?_escaped]

/-- The status line of a download and its fields, whatever the last one says. -/
def attachmentLines (now : Instant) (type : String) (size : Int) (serverName disposition : String) :
    List String :=
  ["HTTP/1.0 200 OK", "Server: " ++ serverName, "Date: " ++ HttpDate.text now, "Content-Type: " ++ type,
    "Content-Length: " ++ toString size, "Content-Disposition: " ++ disposition]

/-- The bytes are a head and nothing behind it: a status line and five fields, of which the last one tells
the name of the file. -/
def Framed (now : Instant) (type : String) (size : Int) (fileName serverName : String) (head : Bytes) :
    Prop :=
  ∃ front disposition, splitHead head = some (front, []) ∧
    headLines front = (attachmentLines now type size serverName disposition).map Utf8.encode ∧
    fileNameOf? disposition = some fileName

section Head

variable {now : Instant} {type fileName serverName disposition : String} {size : Int}

theorem lines_attachmentHead : (attachmentHead now type size fileName serverName).lines =
    attachmentLines now type size serverName (dispositionFront ++ quotedString fileName) := by
  have hstatus : (attachmentHead now type size fileName serverName).statusLine = "HTTP/1.0 200 OK" := by
    show ({} : Response).statusLine = "HTTP/1.0 200 OK"
    decide
  rw [lines, hstatus]
  simp only [attachmentHead, attachmentLines, List.map_cons, List.map_nil, fieldLine, dispositionFront,
    String.reduceAppend]

theorem attachmentHead_body : (attachmentHead now type size fileName serverName).body = [] := rfl

theorem return_notMem_toString_int (n : Int) : '\r' ∉ (toString n).toList := by
  cases n with
  | ofNat n => exact return_notMem_toString n
  | negSucc n => exact notMem_append (by decide) (return_notMem_toString (n + 1))

theorem not_breaks_attachmentLines (now : Instant) (size : Int) (htype : '\r' ∉ type.toList)
    (hserver : ¬ Breaks serverName) (hdisposition : ¬ Breaks disposition) :
    ∀ line ∈ attachmentLines now type size serverName disposition, ¬ Breaks line := by
  simp only [attachmentLines, List.forall_mem_cons]
  refine ⟨not_breaks_of_notMem (by decide), ?_, ?_, ?_, ?_, ?_, by simp⟩
  · rwa [breaks_append "Server: " (by decide)]
  · exact not_breaks_of_notMem (notMem_append (by decide) (HttpDate.return_notMem_text now))
  · exact not_breaks_of_notMem (notMem_append (by decide) htype)
  · exact not_breaks_of_notMem (notMem_append (by decide) (return_notMem_toString_int size))
  · rwa [breaks_append "Content-Disposition: " (by decide)]

theorem framed_of_not_breaks (htype : '\r' ∉ type.toList) (hserver : ¬ Breaks serverName)
    (hname : ¬ Breaks fileName) :
    Framed now type size fileName serverName (attachmentHead now type size fileName serverName).head := by
  have hdisposition : ¬ Breaks (dispositionFront ++ quotedString fileName) := by
    rwa [breaks_append dispositionFront (by decide), breaks_quotedString]
  have hlines := not_breaks_attachmentLines now size htype hserver hdisposition
  rw [← lines_attachmentHead] at hlines
  obtain ⟨hsplit, hread⟩ := splitHead_bytes hlines
  rw [bytes, attachmentHead_body, List.append_nil] at hsplit
  rw [lines_attachmentHead] at hsplit hread
  exact ⟨_, _, hsplit, hread, fileNameOf?_quotedString fileName⟩

/-- The last line of a framed head is the last field, and no line of a head holds a line end. -/
theorem not_breaks_of_framed
    (h : Framed now type size fileName serverName (attachmentHead now type size fileName serverName).head) :
    ¬ Breaks fileName := by
  obtain ⟨front, disposition, hsplit, hread, _⟩ := h
  have hsent : (attachmentHead now type size fileName serverName).head =
      (headLines front).flatMap (· ++ crlf) ++ crlf := by
    rw [cutAt_eq_some hsplit, List.append_nil, flatMap_crlf (headLines_ne_nil front),
      intercalate_headLines, List.append_assoc]
  rw [head_eq, lines_attachmentHead, hread] at hsent
  have hfield : Utf8.encode ("Content-Disposition: " ++ (dispositionFront ++ quotedString fileName)) =
      Utf8.encode ("Content-Disposition: " ++ disposition) := by
    simpa [attachmentLines] using hsent
  have hlast : Utf8.encode ("Content-Disposition: " ++ disposition) ∈ headLines front := by
    simp [hread, attachmentLines]
  have hline := not_infix_of_mem_headLines hlast
  rw [← hfield, infix_encode_iff, breaks_append "Content-Disposition: " (by decide),
    breaks_append dispositionFront (by decide), breaks_quotedString] at hline
  exact hline

end Head

/-- With any type that a name can have, the head of a download is framed exactly if no line end stands in
the name of the file. -/
theorem framed_iff {now : Instant} {p : Path} {type fileName serverName : String} {size : Int}
    (hp : '/' ∉ p.name.toList) (htype : Media.typeOf? p = some type ∨ type = Media.fallbackType)
    (hserver : ¬ Breaks serverName) :
    Framed now type size fileName serverName (attachmentHead now type size fileName serverName).head ↔
      ¬ Breaks fileName := by
  have hfixed : type ∈ Media.fixedTypes := by
    rcases htype with htype | rfl
    · exact Media.mem_fixedTypes_of_typeOf? hp htype
    · exact List.mem_cons_self
  have hreturn : '\r' ∉ type.toList := (Media.isType_of_mem_fixedTypes hfixed).notMem (by decide)
  exact ⟨not_breaks_of_framed, framed_of_not_breaks hreturn hserver⟩

/-- Quotes, backslashes and single carriage returns in a name break nothing. -/
theorem framed_quotes :
    '/' ∉ (Path.ofString "a.tar").name.toList ∧
      Media.typeOf? (Path.ofString "a.tar") = some "application/x-tar" ∧ ¬ Breaks "FileShare/1.0" ∧
      Framed ⟨63854042405⟩ "application/x-tar" 5 "\"ä\\\r\".tar" "FileShare/1.0"
        (attachmentHead ⟨63854042405⟩ "application/x-tar" 5 "\"ä\\\r\".tar" "FileShare/1.0").head := by
  have hslash : '/' ∉ (Path.ofString "a.tar").name.toList := by decide +kernel
  have htype : Media.typeOf? (Path.ofString "a.tar") = some "application/x-tar" := by decide +kernel
  have hserver : ¬ Breaks "FileShare/1.0" := not_breaks_of_notMem (by decide)
  have hname : ¬ Breaks "\"ä\\\r\".tar" := by decide +kernel
  exact ⟨hslash, htype, hserver, (framed_iff hslash (Or.inl htype) hserver).mpr hname⟩

/-- A name can hold a line end, and then its field is not the last line of the head. -/
theorem not_framed_lineEnd :
    Path.IsPlain "a\r\nb" ∧ Media.typeOf? (Path.ofString "a\r\nb") = none ∧ ¬ Breaks "FileShare/1.0" ∧
      ¬ Framed ⟨63854042405⟩ Media.fallbackType 5 "a\r\nb" "FileShare/1.0"
        (attachmentHead ⟨63854042405⟩ Media.fallbackType 5 "a\r\nb" "FileShare/1.0").head := by
  have hplain : Path.IsPlain "a\r\nb" := ⟨⟨by decide, by decide, by decide⟩, by decide⟩
  have hbreaks : Breaks "a\r\nb" := ⟨['a'], ['b'], rfl⟩
  refine ⟨hplain, by decide +kernel, not_breaks_of_notMem (by decide), fun h => ?_⟩
  exact not_breaks_of_framed h hbreaks

end Response

end FileExchange

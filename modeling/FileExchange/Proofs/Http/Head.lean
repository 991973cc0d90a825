import FileExchange.Http.Response
import FileExchange.Proofs.Text.Decoding
import FileExchange.Proofs.Text.Marks
import FileExchange.Proofs.Time.HttpDate

/-!
# Heads of responses

The first empty line ends the head of a response, and the lines before it are the status line and the
fields, as long as no line end stands in one of them.
-/

set_option autoImplicit false

namespace FileExchange

namespace Response

/-! ## Reading a head -/

def crlf : Bytes := [0x0D, 0x0A]

/-- The head before the first empty line, and what follows that line. -/
def splitHead (sent : Bytes) : Option (Bytes × Bytes) :=
  cutAt (crlf ++ crlf) sent

def headLines (head : Bytes) : List Bytes :=
  match _h : cutAt crlf head with
  | some (line, rest) => line :: headLines rest
  | none => [head]
termination_by head.length
decreasing_by
  rw [cutAt_eq_some _h]
  simp only [crlf, List.length_append, List.length_cons, List.length_nil]
  omega

/-- The value on a line, if it is that of the field with a name. -/
def valueOf? (name : String) (line : Bytes) : Option Bytes :=
  match cutAt (Utf8.encode ": ") line with
  | some (key, value) => if key = Utf8.encode name then some value else none
  | none => none

/-- The value of the first field with a name. -/
def fieldValue? (name : String) (head : Bytes) : Option Bytes :=
  (headLines head).tail.findSome? (valueOf? name)

/-! ## Lines -/

theorem headLines_of_some {head line rest : Bytes} (h : cutAt crlf head = some (line, rest)) :
    headLines head = line :: headLines rest := by
  rw [headLines]
  split
  · rename_i line' rest' h'
    rw [h] at h'
    cases h'
    rfl
  · rename_i h'
    rw [h] at h'
    cases h'

theorem headLines_of_none {head : Bytes} (h : cutAt crlf head = none) : headLines head = [head] := by
  rw [headLines]
  split
  · rename_i line rest h'
    rw [h] at h'
    cases h'
  · rfl

theorem not_infix_of_mem_headLines {head line : Bytes} (h : line ∈ headLines head) :
    ¬ crlf <:+: line := by
  have hmark : crlf ≠ [] := List.cons_ne_nil _ _
  fun_induction headLines head with
  | case1 head first rest hcut ih =>
    rcases List.mem_cons.mp h with rfl | h
    · exact not_infix_of_cutAt hmark hcut
    · exact ih h
  | case2 head hcut =>
    rw [List.mem_singleton.mp h]
    exact (cutAt_eq_none_iff hmark).mp hcut

theorem headLines_ne_nil (head : Bytes) : headLines head ≠ [] := by
  cases hcut : cutAt crlf head with
  | none =>
    rw [headLines_of_none hcut]
    exact List.cons_ne_nil _ _
  | some cut =>
    rw [headLines_of_some hcut]
    exact List.cons_ne_nil _ _

/-- The lines of a head with the line ends between them are the head. -/
theorem intercalate_headLines (head : Bytes) : crlf.intercalate (headLines head) = head := by
  fun_induction headLines head with
  | case1 head line rest hcut ih =>
    obtain ⟨next, more, hlines⟩ := List.exists_cons_of_ne_nil (headLines_ne_nil rest)
    rw [hlines] at ih ⊢
    rw [List.intercalate_cons_cons, ih, cutAt_eq_some hcut]
  | case2 head hcut => exact List.intercalate_singleton

/-- No line end begins in a line without one, not even where the line end behind the line follows. -/
theorem not_prefix_of_suffix {line more : Bytes} (h : ¬ crlf <:+: line) (hmore : more <:+ line)
    (hne : more ≠ []) (rest : Bytes) : ¬ crlf <+: more ++ (crlf ++ rest) := by
  intro hprefix
  match more, hne with
  | [b], _ => simp [crlf, List.cons_prefix_cons] at hprefix
  | b :: b' :: more, _ =>
    obtain ⟨rfl, htail⟩ := List.cons_prefix_cons.mp hprefix
    obtain ⟨rfl, _⟩ := List.cons_prefix_cons.mp htail
    exact h ((List.prefix_append crlf more).isInfix.trans hmore.isInfix)

theorem flatMap_crlf {lines : List Bytes} (hne : lines ≠ []) :
    lines.flatMap (· ++ crlf) = crlf.intercalate lines ++ crlf := by
  induction lines with
  | nil => exact absurd rfl hne
  | cons line more ih =>
    cases more with
    | nil => rw [List.flatMap_singleton, List.intercalate_singleton]
    | cons next more =>
      rw [List.flatMap_cons, ih (List.cons_ne_nil next more), List.intercalate_cons_cons]
      simp only [List.append_assoc]

theorem cutAt_line {line : Bytes} (h : ¬ crlf <:+: line) (rest : Bytes) :
    cutAt crlf (line ++ (crlf ++ rest)) = some (line, rest) := by
  have hnone : ∀ more, more <:+ line → more ≠ [] → ¬ crlf <+: more ++ (crlf ++ rest) :=
    fun more hmore hne => not_prefix_of_suffix h hmore hne rest
  rw [cutAt_append hnone, cutAt_mark, Option.map_some, List.append_nil]

theorem headLines_intercalate {lines : List Bytes} (hne : lines ≠ []) (h : ∀ l ∈ lines, ¬ crlf <:+: l) :
    headLines (crlf.intercalate lines) = lines := by
  induction lines with
  | nil => exact absurd rfl hne
  | cons line more ih =>
    have hline := h line List.mem_cons_self
    cases more with
    | nil =>
      rw [List.intercalate_singleton]
      exact headLines_of_none ((cutAt_eq_none_iff (List.cons_ne_nil _ _)).mpr hline)
    | cons next more =>
      rw [List.intercalate_cons_cons, List.append_assoc, headLines_of_some (cutAt_line hline _),
        ih (by simp) fun l hl => h l (List.mem_cons_of_mem line hl)]

/-- A line that another one follows ends no head. -/
theorem splitHead_append {line rest : Bytes} (h : ¬ crlf <:+: line) (hrest : ¬ crlf <+: rest) :
    splitHead (line ++ (crlf ++ rest)) =
      (splitHead rest).map fun cut => (line ++ (crlf ++ cut.1), cut.2) := by
  have hline : ∀ more, more <:+ line → more ≠ [] → ¬ crlf ++ crlf <+: more ++ (crlf ++ rest) :=
    fun more hmore hne hprefix =>
      not_prefix_of_suffix h hmore hne rest ((List.prefix_append crlf crlf).trans hprefix)
  have hreturn : ¬ crlf ++ crlf <+: 0x0D :: 0x0A :: rest :=
    fun hprefix => hrest ((List.prefix_append_right_inj crlf).mp hprefix)
  have hfeed : ¬ crlf ++ crlf <+: 0x0A :: rest := by
    simp [crlf, List.cons_prefix_cons]
  have hend : crlf ++ rest = 0x0D :: 0x0A :: rest := rfl
  rw [splitHead, splitHead, cutAt_append hline, hend, cutAt_step hreturn, cutAt_step hfeed]
  simp only [Option.map_map]
  rfl

/-- Lines that are not empty hold no empty line. -/
theorem splitHead_lines {lines : List Bytes} (hne : lines ≠ [])
    (h : ∀ l ∈ lines, l ≠ [] ∧ ¬ crlf <:+: l) (body : Bytes) :
    splitHead (lines.flatMap (· ++ crlf) ++ (crlf ++ body)) = some (crlf.intercalate lines, body) := by
  induction lines with
  | nil => exact absurd rfl hne
  | cons line more ih =>
    have hline := (h line List.mem_cons_self).2
    cases more with
    | nil =>
      have hbytes : [line].flatMap (· ++ crlf) ++ (crlf ++ body) = line ++ (crlf ++ (crlf ++ body)) := by
        simp
      have hnone : ∀ more, more <:+ line → more ≠ [] →
          ¬ crlf ++ crlf <+: more ++ (crlf ++ (crlf ++ body)) := fun more hmore hne hprefix =>
        not_prefix_of_suffix hline hmore hne _ ((List.prefix_append crlf crlf).trans hprefix)
      rw [hbytes, List.intercalate_singleton, splitHead, cutAt_append hnone, ← List.append_assoc crlf,
        cutAt_mark, Option.map_some, List.append_nil]
    | cons next more =>
      obtain ⟨hnext, hclean⟩ := h next (by simp)
      have hrest := ih (by simp) fun l hl => h l (List.mem_cons_of_mem line hl)
      have hstart : (next :: more).flatMap (· ++ crlf) ++ (crlf ++ body) =
          next ++ (crlf ++ (more.flatMap (· ++ crlf) ++ (crlf ++ body))) := by
        simp
      have hfollows := not_prefix_of_suffix hclean List.suffix_rfl hnext
        (more.flatMap (· ++ crlf) ++ (crlf ++ body))
      rw [List.flatMap_cons, List.intercalate_cons_cons, List.append_assoc, List.append_assoc, hstart,
        splitHead_append hline hfollows, ← hstart, hrest, Option.map_some, List.append_assoc]

/-! ## The lines of a response -/

/-- The status line and the fields. -/
def lines (r : Response) : List String :=
  r.statusLine :: r.fields.map fieldLine

/-- A line end stands in the text. -/
def Breaks (s : String) : Prop :=
  lineEnd.toList <:+: s.toList

instance (s : String) : Decidable (Breaks s) :=
  inferInstanceAs (Decidable (lineEnd.toList <:+: s.toList))

theorem encode_lineEnd : Utf8.encode lineEnd = crlf := rfl

/-- The bytes of a text hold a line end exactly where the text does. -/
theorem infix_encode_iff (s : String) : crlf <:+: Utf8.encode s ↔ Breaks s := by
  constructor
  · rintro ⟨front, back, hsplit⟩
    have hbytes : Utf8.encodeChars s.toList = front ++ 0x0D :: ([] ++ 0x0A :: back) := by
      rw [← Utf8.encode, ← hsplit, crlf]
      simp
    have hchars := Utf8.decodeChars_encodeChars s.toList
    rw [hbytes, Utf8.decodeChars_ascii front (by decide), Utf8.decodeChars_ascii [] (by decide)] at hchars
    refine ⟨Utf8.decodeChars front, Utf8.decodeChars back, ?_⟩
    rw [← hchars, List.append_assoc]
    rfl
  · rintro ⟨front, back, hsplit⟩
    refine ⟨Utf8.encodeChars front, Utf8.encodeChars back, ?_⟩
    rw [Utf8.encode, ← hsplit, Utf8.encodeChars_append, Utf8.encodeChars_append, ← Utf8.encode,
      encode_lineEnd]

theorem not_breaks_of_notMem {s : String} (h : '\r' ∉ s.toList) : ¬ Breaks s :=
  fun hbreaks => h (hbreaks.subset List.mem_cons_self)

/-- No carriage return comes into the head, and a colon ends the name of a field. -/
structure Clean (r : Response) : Prop where
  version : '\r' ∉ r.version.toList
  names : ∀ field ∈ r.fields, '\r' ∉ field.1.toList ∧ ':' ∉ field.1.toList
  values : ∀ field ∈ r.fields, '\r' ∉ field.2.toList

theorem head_eq (r : Response) :
    r.head = (r.lines.map Utf8.encode).flatMap (· ++ crlf) ++ crlf := by
  have hend : ∀ line : String, Utf8.encode (line ++ lineEnd) = Utf8.encode line ++ crlf := by
    intro line
    rw [Utf8.encode_append]
    rfl
  rw [head, headText, Utf8.encode_join, List.flatMap_map, List.flatMap_map, List.flatMap_append]
  simp only [hend]
  rfl

theorem return_notMem_encode {text : String} (h : '\r' ∉ text.toList) : 0x0D ∉ Utf8.encode text :=
  Utf8.notMem_encodeChars (by decide) h

theorem Clean.return_notMem {r : Response} (h : r.Clean) : ∀ line ∈ r.lines, '\r' ∉ line.toList := by
  intro line hline
  rcases List.mem_cons.mp hline with rfl | hline
  · have hcode : ∀ status : Status,
        '\r' ∉ (" " ++ toString status.code ++ " " ++ status.phrase).toList := by
      intro status
      cases status <;> decide
    have hsplit : r.statusLine = r.version ++ (" " ++ toString r.status.code ++ " " ++ r.status.phrase) := by
      simp [statusLine, String.append_assoc]
    rw [hsplit, String.toList_append, List.mem_append, not_or]
    exact ⟨h.version, hcode r.status⟩
  · obtain ⟨field, hfield, rfl⟩ := List.mem_map.mp hline
    rw [fieldLine, String.toList_append, String.toList_append, List.mem_append, List.mem_append, not_or,
      not_or]
    exact ⟨⟨(h.names field hfield).1, by decide⟩, h.values field hfield⟩

theorem lines_ne_empty (r : Response) : ∀ line ∈ r.lines, line ≠ "" := by
  intro line hline hempty
  have hblank : ' ' ∈ line.toList := by
    rcases List.mem_cons.mp hline with rfl | hline
    · simp [statusLine]
    · obtain ⟨field, _, rfl⟩ := List.mem_map.mp hline
      simp [fieldLine]
  rw [hempty] at hblank
  exact absurd hblank (by decide)

/-- Whatever body follows, a head without line ends in its lines is read line by line. -/
theorem splitHead_bytes {r : Response} (h : ∀ line ∈ r.lines, ¬ Breaks line) :
    splitHead r.bytes = some (crlf.intercalate (r.lines.map Utf8.encode), r.body) ∧
      headLines (crlf.intercalate (r.lines.map Utf8.encode)) = r.lines.map Utf8.encode := by
  have hne : r.lines.map Utf8.encode ≠ [] := by simp [Response.lines]
  have hlines : ∀ l ∈ r.lines.map Utf8.encode, l ≠ [] ∧ ¬ crlf <:+: l := by
    intro l hl
    obtain ⟨line, hline, rfl⟩ := List.mem_map.mp hl
    rw [infix_encode_iff]
    exact ⟨fun hnil => r.lines_ne_empty line hline (Utf8.encode_injective hnil), h line hline⟩
  constructor
  · rw [bytes, head_eq, List.append_assoc]
    exact splitHead_lines hne hlines r.body
  · exact headLines_intercalate hne fun l hl => (hlines l hl).2

theorem Clean.splitHead_bytes {r : Response} (h : r.Clean) :
    ∃ head, splitHead r.bytes = some (head, r.body) ∧ headLines head = r.lines.map Utf8.encode :=
  ⟨_, Response.splitHead_bytes fun line hline => not_breaks_of_notMem (h.return_notMem line hline)⟩

/-- The status line comes first. -/
theorem Clean.cutAt_bytes {r : Response} (h : r.Clean) :
    ∃ rest, cutAt crlf r.bytes = some (Utf8.encode r.statusLine, rest) := by
  have hstatus := return_notMem_encode (h.return_notMem r.statusLine List.mem_cons_self)
  rw [bytes, head_eq, Response.lines, List.map_cons, List.flatMap_cons, List.append_assoc,
    List.append_assoc, List.append_assoc]
  exact ⟨_, cutAt_of_notMem [0x0A] hstatus _⟩

theorem valueOf?_fieldLine (name : String) {field : String × String} (h : ':' ∉ field.1.toList) :
    valueOf? name (Utf8.encode (fieldLine field)) =
      if field.1 = name then some (Utf8.encode field.2) else none := by
  have hcolon : 0x3A ∉ Utf8.encode field.1 := Utf8.notMem_encodeChars (by decide) h
  have hmark : Utf8.encode ": " = [0x3A, 0x20] := by decide
  have hcut : cutAt (Utf8.encode ": ") (Utf8.encode (fieldLine field)) =
      some (Utf8.encode field.1, Utf8.encode field.2) := by
    rw [fieldLine, Utf8.encode_append, Utf8.encode_append, List.append_assoc, hmark]
    exact cutAt_of_notMem [0x20] hcolon _
  have hkey : Utf8.encode field.1 = Utf8.encode name ↔ field.1 = name :=
    ⟨Utf8.encode_injective, congrArg Utf8.encode⟩
  simp only [valueOf?, hcut, hkey]

/-- A field of a response is found under its name. -/
theorem Clean.fieldValue?_eq {r : Response} (h : r.Clean) {head : Bytes}
    (hlines : headLines head = r.lines.map Utf8.encode) (name : String) :
    fieldValue? name head = (r.fields.lookup name).map Utf8.encode := by
  have hnames : ∀ field ∈ r.fields, ':' ∉ field.1.toList := fun field hfield => (h.names field hfield).2
  rw [fieldValue?, hlines, Response.lines, List.map_cons, List.tail_cons]
  generalize r.fields = fields at hnames ⊢
  induction fields with
  | nil => rfl
  | cons field fields ih =>
    have hfield := valueOf?_fieldLine name (hnames field List.mem_cons_self)
    have hrest := ih fun f hf => hnames f (List.mem_cons_of_mem field hf)
    rw [List.map_cons, List.map_cons, List.findSome?_cons, hfield, hrest, List.lookup_cons]
    by_cases hname : field.1 = name
    · simp [hname]
    · have hkey : (name == field.1) = false := by simpa using Ne.symm hname
      rw [if_neg hname, hkey]

end Response

/-! ## Heads without carriage returns -/

theorem return_notMem_toString (n : Nat) : '\r' ∉ (toString n).toList :=
  Text.notMem_toString (by decide) n

theorem notMem_append {c : Char} {a b : String} (ha : c ∉ a.toList) (hb : c ∉ b.toList) :
    c ∉ (a ++ b).toList := by
  rw [String.toList_append, List.mem_append, not_or]
  exact ⟨ha, hb⟩

theorem HttpDate.return_notMem_text (now : Instant) : '\r' ∉ (text now).toList := by
  have hname : ∀ names : List String, (∀ name ∈ names, '\r' ∉ name.toList) →
      ∀ i, '\r' ∉ (names.getD i "").toList := by
    intro names hnames i
    rw [List.getD_eq_getElem?_getD]
    cases hi : names[i]? with
    | none => decide
    | some name => exact hnames name (List.mem_of_getElem? hi)
  have hdigits : ∀ n, '\r' ∉ (twoDigits n).toList := notMem_twoDigits (by decide)
  have hweekday := hname weekdayNames (by decide)
  have hmonth := hname monthNames (by decide)
  have hblank : '\r' ∉ " ".toList := by decide
  have hcolon : '\r' ∉ ":".toList := by decide
  have hcomma : '\r' ∉ ", ".toList := by decide
  have hzone : '\r' ∉ " GMT".toList := by decide
  simp only [text, String.toList_append, List.mem_append, hblank, hcolon, hcomma, hzone, hdigits, hweekday,
    hmonth, return_notMem_toString, or_self, not_false_eq_true]

namespace Response

theorem return_notMem_quotedString {name : String} (h : '\r' ∉ name.toList) :
    '\r' ∉ (quotedString name).toList := by
  have hescape : ∀ c, c ≠ '\r' → '\r' ∉ escapeQuotedChar c := by
    intro c hc
    unfold escapeQuotedChar
    split
    · simp [Ne.symm hc]
    · simpa using Ne.symm hc
  have hchars : '\r' ∉ name.toList.flatMap escapeQuotedChar := by
    intro hmem
    obtain ⟨c, hc, hmem⟩ := List.mem_flatMap.mp hmem
    exact hescape c (fun heq => h (heq ▸ hc)) hmem
  simp [quotedString, hchars]

theorem clean_htmlHead (status : Status) (body : Bytes) : Clean { htmlHead status with body := body } := by
  have hversion : '\r' ∉ "HTTP/1.0".toList := by decide
  refine ⟨hversion, ?_, ?_⟩
  · simp only [htmlHead, List.forall_mem_singleton]
    decide
  · simp only [htmlHead, List.forall_mem_singleton]
    decide

theorem clean_attachmentHead (now : Instant) {type fileName serverName : String} (size : Nat) (body : Bytes)
    (htype : '\r' ∉ type.toList) (hname : '\r' ∉ fileName.toList) (hserver : '\r' ∉ serverName.toList) :
    Clean { attachmentHead now type size fileName serverName with body := body } := by
  have hversion : '\r' ∉ "HTTP/1.0".toList := by decide
  refine ⟨hversion, ?_, ?_⟩
  · simp only [attachmentHead, List.forall_mem_cons]
    decide
  · simp only [attachmentHead, List.forall_mem_cons]
    exact ⟨hserver, HttpDate.return_notMem_text now, htype, return_notMem_toString size,
      notMem_append (by decide) (return_notMem_quotedString hname), by simp⟩

end Response

end FileExchange

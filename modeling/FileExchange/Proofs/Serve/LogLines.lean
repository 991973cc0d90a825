import FileExchange.Proofs.Http.RequestLine
import FileExchange.Proofs.Serve.Accounting
import FileExchange.Proofs.Serve.Transaction
import FileExchange.Proofs.Text.Escapes
import FileExchange.Proofs.Text.Visible

/-!
# Lines of the access log

An access record is one line of the log, except where it is written as words and the path that it shows has a
line end in it. A path can have one only behind an escape.
-/

set_option autoImplicit false

namespace FileExchange

namespace Text

/-- No line ends in the text. -/
def SingleLine (s : String) : Prop :=
  '\n' ∉ s.toList ∧ '\r' ∉ s.toList

instance (s : String) : Decidable (SingleLine s) :=
  inferInstanceAs (Decidable (_ ∧ _))

@[simp] theorem singleLine_append (a b : String) : SingleLine (a ++ b) ↔ SingleLine a ∧ SingleLine b := by
  simp only [SingleLine, String.toList_append, List.mem_append, not_or]
  exact and_and_and_comm

theorem singleLine_of_visible {s : String} (h : Visible s.toList) : SingleLine s :=
  ⟨fun hmem => absurd (h _ hmem) (by decide), fun hmem => absurd (h _ hmem) (by decide)⟩

theorem singleLine_of_mem_words {s w : List Char} (h : w ∈ words s) : SingleLine (String.ofList w) := by
  have hblank : ∀ c, isBlank c = true → c ∉ (String.ofList w).toList := by
    intro c hc hmem
    rw [String.toList_ofList] at hmem
    rw [(isWord_of_mem_words h).solid c hmem] at hc
    cases hc
  exact ⟨hblank _ (by decide), hblank _ (by decide)⟩

end Text

open Text

/-! ## Targets -/

namespace Request

/-- What stands in the second word of the line, up to a question mark. -/
def path (r : Request) : List Char :=
  ((words r.raw.toList)[1]?.getD []).takeWhile (· != '?')

/-- The request asks for something whose path has an escape of a line feed or of a carriage return in it. -/
def Forges (r : Request) : Prop :=
  r.method = .get ∧ (Percent.Escapes 0x0A r.path ∨ Percent.Escapes 0x0D r.path)

theorem mem_targetOf {c : Char} (hc : c ≠ '/') (uri : List Char) :
    c ∈ (targetOf uri).toList ↔ c ∈ Percent.decodeChars (uri.takeWhile (· != '?')) := by
  unfold targetOf
  dsimp only
  split
  · rename_i hempty
    rw [List.isEmpty_iff.mp hempty]
    exact iff_of_false (by simpa using hc) List.not_mem_nil
  · rw [String.toList_ofList]

/-- A blank of ASCII is in the target of a word exactly if an escape of it is in the path. -/
theorem mem_targetOf_word {c : Char} (hc : c.toNat < 0x80) (hnul : c ≠ '\x00') (hblank : isBlank c = true)
    {uri : List Char} (huri : ∀ d ∈ uri, isBlank d = false) :
    c ∈ (targetOf uri).toList ↔ Percent.Escapes (UInt8.ofNat c.toNat) (uri.takeWhile (· != '?')) := by
  have hslash : c ≠ '/' := by
    rintro rfl
    exact absurd hblank (by decide)
  have hpath : c ∉ uri.takeWhile (· != '?') := by
    intro hmem
    rw [huri c (List.takeWhile_subset _ hmem)] at hblank
    cases hblank
  rw [mem_targetOf hslash, Percent.mem_decodeChars hc hnul hpath]

/-- A target has a line end in it exactly if the request forges one. -/
theorem singleLine_target {line : Option String} {r : Request} (h : parse line = .ok r) :
    SingleLine r.target ↔ ¬ r.Forges := by
  obtain ⟨_, ⟨uri, version, hwords, hr⟩ | ⟨name, hwords, hr⟩⟩ := words_of_parse h
  · have huri := (isWord_of_mem_words (s := r.raw.toList) (w := uri) (by simp [hwords])).solid
    have hpath : r.path = uri.takeWhile (· != '?') := by simp [path, hwords]
    have hfeed := mem_targetOf_word (c := '\n') (by decide) (by decide) (by decide) huri
    have hreturn := mem_targetOf_word (c := '\r') (by decide) (by decide) (by decide) huri
    rw [SingleLine, congrArg target hr, hfeed, hreturn, Forges, hpath, ← not_or]
    exact not_congr (and_iff_right (congrArg method hr)).symm
  · have hname := singleLine_of_mem_words (s := r.raw.toList) (w := name) (by simp [hwords])
    rw [congrArg target hr]
    exact iff_of_true hname fun hforges => nomatch (congrArg method hr).symm.trans hforges.1

end Request

/-! ## Messages -/

namespace AccessRecord

theorem singleLine_line (r : AccessRecord) : SingleLine r.line ↔
    SingleLine r.clientIp ∧ SingleLine r.timestamp ∧ SingleLine r.method ∧ SingleLine r.target := by
  have hstatus : SingleLine (statusText r.statusCode) := by
    unfold statusText
    split
    · decide
    · exact singleLine_of_visible (Number.visible_toString _)
  have hsent : SingleLine (toString r.bytesSent) := singleLine_of_visible (Number.visible_toString _)
  have hduration : SingleLine r.durationMs.fixedText := singleLine_of_visible (Binary64.visible_fixedText _)
  have hdashes : SingleLine " - - [" := by decide
  have hquote : SingleLine "] \"" := by decide
  have hblank : SingleLine " " := by decide
  have hend : SingleLine "\" " := by decide
  have hunit : SingleLine "ms" := by decide
  simp only [line, singleLine_append, hstatus, hsent, hduration, hdashes, hquote, hblank, hend, hunit, and_true,
    and_assoc]

/-- A JSON record is one line whatever it holds; a line of words is one if the texts in it are. -/
theorem singleLine_text (r : AccessRecord) (format : String) : SingleLine (r.text format) ↔
    format = jsonFormat ∨
      SingleLine r.clientIp ∧ SingleLine r.timestamp ∧ SingleLine r.method ∧ SingleLine r.target := by
  unfold text
  split
  · rename_i hjson
    have hvisible := singleLine_of_visible (JsonText.visible_recordText r.fields)
    exact iff_of_true hvisible (Or.inl (beq_iff_eq.mp hjson))
  · rename_i hwords
    rw [singleLine_line]
    exact (or_iff_right fun hjson => hwords (beq_iff_eq.mpr hjson)).symm

end AccessRecord

theorem Method.singleLine_name (m : Method) : SingleLine m.name := by
  cases m <;> decide

/-! ## Dispatches -/

namespace Site

open Serving

/-- The dispatch returns, and the request that its record shows forges a line end. -/
def Forged (s : Site) (x : Exchange) : Prop :=
  ∃ code r, (s.dispatch x).1 = .ok code ∧ x.request? = some r ∧ r.Forges

theorem entry_frame (s : Site) (x : Exchange) :
    (s.entry x).clientIp = x.connection.clientIp ∧ (s.entry x).timestamp = x.clock.stamp := by
  have hgoes := Exchange.goes_of_moves (walks_answer s x)
  unfold entry
  split <;> exact ⟨hgoes.clientIp, congrArg Clock.stamp hgoes.notes.clock⟩

theorem singleLine_entry (s : Site) (x : Exchange) :
    SingleLine (s.entry x).method ∧ (SingleLine (s.entry x).target ↔ ¬ s.Forged x) := by
  cases hresult : (s.answer x).1 with
  | error e =>
    have hanswer : s.answer x = (.error e, (s.answer x).2) := Prod.ext hresult rfl
    have hraised : ¬ s.Forged x := by
      rintro ⟨code, _, hcode, _⟩
      rw [run_dispatch, hresult] at hcode
      cases hcode
    rw [entry_of_answer_error hanswer]
    exact ⟨show SingleLine "-" by decide, iff_of_true (show SingleLine "-" by decide) hraised⟩
  | ok answered =>
    obtain ⟨request, outcome⟩ := answered
    have hanswer : s.answer x = (.ok (request, outcome), (s.answer x).2) := Prod.ext hresult rfl
    have hcode : (s.dispatch x).1 = .ok (outcomeCode outcome) := by
      rw [run_dispatch, hresult]
      rfl
    have hrequest := request_of_answer hanswer
    rw [entry_of_answer_ok hanswer]
    cases request with
    | none =>
      have hunknown : ¬ s.Forged x := by
        rintro ⟨_, r, _, hr, _⟩
        cases hrequest.trans hr
      exact ⟨show SingleLine "-" by decide, iff_of_true (show SingleLine "-" by decide) hunknown⟩
    | some r =>
      obtain ⟨line, _, hparse⟩ := Exchange.parse_of_request? hrequest.symm
      refine ⟨r.method.singleLine_name, (Request.singleLine_target hparse).trans
        (not_congr ⟨fun hforges => ?_, ?_⟩)⟩
      · exact ⟨_, r, hcode, hrequest.symm, hforges⟩
      · rintro ⟨_, r', _, hr', hforges⟩
        cases hrequest.trans hr'
        exact hforges

/-- The one access record of a dispatch is one line of the log exactly if it is written as JSON or no request forges
a line end, as long as the address of the client and the time are one line each. -/
theorem singleLine_iff (s : Site) (x : Exchange) :
    (s.dispatch x).2.journal.access =
        x.journal.access ++ x.journal.kept [(s.entry x).record s.logFormat .info] ∧
      (SingleLine ((s.entry x).record s.logFormat .info).message ↔
        s.logFormat = AccessRecord.jsonFormat ∨
          SingleLine x.connection.clientIp ∧ SingleLine x.clock.stamp ∧ ¬ s.Forged x) := by
  obtain ⟨hip, hstamp⟩ := entry_frame s x
  obtain ⟨hmethod, htarget⟩ := singleLine_entry s x
  refine ⟨access_dispatch s x, ?_⟩
  rw [AccessRecord.record, AccessRecord.singleLine_text, hip, hstamp, htarget, and_iff_right hmethod]

/-- An escaped line feed in the path of a request makes two lines of its record. -/
theorem not_singleLine_forged :
    (bareSite.dispatch (.ofLine bareTree "GET /a%0Ab HTTP/1.0\n")).1 = .ok Status.notFound.code ∧
      ((bareSite.entry (.ofLine bareTree "GET /a%0Ab HTTP/1.0\n")).record bareSite.logFormat .info).message =
        " - - [] \"GET /a\nb\" 404 107 0.00ms" ∧
      ¬ SingleLine " - - [] \"GET /a\nb\" 404 107 0.00ms" :=
  ⟨by decide +kernel, by decide +kernel, by decide +kernel⟩

end Site

end FileExchange

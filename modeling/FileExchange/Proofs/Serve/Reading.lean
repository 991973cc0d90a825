import FileExchange.Proofs.Http.Head
import FileExchange.Proofs.Serve.Pages
import FileExchange.Proofs.Serve.ShownText

/-!
# Responses read back

What a client gets out of the response for a file: the bytes of a download and their announced number, the
bytes of an image from the page that embeds it, and the characters of a text from the page that shows it.
-/

set_option autoImplicit false

namespace FileExchange

open Text

namespace Response

/-! ## Readers -/

/-- The announced size of a download, as it is written, and the bytes that follow the head. -/
def download? (sent : Bytes) : Option (Bytes × Bytes) := do
  let (head, body) ← splitHead sent
  let size ← fieldValue? "Content-Length" head
  return (size, body)

/-- The image that a page holds in itself. -/
def embeddedImage? (sent : Bytes) : Option Bytes := do
  let (_, body) ← splitHead sent
  let (_, data) ← cutAt (Utf8.encode ";base64,") body
  let (letters, _) ← cutAt (Utf8.encode "\"") data
  Base64.decodeChars? (Utf8.decodeChars letters)

/-- The text between the tags of a page that shows one. -/
def shownText? (references : Markup.References) (sent : Bytes) : Option (List Char) := do
  let (_, body) ← splitHead sent
  let (_, data) ← cutAt (Utf8.encode FileService.textOpening) body
  let (block, _) ← cutAt (Utf8.encode FileService.textClosing) data
  return Markup.unescapeChars references (Utf8.decodeChars block)

/-- What has been sent gives some bytes back in the way in which files of a kind are served. Of a text its
characters come back, with a line feed at their end. -/
structure Returns (references : Markup.References) (kind : Media.Kind) (content sent : Bytes) : Prop where
  text : kind = .text → ∀ text, content = Utf8.encodeChars text → ReturnsEndLines text →
    shownText? references sent = some (FileService.shown text)
  image : kind = .image → embeddedImage? sent = some content
  download : kind = .binary ∨ kind = .unknown →
    download? sent = some (Utf8.encode (toString content.length), content)

end Response

/-! ## Files read back -/

namespace FileService

open Response

theorem download?_attachment (now : Instant) {type fileName serverName : String} (content : Bytes)
    (htype : '\r' ∉ type.toList) (hname : '\r' ∉ fileName.toList) (hserver : '\r' ∉ serverName.toList) :
    download? { attachmentHead now type content.length fileName serverName with body := content }.bytes =
      some (Utf8.encode (toString content.length), content) := by
  have hclean := clean_attachmentHead now content.length content htype hname hserver
  obtain ⟨head, hsplit, hlines⟩ := hclean.splitHead_bytes
  have hsize : fieldValue? "Content-Length" head = some (Utf8.encode (toString content.length)) := by
    rw [hclean.fieldValue?_eq hlines]
    rfl
  rw [download?, hsplit]
  simp [hsize]

theorem splitHead_page (body : Bytes) :
    ∃ head, splitHead { htmlHead .ok with body := body }.bytes = some (head, body) := by
  obtain ⟨head, hsplit, _⟩ := (clean_htmlHead .ok body).splitHead_bytes
  exact ⟨head, hsplit⟩

theorem embeddedImage?_page {type : String} (htype : Media.IsType type) (content : Bytes) :
    embeddedImage? { htmlHead .ok with
      body := (imagePage type content).map fun c : Char => UInt8.ofNat c.toNat }.bytes =
        some content := by
  have hpage : Utf8.encodeChars (imagePage type content) =
      Utf8.encode (pageOpening ++ "<img src=\"data:" ++ type) ++ (Utf8.encode ";base64," ++
        (Utf8.encodeChars (Base64.encodeChars content) ++ (Utf8.encode "\"" ++
          Utf8.encode (" alt=\"Image\" />\r\n" ++ pageClosing)))) := by
    have hclosing : "\" alt=\"Image\" />\r\n" ++ pageClosing =
        "\"" ++ (" alt=\"Image\" />\r\n" ++ pageClosing) := by decide
    rw [imagePage, hclosing, Utf8.encodeChars_append, Utf8.encodeChars_append, ← Utf8.encode,
      ← Utf8.encode, Utf8.encode_append _ ";base64,", Utf8.encode_append "\"", List.append_assoc,
      List.append_assoc]
  have hdata : ∀ rest, cutAt (Utf8.encode ";base64,")
      (Utf8.encode (pageOpening ++ "<img src=\"data:" ++ type) ++ (Utf8.encode ";base64," ++ rest)) =
        some (Utf8.encode (pageOpening ++ "<img src=\"data:" ++ type), rest) := by
    intro rest
    have hfront : ';' ∉ (pageOpening ++ "<img src=\"data:" ++ type).toList :=
      notMem_append (by decide) (htype.notMem (by decide))
    exact cutAt_of_notMem _ (Utf8.notMem_encodeChars (by decide) hfront) rest
  have hletters : ∀ rest, cutAt (Utf8.encode "\"")
      (Utf8.encodeChars (Base64.encodeChars content) ++ (Utf8.encode "\"" ++ rest)) =
        some (Utf8.encodeChars (Base64.encodeChars content), rest) := by
    intro rest
    have hquote := Base64.quote_notMem_encodeChars content
    exact cutAt_of_notMem _ (Utf8.notMem_encodeChars (by decide) hquote) rest
  rw [← Utf8.encodeChars_of_ascii (char_imagePage htype content)]
  obtain ⟨head, hsplit⟩ := splitHead_page (Utf8.encodeChars (imagePage type content))
  rw [embeddedImage?, hsplit, hpage]
  simp [hdata, hletters, Utf8.decodeChars_encodeChars, Base64.decodeChars?_encodeChars]

theorem shownText?_page {references : Markup.References} (hreferences : references.Known)
    {text : List Char} (htext : ReturnsEndLines text) :
    shownText? references { htmlHead .ok with
      body := Utf8.encode (pageOpening ++ textOpening) ++
        ((lines (Utf8.encodeChars text)).flatMap (lineBytes .utf8) ++
          Utf8.encode (textClosing ++ pageClosing)) }.bytes = some (shown text) := by
  have hopening : cutAt (Utf8.encode textOpening) (Utf8.encode (pageOpening ++ textOpening)) =
      some (Utf8.encode pageOpening, []) := by decide +kernel
  have hblock : ∀ rest, cutAt (Utf8.encode textClosing)
      (Utf8.encodeChars (Markup.escapeChars (shown text)) ++ (Utf8.encode textClosing ++ rest)) =
        some (Utf8.encodeChars (Markup.escapeChars (shown text)), rest) := by
    intro rest
    have hless := (Markup.inert_escapeChars (shown text)).less
    exact cutAt_of_notMem _ (Utf8.notMem_encodeChars (by decide) hless) rest
  have hshown : (lines (Utf8.encodeChars text)).flatMap (lineBytes .utf8) =
      Utf8.encodeChars (Markup.escapeChars (shown text)) := by
    rw [flatMap_lineBytes, flatMap_completeLine_lines, Encoding.decodeChars, Utf8.decodeChars_encodeChars,
      (completed_eq_shown_iff text).mpr htext.noLoneReturn]
  rw [hshown, Utf8.encode_append textClosing]
  obtain ⟨head, hsplit⟩ := splitHead_page (Utf8.encode (pageOpening ++ textOpening) ++
    (Utf8.encodeChars (Markup.escapeChars (shown text)) ++
      (Utf8.encode textClosing ++ Utf8.encode pageClosing)))
  rw [shownText?, hsplit]
  simp [cutAt_more hopening, hblock, Utf8.decodeChars_encodeChars,
    Markup.unescapeChars_escapeChars hreferences]

/-! ## All files -/

variable {f : FileService} {p : Path} (now : Instant) (content : Bytes)

theorem clean_response (hplain : ∀ n ∈ p.names, Path.IsPlain n) (hname : '\r' ∉ p.name.toList)
    (hserver : '\r' ∉ f.serverName.toList) : (f.response now p content).Clean := by
  unfold response
  split
  · exact clean_htmlHead .ok _
  · exact clean_htmlHead .ok _
  · rename_i type _ _ hclassify
    have htype := (Media.isType_of_classify hplain hclassify).notMem (c := '\r') (by decide)
    exact clean_attachmentHead now content.length content htype hname hserver

theorem statusLine_response : (f.response now p content).statusLine = "HTTP/1.0 200 OK" := by
  have hversion : (f.response now p content).version = "HTTP/1.0" := by
    unfold response
    split <;> rfl
  rw [statusLine, hversion, status_response]
  decide

/-- The response for a file at a place with plain names gives the content of the file back. -/
theorem returns_response {references : Markup.References} (hencoding : f.encoding = .utf8)
    (hreferences : references.Known) (hplain : ∀ n ∈ p.names, Path.IsPlain n)
    (hname : '\r' ∉ p.name.toList) (hserver : '\r' ∉ f.serverName.toList) :
    Returns references (Media.classify p).1 content (f.response now p content).bytes := by
  cases hclassify : Media.classify p with
  | mk kind type =>
    have htype := Media.isType_of_classify hplain hclassify
    have hreturn : '\r' ∉ type.toList := htype.notMem (by decide)
    refine ⟨?_, ?_, ?_⟩
    · rintro rfl text rfl htext
      simp only [response, hclassify, hencoding]
      exact shownText?_page hreferences htext
    · rintro rfl
      simp only [response, hclassify]
      exact embeddedImage?_page htype content
    · rintro (rfl | rfl)
      · simp only [response, hclassify]
        exact download?_attachment now content hreturn hname hserver
      · simp only [response, hclassify]
        exact download?_attachment now content hreturn hname hserver

end FileService

end FileExchange

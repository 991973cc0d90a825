import FileExchange.Proofs.Serve.Reading

/-!
# Pages of images

The page that embeds an image is ASCII, holds one image and closes its source at the first quote, and the
source gives the bytes of the file back. Neither a type nor base64 has a character that ends an attribute or
begins a tag.
-/

set_option autoImplicit false

namespace FileExchange

namespace FileService

open Text Serving Exchange

/-- The source of the first image on a page. -/
def imageSource? (page : Bytes) : Option Bytes := do
  let (_, data) ← cutAt (Utf8.encode "<img src=\"") page
  let (source, _) ← cutAt (Utf8.encode "\"") data
  return source

/-- A page of ASCII with one image, whose source is a type and the content of a file. -/
structure Embeds (type : String) (content page : Bytes) : Prop where
  ascii : ∀ b ∈ page, b < 0x80
  one : ∃ before after, cutAt (Utf8.encode "<img") page = some (before, after) ∧
    cutAt (Utf8.encode "<img") after = none
  source : ∃ letters, imageSource? page = some (Utf8.encode ("data:" ++ type ++ ";base64,") ++ letters) ∧
    Base64.decodeChars? (Utf8.decodeChars letters) = some content

section Page

variable {type : String} (content : Bytes)

def imageClosing : String := "\" alt=\"Image\" />\r\n" ++ pageClosing

/-- What the page of an image holds between the quotes of its source. -/
def imageSource (type : String) (content : Bytes) : Bytes :=
  Utf8.encode ("data:" ++ type ++ ";base64,") ++ Utf8.encodeChars (Base64.encodeChars content)

/-- The page from its opening through the source of the image to the end. -/
theorem encodeChars_imagePage :
    Utf8.encodeChars (imagePage type content) = Utf8.encode (pageOpening ++ "<img src=\"") ++
      (imageSource type content ++ Utf8.encode imageClosing) := by
  have hfront : pageOpening ++ "<img src=\"data:" ++ type ++ ";base64," =
      (pageOpening ++ "<img src=\"") ++ ("data:" ++ type ++ ";base64,") := by
    have hsource : pageOpening ++ "<img src=\"data:" = pageOpening ++ "<img src=\"" ++ "data:" := by decide
    rw [hsource]
    simp only [String.append_assoc]
  rw [imagePage, hfront, Utf8.encodeChars_append, Utf8.encodeChars_append, ← Utf8.encode, ← Utf8.encode,
    Utf8.encode_append, imageSource, List.append_assoc, List.append_assoc, List.append_assoc]
  rfl

/-- What no type and no base64 holds stands nowhere in the source. -/
theorem notMem_imageSource {c : Char} (hc : c.toNat < 0x80) (hfixed : c ∉ "data:;base64,".toList)
    (htype : c ∉ type.toList) (hletters : c ∉ Base64.encodeChars content) :
    UInt8.ofNat c.toNat ∉ imageSource type content := by
  have hdata : c ∉ "data:".toList := fun hmem => hfixed (List.mem_append_left ";base64,".toList hmem)
  have hbase : c ∉ ";base64,".toList := fun hmem => hfixed (List.mem_append_right "data:".toList hmem)
  rw [imageSource, List.mem_append, not_or]
  exact ⟨Utf8.notMem_encodeChars hc (notMem_append (notMem_append hdata htype) hbase),
    Utf8.notMem_encodeChars hc hletters⟩

theorem quote_notMem_imageSource (htype : type ∈ Media.fixedTypes) : 0x22 ∉ imageSource type content :=
  notMem_imageSource content (c := '"') (by decide) (by decide)
    (Media.quote_notMem_of_mem_fixedTypes htype) (Base64.quote_notMem_encodeChars content)

theorem less_notMem_imageSource (htype : type ∈ Media.fixedTypes) : 0x3C ∉ imageSource type content :=
  notMem_imageSource content (c := '<') (by decide) (by decide)
    (Media.less_notMem_of_mem_fixedTypes htype) (Base64.less_notMem_encodeChars content)

/-- The tag of the image is the only one of its kind: in the source no tag begins, and behind it none is an image. -/
theorem cutAt_imagePage (htype : type ∈ Media.fixedTypes) :
    ∃ after, cutAt (Utf8.encode "<img") (Utf8.encodeChars (imagePage type content)) =
      some (Utf8.encode pageOpening, after) ∧ cutAt (Utf8.encode "<img") after = none := by
  have hopening : cutAt (Utf8.encode "<img") (Utf8.encode (pageOpening ++ "<img src=\"")) =
      some (Utf8.encode pageOpening, Utf8.encode " src=\"") := by decide +kernel
  have hclosing : cutAt (Utf8.encode "<img") (Utf8.encode imageClosing) = none := by decide +kernel
  have hattribute : (0x3C : UInt8) ∉ Utf8.encode " src=\"" := by decide
  have hmark : Utf8.encode "<img" = 0x3C :: Utf8.encode "img" := by decide
  rw [encodeChars_imagePage]
  refine ⟨_, cutAt_more hopening _, ?_⟩
  rw [hmark] at hclosing ⊢
  rw [cutAt_append_of_notMem _ hattribute, cutAt_append_of_notMem _ (less_notMem_imageSource content htype),
    hclosing]
  rfl

/-- The first quote behind the opening one is the one that closes the source. -/
theorem imageSource?_imagePage (htype : type ∈ Media.fixedTypes) :
    imageSource? (Utf8.encodeChars (imagePage type content)) = some (imageSource type content) := by
  have hopening : cutAt (Utf8.encode "<img src=\"") (Utf8.encode (pageOpening ++ "<img src=\"")) =
      some (Utf8.encode pageOpening, []) := by decide +kernel
  have hclosing : Utf8.encode imageClosing =
      Utf8.encode "\"" ++ Utf8.encode (" alt=\"Image\" />\r\n" ++ pageClosing) := by decide +kernel
  have hsource : cutAt (Utf8.encode "\"") (imageSource type content ++ Utf8.encode imageClosing) =
      some (imageSource type content, Utf8.encode (" alt=\"Image\" />\r\n" ++ pageClosing)) := by
    rw [hclosing]
    exact cutAt_of_notMem [] (quote_notMem_imageSource content htype) _
  rw [imageSource?, encodeChars_imagePage, cutAt_more hopening, List.nil_append]
  simp only [Option.bind_eq_bind, Option.bind_some, hsource]
  rfl

theorem embeds_imagePage (htype : type ∈ Media.fixedTypes) :
    Embeds type content ((imagePage type content).map fun c => UInt8.ofNat c.toNat) := by
  have hchars := char_imagePage (Media.isType_of_mem_fixedTypes htype) content
  rw [← Utf8.encodeChars_of_ascii hchars]
  refine ⟨?_, ⟨_, cutAt_imagePage content htype⟩, ?_⟩
  · intro b hb
    rw [Utf8.encodeChars_of_ascii hchars] at hb
    obtain ⟨c, hc, rfl⟩ := List.mem_map.mp hb
    have hlt := hchars c hc
    rw [UInt8.lt_iff_toNat_lt, Utf8.toNat_ofNat (by omega)]
    exact hlt
  · refine ⟨_, imageSource?_imagePage content htype, ?_⟩
    rw [Utf8.decodeChars_encodeChars, Base64.decodeChars?_encodeChars]

end Page

/-- Whatever bytes a file holds, the page of an image is ASCII and embeds just them, and that page is what is
sent to a client that takes it. -/
theorem embeds_of_sendImage {p : Path} {type : String} (hp : '/' ∉ p.name.toList)
    (hclassify : Media.classify p = (.image, type)) (content : Bytes) :
    ∃ page, asciiBytes (imagePage type content) = .ok page ∧ Embeds type content page ∧
      ∀ (x : Exchange) (id : FileId), x.Obliging → x.tree.openFile p = .ok id →
        x.tree.content id = content → ∃ y, sendImage p type x = (.ok (), y) ∧
          y.wire = x.wire ++ ((Response.htmlHead .ok).head ++ page) := by
  have htype := Media.mem_fixedTypes_of_classify hp hclassify
  have hascii := (Media.isType_of_mem_fixedTypes htype).isAscii
  refine ⟨_, asciiBytes_of_isAscii (isAscii_imagePage hascii content), embeds_imagePage content htype, ?_⟩
  rintro x id hx hopen rfl
  obtain ⟨y, hrun, hdelivered⟩ := run_sendImage hx hopen hascii
  exact ⟨y, hrun, hdelivered.wire⟩

def pictureTree : Tree where
  nodes := [(["cat.PNG"], .file 0)]
  contents := #[[0x22, 0x3C, 0xFF, 0x00]]

def picturePath : Path := ⟨.root, ["cat.PNG"]⟩

theorem embeds_picture :
    '/' ∉ picturePath.name.toList ∧ Media.classify picturePath = (.image, "image/png") ∧
      ∃ page y, sendImage picturePath "image/png" (.ofLine pictureTree "") = (.ok (), y) ∧
        y.wire = (Response.htmlHead .ok).head ++ page ∧
        Embeds "image/png" [0x22, 0x3C, 0xFF, 0x00] page := by
  have hp : '/' ∉ picturePath.name.toList := by decide
  have hclassify : Media.classify picturePath = (.image, "image/png") := by decide +kernel
  have hopen : pictureTree.openFile picturePath = .ok 0 := by decide +kernel
  obtain ⟨page, _, hembeds, hsent⟩ := embeds_of_sendImage hp hclassify [0x22, 0x3C, 0xFF, 0x00]
  obtain ⟨y, hrun, hwire⟩ := hsent (.ofLine pictureTree "") 0 ⟨rfl, fun _ _ => rfl⟩ hopen rfl
  exact ⟨hp, hclassify, page, y, hrun, hwire, hembeds⟩

end FileService

end FileExchange

import FileExchange.Media.Type
import FileExchange.Proofs.Path
import FileExchange.Proofs.Text.Base64
import FileExchange.Serve.File

/-!
# Types of files

The type of a file comes from one of the two tables: a name without a slash announces no type of its own.
So a type is printable ASCII, and the page that embeds an image is ASCII, whatever the bytes of the image are.
-/

set_option autoImplicit false

namespace FileExchange

namespace Text

theorem isAscii_of_utf8EncodeChar {c : Char}
    (h : (String.utf8EncodeChar c).all (· < 0x80) = true) : isAscii c = true := by
  by_cases hc : c.val.toNat ≤ 0x7f
  · simp only [isAscii, decide_eq_true_eq, Char.toNat]
    omega
  · exfalso
    have hlt : ∀ n : Nat, (UInt8.ofNat n < 0x80) ↔ n % 256 < 128 := by
      intro n
      simp [UInt8.lt_iff_toNat_lt]
    simp only [String.utf8EncodeChar, if_neg hc] at h
    split at h
    · simp only [List.all_cons, Bool.and_eq_true, decide_eq_true_eq, hlt] at h
      omega
    · split at h
      · simp only [List.all_cons, Bool.and_eq_true, decide_eq_true_eq, hlt] at h
        omega
      · simp only [List.all_cons, Bool.and_eq_true, decide_eq_true_eq, hlt] at h
        omega

theorem all_toByteArray (s : String) (p : UInt8 → Bool) :
    s.toByteArray.data.toList.all p = s.toList.all fun c => (String.utf8EncodeChar c).all p := by
  have hchars : s.toByteArray = (String.ofList s.toList).toByteArray := by rw [String.ofList_toList]
  rw [hchars, String.toByteArray_ofList, List.utf8Encode, List.toList_data_toByteArray,
    List.all_flatMap]

end Text

open Text

namespace Media

/-! ## Characters of types -/

/-- Printable ASCII, and no semicolon: a type carries no parameters. -/
def isTypeByte (b : UInt8) : Bool :=
  0x20 < b && b < 0x7F && b != 0x3B

def IsType (type : String) : Prop :=
  type.toByteArray.data.toList.all isTypeByte = true

theorem IsType.char {type : String} (h : IsType type) {c : Char} (hc : c ∈ type.toList) :
    isAscii c = true ∧ isTypeByte (UInt8.ofNat c.toNat) = true := by
  rw [IsType, all_toByteArray, List.all_eq_true] at h
  have hbytes := h c hc
  have hsmall : (String.utf8EncodeChar c).all (· < 0x80) = true := by
    refine List.all_eq_true.mpr fun b hb => ?_
    have hb' := List.all_eq_true.mp hbytes b hb
    simp only [isTypeByte, Bool.and_eq_true, decide_eq_true_eq, UInt8.lt_iff_toNat_lt,
      UInt8.reduceToNat] at hb' ⊢
    omega
  have hascii := isAscii_of_utf8EncodeChar hsmall
  refine ⟨hascii, ?_⟩
  rw [Utf8.utf8EncodeChar_of_ascii (by simpa [isAscii] using hascii)] at hbytes
  simpa using hbytes

theorem IsType.isAscii {type : String} (h : IsType type) : type.toList.all Text.isAscii = true :=
  List.all_eq_true.mpr fun _ hc => (h.char hc).1

theorem IsType.notMem {type : String} (h : IsType type) {c : Char}
    (hc : isTypeByte (UInt8.ofNat c.toNat) = false) : c ∉ type.toList := by
  intro hmem
  rw [(h.char hmem).2] at hc
  cases hc

/-! ## Types from tables -/

theorem mem_of_lookup {α β : Type} [BEq α] {a : α} {b : β} {table : List (α × β)}
    (h : table.lookup a = some b) : ∃ key, (key, b) ∈ table := by
  induction table with
  | nil => cases h
  | cons entry table ih =>
    obtain ⟨key, value⟩ := entry
    rw [List.lookup_cons] at h
    split at h
    · cases h
      exact ⟨key, List.mem_cons_self⟩
    · obtain ⟨key', hmem⟩ := ih h
      exact ⟨key', List.mem_cons_of_mem _ hmem⟩

/-- The types that the program knows by themselves: of the tables, of a packed data name, and of all else. -/
def fixedTypes : List String :=
  fallbackType :: "text/plain" :: (ownTypes ++ registeredTypes).map Prod.snd

theorem mem_fixedTypes_of_lookup {table : List (String × String)} {key type : String}
    (htable : table ⊆ ownTypes ++ registeredTypes) (h : table.lookup key = some type) :
    type ∈ fixedTypes := by
  obtain ⟨key', hmem⟩ := mem_of_lookup h
  refine List.mem_cons_of_mem _ (List.mem_cons_of_mem _ ?_)
  exact List.mem_map.mpr ⟨(key', type), htable hmem, rfl⟩

theorem isType_of_mem_fixedTypes {type : String} (h : type ∈ fixedTypes) : IsType type := by
  have hbytes : fixedTypes.all (fun type => type.toByteArray.data.toList.all isTypeByte) = true := by
    decide +kernel
  exact List.all_eq_true.mp hbytes type h

/-- An ASCII character that no byte of a type spells stands in no type. -/
theorem notMem_of_mem_fixedTypes {c : Char} (hc : c.toNat < 0x80)
    (hbytes : fixedTypes.all (fun type =>
      type.toByteArray.data.toList.all (· != UInt8.ofNat c.toNat)) = true)
    {type : String} (h : type ∈ fixedTypes) : c ∉ type.toList := by
  intro hmem
  have hspelt := List.all_eq_true.mp hbytes type h
  rw [all_toByteArray] at hspelt
  have hchar := List.all_eq_true.mp hspelt c hmem
  rw [Utf8.utf8EncodeChar_of_ascii hc] at hchar
  simp at hchar

theorem quote_notMem_of_mem_fixedTypes {type : String} (h : type ∈ fixedTypes) : '"' ∉ type.toList :=
  notMem_of_mem_fixedTypes (by decide) (by decide +kernel) h

theorem less_notMem_of_mem_fixedTypes {type : String} (h : type ∈ fixedTypes) : '<' ∉ type.toList :=
  notMem_of_mem_fixedTypes (by decide) (by decide +kernel) h

/-! ## Types from names -/

theorem mem_of_referenceOf {s : List Char} {c : Char} (hc : c ∈ referenceOf s) : c ∈ s :=
  (List.dropWhile_suffix _).subset (List.mem_filter.mp hc).1

theorem mem_of_splitScheme {s scheme rest : List Char} (h : splitScheme s = some (scheme, rest))
    {c : Char} (hc : c ∈ rest) : c ∈ s := by
  unfold splitScheme at h
  dsimp only at h
  split at h
  · rename_i location hdrop
    split at h
    · cases h
      refine mem_of_referenceOf (List.mem_of_mem_drop (i := ?_) ?_)
      · exact ((referenceOf s).takeWhile (· != ':')).length
      · rw [hdrop]
        exact List.mem_cons_of_mem _ (List.takeWhile_subset _ hc)
    · cases h
  · cases h

theorem announcedType_of_notMem {s : List Char} (h : '/' ∉ s) {type : String}
    (htype : announcedType s = some type) : type = "text/plain" := by
  unfold announcedType at htype
  split at htype
  · have hslash : ((s.takeWhile (· != ',')).takeWhile (· != ';')).contains '/' = false := by
      rw [Bool.eq_false_iff]
      intro hmem
      have hmem' : '/' ∈ (s.takeWhile (· != ',')).takeWhile (· != ';') := by simpa using hmem
      exact h ((List.takeWhile_subset _) ((List.takeWhile_subset _) hmem'))
    simp only [hslash, Bool.not_false, Bool.or_true, if_true, Option.some.injEq] at htype
    exact htype.symm
  · cases htype

theorem mem_fixedTypes_of_registeredTypeOf {s : List Char} {type : String}
    (h : registeredTypeOf s = some type) : type ∈ fixedTypes := by
  unfold registeredTypeOf at h
  exact mem_fixedTypes_of_lookup (List.subset_append_right ownTypes registeredTypes) h

/-- The type of a name without slashes is one that is fixed beforehand. -/
theorem mem_fixedTypes_of_guess {name type : String} (hname : '/' ∉ name.toList)
    (h : guess name = some type) : type ∈ fixedTypes := by
  unfold guess at h
  split at h
  · rename_i scheme rest hscheme
    split at h
    · have hrest : '/' ∉ rest := fun hmem => hname (mem_of_splitScheme hscheme hmem)
      rw [announcedType_of_notMem hrest h]
      exact List.mem_cons_of_mem _ List.mem_cons_self
    · exact mem_fixedTypes_of_registeredTypeOf h
  · exact mem_fixedTypes_of_registeredTypeOf h

theorem mem_fixedTypes_of_typeOf? {p : Path} {type : String} (hp : '/' ∉ p.name.toList)
    (h : typeOf? p = some type) : type ∈ fixedTypes := by
  unfold typeOf? at h
  split at h
  · rename_i type' hlookup
    cases h
    exact mem_fixedTypes_of_lookup (List.subset_append_left ownTypes registeredTypes) hlookup
  · exact mem_fixedTypes_of_guess hp h

theorem mem_fixedTypes_of_classify {p : Path} {kind : Kind} {type : String} (hp : '/' ∉ p.name.toList)
    (h : classify p = (kind, type)) : type ∈ fixedTypes := by
  obtain ⟨_, rfl⟩ := Prod.mk.inj h
  cases htype : typeOf? p with
  | none => exact List.mem_cons_self
  | some type => exact mem_fixedTypes_of_typeOf? hp htype

theorem name_notMem {p : Path} (h : ∀ n ∈ p.names, Path.IsPlain n) : '/' ∉ p.name.toList := by
  rw [Path.name, List.getLastD_eq_getLast?]
  cases hlast : p.names.getLast? with
  | none => decide
  | some n => exact (h n (List.mem_of_getLast? hlast)).1.2.2

theorem isType_of_classify {p : Path} {kind : Kind} {type : String}
    (hp : ∀ n ∈ p.names, Path.IsPlain n) (h : classify p = (kind, type)) : IsType type :=
  isType_of_mem_fixedTypes (mem_fixedTypes_of_classify (name_notMem hp) h)

end Media

/-! ## Pages with images -/

theorem Base64.isAscii_letter (n : Nat) : isAscii (letter n) = true := by
  have hletters : ∀ n < 63, isAscii (letter n) = true := by decide
  by_cases h : n < 63
  · exact hletters n h
  · rw [letter_of_le (by omega)]
    rfl

theorem Base64.isAscii_encodeChars (bytes : Bytes) : (encodeChars bytes).all isAscii = true := by
  have hfill : isAscii '=' = true := rfl
  fun_induction encodeChars bytes with
  | case1 => rfl
  | case2 a => simp only [List.all_cons, List.all_nil, isAscii_letter, hfill, Bool.and_self]
  | case3 a b => simp only [List.all_cons, List.all_nil, isAscii_letter, hfill, Bool.and_self]
  | case4 a b c rest ih => simp only [List.all_cons, isAscii_letter, ih, Bool.and_self]

namespace FileService

theorem asciiBytes_of_isAscii {page : List Char} (h : page.all isAscii = true) :
    asciiBytes page = .ok (page.map fun c => UInt8.ofNat c.toNat) := by
  have hfront : page.takeWhile isAscii = page := by
    induction page with
    | nil => rfl
    | cons c page ih =>
      rw [List.all_cons, Bool.and_eq_true] at h
      rw [List.takeWhile_cons_of_pos h.1, ih h.2]
  simp [asciiBytes, hfront]

theorem isAscii_imagePage {type : String} (htype : type.toList.all isAscii = true) (bytes : Bytes) :
    (imagePage type bytes).all isAscii = true := by
  have hopening : pageOpening.toList.all isAscii = true := by decide
  have hsource : "<img src=\"data:".toList.all isAscii = true := by decide
  have hbase : ";base64,".toList.all isAscii = true := by decide
  have hclosing : ("\" alt=\"Image\" />\r\n" ++ pageClosing).toList.all isAscii = true := by decide
  have hfront : (pageOpening ++ "<img src=\"data:" ++ type ++ ";base64,").toList.all isAscii = true := by
    rw [String.toList_append, String.toList_append, String.toList_append, List.all_append,
      List.all_append, List.all_append, hopening, hsource, htype, hbase]
    rfl
  rw [imagePage, List.all_append, List.all_append, hfront, Base64.isAscii_encodeChars, hclosing]
  rfl

theorem char_imagePage {type : String} (htype : Media.IsType type) (bytes : Bytes) :
    ∀ c ∈ imagePage type bytes, c.toNat < 0x80 := by
  intro c hc
  simpa [isAscii] using List.all_eq_true.mp (isAscii_imagePage htype.isAscii bytes) c hc

end FileService

end FileExchange

import FileExchange.Proofs.Text.Utf8
import FileExchange.Proofs.Text.Words
import FileExchange.Text.Percent
import Mathlib.Data.List.SplitBy

/-!
# Percent encoding there and back

An encoded text is ASCII without blanks and question marks, so that it is one run, one word, and all of it
path; reading the run gives the bytes of the text.
-/

set_option autoImplicit false

namespace FileExchange.Percent

open Text

theorem encode_append (a b : String) : encode (a ++ b) = encode a ++ encode b := by
  rw [encode, encode, encode, encodeChars, encodeChars, encodeChars, String.toList_append,
    Utf8.encodeChars_append, List.flatMap_append, String.ofList_append]

/-! ## Characters that encoding writes -/

/-- A character that stands in the path of a target and nowhere ends it. -/
def isSolid (c : Char) : Bool :=
  isAscii c && c != '?' && !isBlank c

theorem isSolid_encodeByte (b : UInt8) : (encodeByte b).all isSolid = true := by
  have hall : ∀ n < 256, (encodeByte (UInt8.ofNat n)).all isSolid = true := by decide +kernel
  have hb := hall b.toNat b.toNat_lt
  rwa [UInt8.ofNat_toNat] at hb

theorem isSolid_of_mem_encodeChars {s : List Char} {c : Char} (h : c ∈ encodeChars s) :
    isAscii c = true ∧ c ≠ '?' ∧ isBlank c = false := by
  obtain ⟨b, _, hc⟩ := List.mem_flatMap.mp h
  have hsolid := List.all_eq_true.mp (isSolid_encodeByte b) c hc
  simp only [isSolid, Bool.and_eq_true, bne_iff_ne, Bool.not_eq_true'] at hsolid
  exact ⟨hsolid.1.1, hsolid.1.2, hsolid.2⟩

theorem quote_notMem_encodeChars (s : List Char) : '"' ∉ encodeChars s := by
  intro hmem
  obtain ⟨b, _, hc⟩ := List.mem_flatMap.mp hmem
  have hall : ∀ n < 256, '"' ∉ encodeByte (UInt8.ofNat n) := by decide +kernel
  have hb := hall b.toNat b.toNat_lt
  rw [UInt8.ofNat_toNat] at hb
  exact hb hc

/-! ## Reading one byte -/

theorem hexValue?_upperHexDigit : ∀ n < 16, hexValue? (upperHexDigit n) = some n := by decide

theorem unescapeOnto_escape (out : Bytes) (rest : List Char) {x y : Nat} (hx : x < 16) (hy : y < 16) :
    unescapeOnto out ('%' :: upperHexDigit x :: upperHexDigit y :: rest) =
      unescapeOnto (UInt8.ofNat (x * 16 + y) :: out) rest := by
  rw [unescapeOnto, hexValue?_upperHexDigit x hx, hexValue?_upperHexDigit y hy]

theorem unescapeOnto_plain (out : Bytes) (rest : List Char) {c : Char} (hc : c ≠ '%') :
    unescapeOnto out (c :: rest) = unescapeOnto (UInt8.ofNat c.toNat :: out) rest := by
  rw [unescapeOnto]
  rintro a b rest' rfl
  exact absurd rfl hc

/-- A byte that stands for itself is not the one that starts an escape. -/
theorem char_of_isSafe (b : UInt8) (h : isSafe b = true) :
    Char.ofNat b.toNat ≠ '%' ∧ UInt8.ofNat (Char.ofNat b.toNat).toNat = b := by
  have hall : ∀ n < 256, isSafe (UInt8.ofNat n) = true →
      Char.ofNat (UInt8.ofNat n).toNat ≠ '%' ∧
        UInt8.ofNat (Char.ofNat (UInt8.ofNat n).toNat).toNat = UInt8.ofNat n := by decide +kernel
  have hb := hall b.toNat b.toNat_lt
  rw [UInt8.ofNat_toNat] at hb
  exact hb h

theorem unescapeOnto_encodeByte (out : Bytes) (b : UInt8) (rest : List Char) :
    unescapeOnto out (encodeByte b ++ rest) = unescapeOnto (b :: out) rest := by
  unfold encodeByte
  split
  · rename_i hsafe
    obtain ⟨hne, hbyte⟩ := char_of_isSafe b hsafe
    rw [List.singleton_append, unescapeOnto_plain out rest hne, hbyte]
  · have hlt := b.toNat_lt
    have hdigits : b.toNat / 16 * 16 + b.toNat % 16 = b.toNat := by omega
    rw [List.cons_append, List.cons_append, List.singleton_append,
      unescapeOnto_escape out rest (by omega) (by omega), hdigits, UInt8.ofNat_toNat]

/-! ## Reading a text -/

theorem unescapeOnto_flatMap (out bytes : Bytes) :
    unescapeOnto out (bytes.flatMap encodeByte) = bytes.reverse ++ out := by
  induction bytes generalizing out with
  | nil => rfl
  | cons b bytes ih =>
    rw [List.flatMap_cons, unescapeOnto_encodeByte, ih, List.reverse_cons, List.append_assoc,
      List.singleton_append]

theorem unescape_encodeChars (s : List Char) : unescape (encodeChars s) = Utf8.encodeChars s := by
  rw [unescape, encodeChars, unescapeOnto_flatMap, List.append_nil, List.reverse_reverse]

/-- A text that is all ASCII is one run. -/
theorem decodeChars_of_isAscii {s : List Char} (h : ∀ c ∈ s, isAscii c = true) :
    decodeChars s = Utf8.decodeChars (unescape s) := by
  cases s with
  | nil => rfl
  | cons c s =>
    have hchain : (c :: s).IsChain fun a b => (isAscii a == isAscii b) = true := by
      refine List.Pairwise.isChain (List.pairwise_of_forall_mem_list fun a ha b hb => ?_)
      rw [h a ha, h b hb]
      rfl
    have hall : (c :: s).all isAscii = true := List.all_eq_true.mpr h
    rw [decodeChars, runs, List.splitBy_of_isChain (by simp) hchain, List.flatMap_singleton, decodeRun,
      if_pos hall]

theorem decodeChars_encodeChars (s : List Char) : decodeChars (encodeChars s) = s := by
  have hascii : ∀ c ∈ encodeChars s, isAscii c = true := fun c hc => (isSolid_of_mem_encodeChars hc).1
  rw [decodeChars_of_isAscii hascii, unescape_encodeChars, Utf8.decodeChars_encodeChars]

end FileExchange.Percent

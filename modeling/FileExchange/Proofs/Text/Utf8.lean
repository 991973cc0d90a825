import FileExchange.Text.Utf8

/-!
# UTF-8 there and back

The bytes of a text are decoded to the text. The decoder takes the bytes of a character one at a time, so
there is one step lemma for a first byte and one for a byte that continues.
-/

set_option autoImplicit false

namespace FileExchange.Utf8

theorem encodeChars_cons (c : Char) (s : List Char) :
    encodeChars (c :: s) = String.utf8EncodeChar c ++ encodeChars s := rfl

theorem encodeChars_append (a b : List Char) :
    encodeChars (a ++ b) = encodeChars a ++ encodeChars b := by
  simp [encodeChars]

theorem encode_append (a b : String) : encode (a ++ b) = encode a ++ encode b := by
  rw [encode, String.toList_append, encodeChars_append]
  rfl

theorem encode_join (texts : List String) : encode (String.join texts) = texts.flatMap encode := by
  induction texts with
  | nil => rfl
  | cons a texts ih => rw [String.join_cons, encode_append, ih, List.flatMap_cons]

/-! ## Steps of the decoder -/

/-- What the number of a first byte decides. -/
theorem start_eq (out : List Char) (b : UInt8) :
    Decoder.start out b =
      if b.toNat < 0x80 then ⟨Char.ofNat b.toNat :: out, .between⟩
      else if b.toNat < 0xC2 then ⟨replacement :: out, .between⟩
      else if b.toNat < 0xE0 then ⟨out, .within 1 0x80 0xBF (b.toNat - 0xC0)⟩
      else if b.toNat = 0xE0 then ⟨out, .within 2 0xA0 0xBF 0⟩
      else if b.toNat = 0xED then ⟨out, .within 2 0x80 0x9F 0xD⟩
      else if b.toNat < 0xF0 then ⟨out, .within 2 0x80 0xBF (b.toNat - 0xE0)⟩
      else if b.toNat = 0xF0 then ⟨out, .within 3 0x90 0xBF 0⟩
      else if b.toNat < 0xF4 then ⟨out, .within 3 0x80 0xBF (b.toNat - 0xF0)⟩
      else if b.toNat = 0xF4 then ⟨out, .within 3 0x80 0x8F 4⟩
      else ⟨replacement :: out, .between⟩ := by
  simp only [Decoder.start, UInt8.lt_iff_toNat_lt, beq_iff_eq, ← UInt8.toNat_inj]
  rfl

theorem toNat_ofNat {n : Nat} (hn : n < 256) : (UInt8.ofNat n).toNat = n :=
  UInt8.toNat_ofNat_of_lt' hn

/-- A byte in range that others follow. -/
theorem step_within {owed n : Nat} {low high : UInt8} (value : Nat) (out : List Char)
    (howed : 2 ≤ owed) (hn : n < 256) (hbounds : low.toNat ≤ n ∧ n ≤ high.toNat) :
    Decoder.step ⟨out, .within owed low high value⟩ (UInt8.ofNat n) =
      ⟨out, .within (owed - 1) 0x80 0xBF (value * 64 + (n - 0x80))⟩ := by
  have hrange : (decide (low ≤ UInt8.ofNat n) && decide (UInt8.ofNat n ≤ high)) = true := by
    simp only [UInt8.le_iff_toNat_le, toNat_ofNat hn, Bool.and_eq_true, decide_eq_true_eq]
    exact hbounds
  rw [Decoder.step]
  dsimp only
  rw [if_pos hrange, if_neg (by omega), toNat_ofNat hn]

/-- The last byte of a sequence makes it a character. -/
theorem step_last {n : Nat} {low high : UInt8} (value : Nat) (out : List Char) (hn : n < 256)
    (hbounds : low.toNat ≤ n ∧ n ≤ high.toNat) :
    Decoder.step ⟨out, .within 1 low high value⟩ (UInt8.ofNat n) =
      ⟨Char.ofNat (value * 64 + (n - 0x80)) :: out, .between⟩ := by
  have hrange : (decide (low ≤ UInt8.ofNat n) && decide (UInt8.ofNat n ≤ high)) = true := by
    simp only [UInt8.le_iff_toNat_le, toNat_ofNat hn, Bool.and_eq_true, decide_eq_true_eq]
    exact hbounds
  rw [Decoder.step]
  dsimp only
  rw [if_pos hrange, if_pos (by omega), toNat_ofNat hn]

/-! ## Whole characters -/

theorem toNat_valid (c : Char) : c.toNat < 0xD800 ∨ 0xDFFF < c.toNat ∧ c.toNat < 0x110000 :=
  c.valid

theorem utf8EncodeChar_eq (c : Char) :
    String.utf8EncodeChar c =
      if c.toNat ≤ 0x7F then [UInt8.ofNat c.toNat]
      else if c.toNat ≤ 0x7FF then
        [UInt8.ofNat (c.toNat / 64 % 32 + 192), UInt8.ofNat (c.toNat % 64 + 128)]
      else if c.toNat ≤ 0xFFFF then
        [UInt8.ofNat (c.toNat / 4096 % 16 + 224), UInt8.ofNat (c.toNat / 64 % 64 + 128),
          UInt8.ofNat (c.toNat % 64 + 128)]
      else
        [UInt8.ofNat (c.toNat / 262144 % 8 + 240), UInt8.ofNat (c.toNat / 4096 % 64 + 128),
          UInt8.ofNat (c.toNat / 64 % 64 + 128), UInt8.ofNat (c.toNat % 64 + 128)] := rfl

theorem utf8EncodeChar_of_ascii {c : Char} (h : c.toNat < 0x80) :
    String.utf8EncodeChar c = [UInt8.ofNat c.toNat] := by
  rw [utf8EncodeChar_eq, if_pos (by omega)]

/-- Every byte of a character outside ASCII is outside ASCII too. -/
theorem le_of_mem_utf8EncodeChar {c : Char} {b : UInt8} (hc : 0x80 ≤ c.toNat)
    (hb : b ∈ String.utf8EncodeChar c) : 0x80 ≤ b.toNat := by
  have hhigh : ∀ n, 0x80 ≤ n % 256 → b = UInt8.ofNat n → 0x80 ≤ b.toNat := by
    rintro n hn rfl
    rwa [UInt8.toNat_ofNat']
  rw [utf8EncodeChar_eq, if_neg (by omega)] at hb
  split at hb
  · simp only [List.mem_cons, List.not_mem_nil, or_false] at hb
    rcases hb with hb | hb <;> exact hhigh _ (by omega) hb
  · split at hb
    · simp only [List.mem_cons, List.not_mem_nil, or_false] at hb
      rcases hb with hb | hb | hb <;> exact hhigh _ (by omega) hb
    · simp only [List.mem_cons, List.not_mem_nil, or_false] at hb
      rcases hb with hb | hb | hb | hb <;> exact hhigh _ (by omega) hb

/-- A byte of ASCII in the bytes of a text is a character of the text. -/
theorem mem_of_mem_encodeChars {s : List Char} {b : UInt8} (hb : b.toNat < 0x80)
    (h : b ∈ encodeChars s) : Char.ofNat b.toNat ∈ s := by
  obtain ⟨c, hc, hbytes⟩ := List.mem_flatMap.mp h
  have hascii : c.toNat < 0x80 := by
    rcases Nat.lt_or_ge c.toNat 0x80 with hsmall | hlarge
    · exact hsmall
    · have hbyte := le_of_mem_utf8EncodeChar hlarge hbytes
      omega
  rw [utf8EncodeChar_of_ascii hascii, List.mem_singleton] at hbytes
  rw [hbytes, toNat_ofNat (by omega), Char.ofNat_toNat]
  exact hc

/-- A character of ASCII that a text does not hold is no byte of it either. -/
theorem notMem_encodeChars {s : List Char} {c : Char} (hc : c.toNat < 0x80) (h : c ∉ s) :
    UInt8.ofNat c.toNat ∉ encodeChars s := by
  have hbyte : (UInt8.ofNat c.toNat).toNat = c.toNat := toNat_ofNat (by omega)
  intro hmem
  have hchar := mem_of_mem_encodeChars (by rwa [hbyte]) hmem
  rw [hbyte, Char.ofNat_toNat] at hchar
  exact h hchar

theorem encodeChars_of_ascii {s : List Char} (h : ∀ c ∈ s, c.toNat < 0x80) :
    encodeChars s = s.map fun c => UInt8.ofNat c.toNat := by
  induction s with
  | nil => rfl
  | cons c s ih =>
    rw [encodeChars_cons, utf8EncodeChar_of_ascii (h c List.mem_cons_self),
      ih fun d hd => h d (List.mem_cons_of_mem c hd)]
    rfl

section Sequences

variable (out : List Char) (c : Char)

/-- The six bits that a continuing byte carries complete the number of the character. -/
theorem step_tail {value : Nat} (hvalue : value = c.toNat / 64) :
    Decoder.step ⟨out, .within 1 0x80 0xBF value⟩ (UInt8.ofNat (c.toNat % 64 + 128)) =
      ⟨c :: out, .between⟩ := by
  have hbits : value * 64 + (c.toNat % 64 + 128 - 128) = c.toNat := by omega
  rw [step_last value out (by omega), hbits, Char.ofNat_toNat]
  simp only [UInt8.reduceToNat]
  omega

theorem foldl_two (h : 0x7F < c.toNat) (h' : c.toNat ≤ 0x7FF) :
    [UInt8.ofNat (c.toNat / 64 % 32 + 192), UInt8.ofNat (c.toNat % 64 + 128)].foldl Decoder.step
      ⟨out, .between⟩ = ⟨c :: out, .between⟩ := by
  have hstart : Decoder.start out (UInt8.ofNat (c.toNat / 64 % 32 + 192)) =
      ⟨out, .within 1 0x80 0xBF (c.toNat / 64 % 32 + 192 - 0xC0)⟩ := by
    rw [start_eq, toNat_ofNat (by omega), if_neg (by omega), if_neg (by omega), if_pos (by omega)]
  rw [List.foldl_cons, Decoder.step, hstart, List.foldl_cons, step_tail out c (by omega),
    List.foldl_nil]

/-- The second byte of three; the first one has told in which range it lies. -/
theorem step_second_of_three (h : 0x7FF < c.toNat) (h' : c.toNat ≤ 0xFFFF) :
    Decoder.step (Decoder.start out (UInt8.ofNat (c.toNat / 4096 % 16 + 224)))
        (UInt8.ofNat (c.toNat / 64 % 64 + 128)) =
      ⟨out, .within 1 0x80 0xBF (c.toNat / 64)⟩ := by
  have hvalid := toNat_valid c
  have hvalue : ∀ value, value = c.toNat / 4096 →
      value * 64 + (c.toNat / 64 % 64 + 128 - 0x80) = c.toNat / 64 := by omega
  rw [start_eq, toNat_ofNat (by omega), if_neg (by omega), if_neg (by omega), if_neg (by omega)]
  split
  · rw [step_within 0 out (by omega) (by omega), hvalue 0 (by omega)]
    simp only [UInt8.reduceToNat]
    omega
  · split
    · rw [step_within 0xD out (by omega) (by omega), hvalue 0xD (by omega)]
      simp only [UInt8.reduceToNat]
      omega
    · rw [if_pos (by omega), step_within _ out (by omega) (by omega), hvalue _ (by omega)]
      simp only [UInt8.reduceToNat]
      omega

theorem step_second_of_four (h : 0xFFFF < c.toNat) :
    Decoder.step (Decoder.start out (UInt8.ofNat (c.toNat / 262144 % 8 + 240)))
        (UInt8.ofNat (c.toNat / 4096 % 64 + 128)) =
      ⟨out, .within 2 0x80 0xBF (c.toNat / 4096)⟩ := by
  have hvalid := toNat_valid c
  have hvalue : ∀ value, value = c.toNat / 262144 →
      value * 64 + (c.toNat / 4096 % 64 + 128 - 0x80) = c.toNat / 4096 := by omega
  rw [start_eq, toNat_ofNat (by omega), if_neg (by omega), if_neg (by omega), if_neg (by omega),
    if_neg (by omega), if_neg (by omega), if_neg (by omega)]
  split
  · rw [step_within 0 out (by omega) (by omega), hvalue 0 (by omega)]
    simp only [UInt8.reduceToNat]
    omega
  · split
    · rw [step_within _ out (by omega) (by omega), hvalue _ (by omega)]
      simp only [UInt8.reduceToNat]
      omega
    · rw [if_pos (by omega), step_within 4 out (by omega) (by omega), hvalue 4 (by omega)]
      simp only [UInt8.reduceToNat]
      omega

theorem foldl_utf8EncodeChar :
    (String.utf8EncodeChar c).foldl Decoder.step ⟨out, .between⟩ = ⟨c :: out, .between⟩ := by
  rw [utf8EncodeChar_eq]
  split
  · rw [List.foldl_cons, List.foldl_nil, Decoder.step, start_eq, toNat_ofNat (by omega),
      if_pos (by omega), Char.ofNat_toNat]
  · split
    · exact foldl_two out c (by omega) (by omega)
    · split
      · rw [List.foldl_cons, Decoder.step, List.foldl_cons, step_second_of_three out c (by omega)
          (by omega), List.foldl_cons, step_tail out c rfl, List.foldl_nil]
      · have hbits : c.toNat / 4096 * 64 + (c.toNat / 64 % 64 + 128 - 0x80) = c.toNat / 64 := by omega
        rw [List.foldl_cons, Decoder.step, List.foldl_cons, step_second_of_four out c (by omega),
          List.foldl_cons, step_within _ out (by omega) (by omega), hbits, List.foldl_cons,
          step_tail out c rfl, List.foldl_nil]
        simp only [UInt8.reduceToNat]
        omega

end Sequences

/-! ## Whole texts -/

theorem foldl_encodeChars (s out : List Char) :
    (encodeChars s).foldl Decoder.step ⟨out, .between⟩ = ⟨s.reverse ++ out, .between⟩ := by
  induction s generalizing out with
  | nil => rfl
  | cons c s ih =>
    rw [encodeChars_cons, List.foldl_append, foldl_utf8EncodeChar, ih, List.reverse_cons,
      List.append_assoc]
    rfl

theorem decodeChars_encodeChars (s : List Char) : decodeChars (encodeChars s) = s := by
  rw [decodeChars, foldl_encodeChars, List.append_nil]
  exact List.reverse_reverse s

theorem decode_encode (s : String) : decode (encode s) = s := by
  rw [decode, encode, decodeChars_encodeChars, String.ofList_toList]

theorem encode_injective {a b : String} (h : encode a = encode b) : a = b := by
  rw [← decode_encode a, ← decode_encode b, h]

end FileExchange.Utf8

import FileExchange.Proofs.Text.Utf8
import FileExchange.Text.Encoding
import Mathlib.Algebra.GroupWithZero.Nat
import Mathlib.Tactic.SplitIfs

/-!
# Decoding around bytes of ASCII

A byte of ASCII ends every sequence that is under way and starts none, so that the bytes in front of it and those
behind it are decoded apart, and no other byte is read as its character.
-/

set_option autoImplicit false

namespace FileExchange

namespace Utf8

variable {d : Decoder} {b : UInt8} {c : Char}

/-! ## Sequences under way -/

/-- No byte of ASCII continues the sequence under way, and no character of ASCII can come out of it. -/
def Decoder.Proper (d : Decoder) : Prop :=
  ∀ owed low high value, d.progress = .within owed low high value →
    0x80 ≤ low.toNat ∧ 0x80 ≤ (value * 64 + (low.toNat - 0x80)) * 64 ^ (owed - 1)

theorem proper_between (out : List Char) : Decoder.Proper ⟨out, .between⟩ := by
  intro owed low high value h
  cases h

theorem proper_within {out : List Char} {owed value : Nat} {low high : UInt8} (hlow : 0x80 ≤ low.toNat)
    (hvalue : 0x80 ≤ (value * 64 + (low.toNat - 0x80)) * 64 ^ (owed - 1)) :
    Decoder.Proper ⟨out, .within owed low high value⟩ := by
  intro owed' low' high' value' h
  cases h
  exact ⟨hlow, hvalue⟩

/-- Where any byte that is outside ASCII may continue, the value so far counts. -/
theorem proper_open {out : List Char} {owed value : Nat} {high : UInt8} (h : 2 ≤ value * 64 ^ (owed - 1)) :
    Decoder.Proper ⟨out, .within owed 0x80 high value⟩ := by
  refine proper_within (by decide) ?_
  have hlow : value * 64 + ((0x80 : UInt8).toNat - 0x80) = value * 64 := rfl
  rw [hlow, Nat.mul_right_comm]
  omega

/-- What a first byte does, whatever came before it. -/
inductive FirstByte (b : UInt8) : Prop
  | ascii (hb : b.toNat < 0x80)
      (hstart : ∀ out, Decoder.start out b = ⟨Char.ofNat b.toNat :: out, .between⟩)
  | stray (hb : 0x80 ≤ b.toNat) (hstart : ∀ out, Decoder.start out b = ⟨replacement :: out, .between⟩)
  | lead (owed value : Nat) (low high : UInt8) (hb : 0x80 ≤ b.toNat)
      (hproper : ∀ out, Decoder.Proper ⟨out, .within owed low high value⟩)
      (hstart : ∀ out, Decoder.start out b = ⟨out, .within owed low high value⟩)

theorem firstByte (b : UInt8) : FirstByte b := by
  have hstart := fun out => start_eq out b
  by_cases hascii : b.toNat < 0x80
  · simp only [if_pos hascii] at hstart
    exact .ascii hascii hstart
  have hb : 0x80 ≤ b.toNat := Nat.le_of_not_lt hascii
  simp only [if_neg hascii] at hstart
  by_cases hstray : b.toNat < 0xC2
  · simp only [if_pos hstray] at hstart
    exact .stray hb hstart
  simp only [if_neg hstray] at hstart
  by_cases htwo : b.toNat < 0xE0
  · simp only [if_pos htwo] at hstart
    exact .lead _ _ _ _ hb (fun _ => proper_open (by omega)) hstart
  simp only [if_neg htwo] at hstart
  by_cases hthreeLow : b.toNat = 0xE0
  · simp only [if_pos hthreeLow] at hstart
    exact .lead _ _ _ _ hb (fun _ => proper_within (by decide) (by decide)) hstart
  simp only [if_neg hthreeLow] at hstart
  by_cases hthreeHigh : b.toNat = 0xED
  · simp only [if_pos hthreeHigh] at hstart
    exact .lead _ _ _ _ hb (fun _ => proper_within (by decide) (by decide)) hstart
  simp only [if_neg hthreeHigh] at hstart
  by_cases hthree : b.toNat < 0xF0
  · simp only [if_pos hthree] at hstart
    exact .lead _ _ _ _ hb (fun _ => proper_open (by omega)) hstart
  simp only [if_neg hthree] at hstart
  by_cases hfourLow : b.toNat = 0xF0
  · simp only [if_pos hfourLow] at hstart
    exact .lead _ _ _ _ hb (fun _ => proper_within (by decide) (by decide)) hstart
  simp only [if_neg hfourLow] at hstart
  by_cases hfour : b.toNat < 0xF4
  · simp only [if_pos hfour] at hstart
    exact .lead _ _ _ _ hb (fun _ => proper_open (by omega)) hstart
  simp only [if_neg hfour] at hstart
  by_cases hfourHigh : b.toNat = 0xF4
  · simp only [if_pos hfourHigh] at hstart
    exact .lead _ _ _ _ hb (fun _ => proper_within (by decide) (by decide)) hstart
  · simp only [if_neg hfourHigh] at hstart
    exact .stray hb hstart

theorem proper_start (out : List Char) (b : UInt8) : (Decoder.start out b).Proper := by
  cases firstByte b with
  | ascii _ hstart => exact hstart out ▸ proper_between _
  | stray _ hstart => exact hstart out ▸ proper_between _
  | lead _ _ _ _ _ hproper hstart => exact hstart out ▸ hproper out

/-- What a step does to a sequence under way. -/
theorem step_within_cases (out : List Char) (owed value : Nat) (low high b : UInt8) :
    (low.toNat ≤ b.toNat ∧ owed ≤ 1 ∧ Decoder.step ⟨out, .within owed low high value⟩ b =
        ⟨Char.ofNat (value * 64 + (b.toNat - 0x80)) :: out, .between⟩) ∨
      (low.toNat ≤ b.toNat ∧ 2 ≤ owed ∧ Decoder.step ⟨out, .within owed low high value⟩ b =
        ⟨out, .within (owed - 1) 0x80 0xBF (value * 64 + (b.toNat - 0x80))⟩) ∨
      Decoder.step ⟨out, .within owed low high value⟩ b = Decoder.start (replacement :: out) b := by
  unfold Decoder.step
  dsimp only
  split_ifs with hrange howed
  · simp only [Bool.and_eq_true, decide_eq_true_eq, UInt8.le_iff_toNat_le] at hrange
    exact Or.inl ⟨hrange.1, howed, rfl⟩
  · simp only [Bool.and_eq_true, decide_eq_true_eq, UInt8.le_iff_toNat_le] at hrange
    exact Or.inr (Or.inl ⟨hrange.1, by omega, rfl⟩)
  · exact Or.inr (Or.inr rfl)

theorem Decoder.Proper.step (h : d.Proper) (b : UInt8) : (d.step b).Proper := by
  obtain ⟨out, progress⟩ := d
  cases progress with
  | between => exact proper_start out b
  | within owed low high value =>
    obtain ⟨hlow, hvalue⟩ := h owed low high value rfl
    rcases step_within_cases out owed value low high b with ⟨_, _, hb⟩ | ⟨hle, howed, hb⟩ | hb
    · exact hb ▸ proper_between _
    · -- The bits of this byte are at least those that the range asks for.
      obtain ⟨more, rfl⟩ : ∃ more, owed = more + 2 := ⟨owed - 2, by omega⟩
      have hbits : value * 64 + (low.toNat - 0x80) ≤ value * 64 + (b.toNat - 0x80) := by omega
      have hlarge : 0x80 ≤ (value * 64 + (b.toNat - 0x80)) * 64 ^ (more + 1) :=
        Nat.le_trans hvalue (Nat.mul_le_mul_right _ hbits)
      rw [Nat.pow_succ, ← Nat.mul_assoc] at hlarge
      have hopen : 2 ≤ (value * 64 + (b.toNat - 0x80)) * 64 ^ (more + 2 - 1 - 1) := by
        change 2 ≤ (value * 64 + (b.toNat - 0x80)) * 64 ^ more
        omega
      exact hb ▸ proper_open hopen
    · exact hb ▸ proper_start _ b

theorem Decoder.Proper.foldl (h : d.Proper) (bytes : Bytes) : (bytes.foldl Decoder.step d).Proper := by
  induction bytes generalizing d with
  | nil => exact h
  | cons b bytes ih => exact ih (h.step b)

/-! ## The characters so far -/

/-- The same decoder with more characters in front of those decoded so far. -/
def Decoder.after (d : Decoder) (before : List Char) : Decoder :=
  { d with out := d.out ++ before }

theorem after_start (out before : List Char) (b : UInt8) :
    (Decoder.start out b).after before = Decoder.start (out ++ before) b := by
  cases firstByte b with
  | ascii _ hstart => rw [hstart, hstart, Decoder.after, List.cons_append]
  | stray _ hstart => rw [hstart, hstart, Decoder.after, List.cons_append]
  | lead _ _ _ _ _ _ hstart => rw [hstart, hstart, Decoder.after]

theorem after_step (d : Decoder) (before : List Char) (b : UInt8) :
    (d.after before).step b = (d.step b).after before := by
  obtain ⟨out, progress⟩ := d
  cases progress with
  | between => exact (after_start out before b).symm
  | within owed low high value =>
    unfold Decoder.after Decoder.step
    dsimp only
    split_ifs
    · rfl
    · rfl
    · exact (after_start (replacement :: out) before b).symm

theorem after_foldl (d : Decoder) (before : List Char) (bytes : Bytes) :
    bytes.foldl Decoder.step (d.after before) = (bytes.foldl Decoder.step d).after before := by
  induction bytes generalizing d with
  | nil => rfl
  | cons b bytes ih => rw [List.foldl_cons, after_step, ih, List.foldl_cons]

theorem after_finish (d : Decoder) (before : List Char) :
    (d.after before).finish = before.reverse ++ d.finish := by
  obtain ⟨out, progress⟩ := d
  cases progress <;> simp [Decoder.after, Decoder.finish]

/-! ## Bytes of ASCII -/

theorem start_of_ascii (hb : b.toNat < 0x80) (out : List Char) :
    Decoder.start out b = ⟨Char.ofNat b.toNat :: out, .between⟩ := by
  rw [start_eq, if_pos hb]

/-- The sequence under way is given up, and the byte is a character of its own. -/
theorem step_of_ascii (h : d.Proper) (hb : b.toNat < 0x80) :
    d.step b = (⟨[], .between⟩ : Decoder).after (Char.ofNat b.toNat :: d.finish.reverse) := by
  obtain ⟨out, progress⟩ := d
  cases progress with
  | between => simp [Decoder.step, start_of_ascii hb, Decoder.after, Decoder.finish]
  | within owed low high value =>
    have hlow := (h owed low high value rfl).1
    rcases step_within_cases out owed value low high b with ⟨hle, _⟩ | ⟨hle, _⟩ | hstep
    · omega
    · omega
    · simp [hstep, start_of_ascii hb, Decoder.after, Decoder.finish]

/-- The bytes in front of a byte of ASCII and those behind it are decoded apart. -/
theorem decodeChars_ascii (front : Bytes) (hb : b.toNat < 0x80) (back : Bytes) :
    decodeChars (front ++ b :: back) = decodeChars front ++ Char.ofNat b.toNat :: decodeChars back := by
  have hproper : (front.foldl Decoder.step ⟨[], .between⟩).Proper := (proper_between []).foldl front
  rw [decodeChars, List.foldl_append, List.foldl_cons, step_of_ascii hproper hb, after_foldl, after_finish,
    List.reverse_cons, List.reverse_reverse, List.append_assoc]
  rfl

/-! ## Characters of ASCII -/

theorem toNat_char {n : Nat} (h : n.isValidChar) : (Char.ofNat n).toNat = n := by
  rw [Char.ofNat, dif_pos h]
  rfl

theorem ofNat_ne_of_ascii {n : Nat} (hn : 0x80 ≤ n) (hc : c.toNat < 0x80) (hnul : c ≠ '\x00') :
    c ≠ Char.ofNat n := by
  rintro rfl
  by_cases hvalid : n.isValidChar
  · rw [toNat_char hvalid] at hc
    omega
  · refine hnul ?_
    rw [Char.ofNat, dif_neg hvalid]
    rfl

theorem ne_replacement (hc : c.toNat < 0x80) : c ≠ replacement := by
  rintro rfl
  exact absurd hc (by decide)

theorem out_start (hb : 0x80 ≤ b.toNat) (out : List Char) :
    (Decoder.start out b).out = out ∨ (Decoder.start out b).out = replacement :: out := by
  cases firstByte b with
  | ascii hascii _ => omega
  | stray _ hstart => exact Or.inr (by rw [hstart])
  | lead _ _ _ _ _ _ hstart => exact Or.inl (by rw [hstart])

theorem mem_start (hc : c.toNat < 0x80) {out : List Char} (h : c ∈ (Decoder.start out b).out) :
    c ∈ out ∨ b = UInt8.ofNat c.toNat := by
  by_cases hb : b.toNat < 0x80
  · rw [start_of_ascii hb] at h
    rcases List.mem_cons.mp h with rfl | hmem
    · rw [toNat_char (Or.inl (by omega)), UInt8.ofNat_toNat]
      exact Or.inr rfl
    · exact Or.inl hmem
  · have hhigh : 0x80 ≤ b.toNat := by omega
    rcases out_start hhigh out with hout | hout
    · exact Or.inl (hout ▸ h)
    · rw [hout] at h
      exact Or.inl (List.mem_of_ne_of_mem (ne_replacement hc) h)

/-- A step puts out a character of ASCII only for its own byte. -/
theorem mem_step (hd : d.Proper) (hc : c.toNat < 0x80) (hnul : c ≠ '\x00') (h : c ∈ (d.step b).out) :
    c ∈ d.out ∨ b = UInt8.ofNat c.toNat := by
  obtain ⟨out, progress⟩ := d
  cases progress with
  | between => exact mem_start hc h
  | within owed low high value =>
    obtain ⟨hlow, hvalue⟩ := hd owed low high value rfl
    rcases step_within_cases out owed value low high b with ⟨hle, howed, hb⟩ | ⟨_, _, hb⟩ | hb
    · have hzero : owed - 1 = 0 := by omega
      rw [hzero, Nat.pow_zero, Nat.mul_one] at hvalue
      rw [hb] at h
      exact Or.inl (List.mem_of_ne_of_mem (ofNat_ne_of_ascii (by omega) hc hnul) h)
    · exact Or.inl (by rwa [hb] at h)
    · rw [hb] at h
      rcases mem_start hc h with hmem | hbyte
      · exact Or.inl (List.mem_of_ne_of_mem (ne_replacement hc) hmem)
      · exact Or.inr hbyte

theorem mem_foldl (hd : d.Proper) (hc : c.toNat < 0x80) (hnul : c ≠ '\x00') {bytes : Bytes}
    (h : c ∈ (bytes.foldl Decoder.step d).out) : c ∈ d.out ∨ UInt8.ofNat c.toNat ∈ bytes := by
  induction bytes generalizing d with
  | nil => exact Or.inl h
  | cons b bytes ih =>
    rcases ih (hd.step b) h with hmem | hmem
    · rcases mem_step hd hc hnul hmem with hbefore | rfl
      · exact Or.inl hbefore
      · exact Or.inr List.mem_cons_self
    · exact Or.inr (List.mem_cons_of_mem b hmem)

/-- A character of ASCII is decoded only where its byte stands. -/
theorem mem_decodeChars (hc : c.toNat < 0x80) (hnul : c ≠ '\x00') {bytes : Bytes}
    (h : c ∈ decodeChars bytes) : UInt8.ofNat c.toNat ∈ bytes := by
  have hout : c ∈ (bytes.foldl Decoder.step ⟨[], .between⟩).out := by
    unfold decodeChars Decoder.finish at h
    split at h
    · exact List.mem_reverse.mp h
    · exact List.mem_of_ne_of_mem (ne_replacement hc) (List.mem_reverse.mp h)
  rcases mem_foldl (proper_between []) hc hnul hout with hnil | hmem
  · cases hnil
  · exact hmem

theorem finish_step_ne_nil (d : Decoder) (b : UInt8) : (d.step b).finish ≠ [] := by
  have hstart : ∀ out, (Decoder.start out b).finish ≠ [] := by
    intro out
    cases firstByte b with
    | ascii _ hstart => simp [hstart, Decoder.finish]
    | stray _ hstart => simp [hstart, Decoder.finish]
    | lead _ _ _ _ _ _ hstart => simp [hstart, Decoder.finish]
  obtain ⟨out, progress⟩ := d
  cases progress with
  | between => exact hstart out
  | within owed low high value =>
    rcases step_within_cases out owed value low high b with ⟨_, _, hb⟩ | ⟨_, _, hb⟩ | hb
    · simp [hb, Decoder.finish]
    · simp [hb, Decoder.finish]
    · exact hb ▸ hstart _

theorem decodeChars_ne_nil {bytes : Bytes} (h : bytes ≠ []) : decodeChars bytes ≠ [] := by
  rw [← List.dropLast_concat_getLast h, decodeChars, List.foldl_append]
  exact finish_step_ne_nil _ _

end Utf8

/-! ## All encodings -/

namespace Encoding

variable (e : Encoding)

theorem asciiChar_of_ascii {b : UInt8} (hb : b.toNat < 0x80) : asciiChar b = Char.ofNat b.toNat := by
  rw [asciiChar, if_pos (UInt8.lt_iff_toNat_lt.mpr hb)]

theorem decodeChars_ascii (front : Bytes) {b : UInt8} (hb : b.toNat < 0x80) (back : Bytes) :
    e.decodeChars (front ++ b :: back) =
      e.decodeChars front ++ Char.ofNat b.toNat :: e.decodeChars back := by
  cases e with
  | utf8 => exact Utf8.decodeChars_ascii front hb back
  | ascii => simp only [decodeChars, List.map_append, List.map_cons, asciiChar_of_ascii hb]
  | latin1 => simp only [decodeChars, List.map_append, List.map_cons, latin1Char]

theorem mem_decodeChars {c : Char} (hc : c.toNat < 0x80) (hnul : c ≠ '\x00') {bytes : Bytes}
    (h : c ∈ e.decodeChars bytes) : UInt8.ofNat c.toNat ∈ bytes := by
  cases e with
  | utf8 => exact Utf8.mem_decodeChars hc hnul h
  | ascii =>
    obtain ⟨b, hb, rfl⟩ := List.mem_map.mp h
    rw [asciiChar] at hc ⊢
    split_ifs at hc ⊢ with hascii
    · rw [UInt8.lt_iff_toNat_lt] at hascii
      rwa [Utf8.toNat_char (Or.inl (by simpa using Nat.lt_trans hascii (by decide))), UInt8.ofNat_toNat]
    · exact absurd rfl (Utf8.ne_replacement hc)
  | latin1 =>
    obtain ⟨b, hb, rfl⟩ := List.mem_map.mp h
    rw [latin1Char, Utf8.toNat_char (Or.inl (Nat.lt_trans b.toNat_lt (by decide))), UInt8.ofNat_toNat]
    exact hb

theorem decodeChars_ne_nil {bytes : Bytes} (h : bytes ≠ []) : e.decodeChars bytes ≠ [] := by
  cases e with
  | utf8 => exact Utf8.decodeChars_ne_nil h
  | ascii => simpa [decodeChars] using h
  | latin1 => simpa [decodeChars] using h

theorem decodeChars_nil : e.decodeChars [] = [] := by
  cases e <;> rfl

end Encoding

end FileExchange

import FileExchange.Proofs.Text.Utf8
import FileExchange.Text.Base64

/-!
# Base64 read back

Reading goes by groups of four letters; only the last group may be filled up.
-/

set_option autoImplicit false

namespace FileExchange.Base64

/-! ## Letters -/

def value? (c : Char) : Option Nat :=
  let n := c.toNat
  if 0x41 ≤ n && n ≤ 0x5A then some (n - 0x41)
  else if 0x61 ≤ n && n ≤ 0x7A then some (n - 0x61 + 26)
  else if 0x30 ≤ n && n ≤ 0x39 then some (n - 0x30 + 52)
  else if c == '+' then some 62
  else if c == '/' then some 63
  else none

theorem value?_letter : ∀ n < 64, value? (letter n) = some n := by decide

theorem letter_ne_fill : ∀ n < 64, (letter n == '=') = false := by decide

theorem letter_of_le {n : Nat} (h : 63 ≤ n) : letter n = '/' := by
  rw [letter, if_neg (by omega), if_neg (by omega), if_neg (by omega), if_neg (by simp; omega)]

/-! ## Bytes of a group -/

def firstByte (w x : Nat) : UInt8 := UInt8.ofNat (w * 4 + x / 16)

def secondByte (x y : Nat) : UInt8 := UInt8.ofNat (x % 16 * 16 + y / 4)

def thirdByte (y z : Nat) : UInt8 := UInt8.ofNat (y % 4 * 64 + z)

theorem firstByte_eq (a : UInt8) {n : Nat} (hn : n < 16) :
    firstByte (a.toNat / 4) (a.toNat % 4 * 16 + n) = a := by
  have hvalue : a.toNat / 4 * 4 + (a.toNat % 4 * 16 + n) / 16 = a.toNat := by omega
  rw [firstByte, hvalue, UInt8.ofNat_toNat]

theorem secondByte_eq (b : UInt8) {m n : Nat} (hm : m % 16 = 0) (hn : n < 4) :
    secondByte (m + b.toNat / 16) (b.toNat % 16 * 4 + n) = b := by
  have hb := b.toNat_lt
  have hvalue : (m + b.toNat / 16) % 16 * 16 + (b.toNat % 16 * 4 + n) / 4 = b.toNat := by omega
  rw [secondByte, hvalue, UInt8.ofNat_toNat]

theorem thirdByte_eq (c : UInt8) {m : Nat} (hm : m % 4 = 0) :
    thirdByte (m + c.toNat / 64) (c.toNat % 64) = c := by
  have hc := c.toNat_lt
  have hvalue : (m + c.toNat / 64) % 4 * 64 + c.toNat % 64 = c.toNat := by omega
  rw [thirdByte, hvalue, UInt8.ofNat_toNat]

/-! ## Reading -/

/-- The bytes of a text, if it is one. -/
def decodeChars? : List Char → Option Bytes
  | [] => some []
  | a :: b :: c :: d :: rest => do
    let w ← value? a
    let x ← value? b
    if c == '=' && d == '=' && rest.isEmpty then return [firstByte w x]
    let y ← value? c
    if d == '=' && rest.isEmpty then return [firstByte w x, secondByte x y]
    let z ← value? d
    let more ← decodeChars? rest
    return firstByte w x :: secondByte x y :: thirdByte y z :: more
  | _ => none

section Groups

variable {w x y z : Nat} (hw : w < 64) (hx : x < 64)

include hw hx

theorem decodeChars?_one :
    decodeChars? [letter w, letter x, '=', '='] = some [firstByte w x] := by
  rw [decodeChars?, value?_letter w hw, value?_letter x hx]
  rfl

variable (hy : y < 64)

include hy

theorem decodeChars?_two :
    decodeChars? [letter w, letter x, letter y, '='] = some [firstByte w x, secondByte x y] := by
  rw [decodeChars?, value?_letter w hw, value?_letter x hx, value?_letter y hy, letter_ne_fill y hy]
  rfl

theorem decodeChars?_three (hz : z < 64) (rest : List Char) :
    decodeChars? (letter w :: letter x :: letter y :: letter z :: rest) =
      (decodeChars? rest).map fun more =>
        firstByte w x :: secondByte x y :: thirdByte y z :: more := by
  rw [decodeChars?, value?_letter w hw, value?_letter x hx, value?_letter y hy, value?_letter z hz,
    letter_ne_fill y hy, letter_ne_fill z hz]
  cases decodeChars? rest <;> rfl

end Groups

theorem decodeChars?_encodeChars (bytes : Bytes) : decodeChars? (encodeChars bytes) = some bytes := by
  fun_induction encodeChars bytes with
  | case1 => rfl
  | case2 a =>
    have ha := a.toNat_lt
    have hfirst := firstByte_eq a (n := 0) (by omega)
    rw [Nat.add_zero] at hfirst
    rw [decodeChars?_one (by omega) (by omega), hfirst]
  | case3 a b =>
    have ha := a.toNat_lt
    have hb := b.toNat_lt
    have hsecond := secondByte_eq b (m := a.toNat % 4 * 16) (n := 0) (by omega) (by omega)
    rw [Nat.add_zero] at hsecond
    rw [decodeChars?_two (by omega) (by omega) (by omega), firstByte_eq a (by omega), hsecond]
  | case4 a b c rest ih =>
    have ha := a.toNat_lt
    have hb := b.toNat_lt
    have hc := c.toNat_lt
    rw [decodeChars?_three (by omega) (by omega) (by omega) (by omega), firstByte_eq a (by omega),
      secondByte_eq b (by omega) (by omega), thirdByte_eq c (by omega), ih, Option.map_some]

/-- A character that is neither a letter of the alphabet nor the filling stands in no text. -/
theorem notMem_encodeChars {c : Char} (hfill : c ≠ '=') (hletters : ∀ n < 64, c ≠ letter n)
    (bytes : Bytes) : c ∉ encodeChars bytes := by
  have hletter : ∀ n, c ≠ letter n := by
    intro n
    by_cases h : n < 64
    · exact hletters n h
    · rw [letter_of_le (by omega), ← letter_of_le (Nat.le_refl 63)]
      exact hletters 63 (by decide)
  fun_induction encodeChars bytes with
  | case1 => exact List.not_mem_nil
  | case2 a => simp [hletter, hfill]
  | case3 a b => simp [hletter, hfill]
  | case4 a b c' rest ih => simp [hletter, ih]

theorem quote_notMem_encodeChars (bytes : Bytes) : '"' ∉ encodeChars bytes :=
  notMem_encodeChars (by decide) (by decide) bytes

theorem less_notMem_encodeChars (bytes : Bytes) : '<' ∉ encodeChars bytes :=
  notMem_encodeChars (by decide) (by decide) bytes

end FileExchange.Base64

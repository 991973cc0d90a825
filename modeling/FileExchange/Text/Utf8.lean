/-!
# UTF-8

Writing characters as bytes, and reading bytes back where not all of them are well formed: the
longest part of a sequence that could still have become a character counts as one replacement
character, and so does a byte that can start none.
-/

set_option autoImplicit false

namespace FileExchange

abbrev Bytes := List UInt8

namespace Utf8

def replacement : Char := '\uFFFD'

def encodeChars (s : List Char) : Bytes :=
  s.flatMap String.utf8EncodeChar

def encode (s : String) : Bytes :=
  encodeChars s.toList

/-! ## Decoding -/

/-- What the sequence under way still needs: `owed` more bytes, the next of them between `low`
and `high`. `value` holds the bits read so far. -/
inductive Progress where
  | between
  | within (owed : Nat) (low high : UInt8) (value : Nat)
  deriving Repr, DecidableEq

/-- The characters decoded so far, last one first, and the sequence under way. -/
structure Decoder where
  out : List Char
  progress : Progress
  deriving Repr, DecidableEq

/-- The first byte of a sequence decides its length and the range of its second byte. -/
def Decoder.start (out : List Char) (b : UInt8) : Decoder :=
  if b < 0x80 then ⟨Char.ofNat b.toNat :: out, .between⟩
  else if b < 0xC2 then ⟨replacement :: out, .between⟩
  else if b < 0xE0 then ⟨out, .within 1 0x80 0xBF (b.toNat - 0xC0)⟩
  else if b == 0xE0 then ⟨out, .within 2 0xA0 0xBF 0⟩
  else if b == 0xED then ⟨out, .within 2 0x80 0x9F 0xD⟩
  else if b < 0xF0 then ⟨out, .within 2 0x80 0xBF (b.toNat - 0xE0)⟩
  else if b == 0xF0 then ⟨out, .within 3 0x90 0xBF 0⟩
  else if b < 0xF4 then ⟨out, .within 3 0x80 0xBF (b.toNat - 0xF0)⟩
  else if b == 0xF4 then ⟨out, .within 3 0x80 0x8F 4⟩
  else ⟨replacement :: out, .between⟩

def Decoder.step (d : Decoder) (b : UInt8) : Decoder :=
  match d.progress with
  | .between => Decoder.start d.out b
  | .within owed low high value =>
    if low ≤ b && b ≤ high then
      let value := value * 64 + (b.toNat - 0x80)
      if owed ≤ 1 then ⟨Char.ofNat value :: d.out, .between⟩
      else ⟨d.out, .within (owed - 1) 0x80 0xBF value⟩
    else Decoder.start (replacement :: d.out) b

/-- A sequence that the end of the bytes cuts short is one replacement character. -/
def Decoder.finish (d : Decoder) : List Char :=
  match d.progress with
  | .between => d.out.reverse
  | .within .. => (replacement :: d.out).reverse

def decodeChars (bytes : Bytes) : List Char :=
  (bytes.foldl Decoder.step ⟨[], .between⟩).finish

def decode (bytes : Bytes) : String :=
  String.ofList (decodeChars bytes)

end Utf8

end FileExchange

import FileExchange.Text.Utf8

/-!
# Encodings of text files

The encodings in which a stored text may be kept. Reading never fails: what an encoding cannot
hold becomes a replacement character.
-/

set_option autoImplicit false

namespace FileExchange

inductive Encoding where
  | utf8
  | ascii
  | latin1
  deriving Repr, DecidableEq

namespace Encoding

def asciiChar (b : UInt8) : Char :=
  if b < 0x80 then Char.ofNat b.toNat else Utf8.replacement

def latin1Char (b : UInt8) : Char :=
  Char.ofNat b.toNat

def decodeChars : Encoding → Bytes → List Char
  | .utf8, bytes => Utf8.decodeChars bytes
  | .ascii, bytes => bytes.map asciiChar
  | .latin1, bytes => bytes.map latin1Char

end Encoding

end FileExchange

import FileExchange.Text.Ascii
import FileExchange.Text.Utf8

/-!
# Percent encoding

Bytes of a path written as `%` and two hexadecimal digits, and read back. What reading cannot take
for an escape it keeps, and it never turns a character outside ASCII into bytes.
-/

set_option autoImplicit false

namespace FileExchange.Percent

/-! ## Hexadecimal digits -/

def upperHexDigit (n : Nat) : Char :=
  if n < 10 then Char.ofNat (0x30 + n) else Char.ofNat (0x37 + n)

def hexValue? (c : Char) : Option Nat :=
  let n := c.toNat
  if 0x30 ≤ n && n ≤ 0x39 then some (n - 0x30)
  else if 0x41 ≤ n && n ≤ 0x46 then some (n - 0x37)
  else if 0x61 ≤ n && n ≤ 0x66 then some (n - 0x57)
  else none

/-! ## Writing -/

/-- The bytes that stand for themselves: letters, digits, `_`, `.`, `-`, `~` and `/`. -/
def isSafe (b : UInt8) : Bool :=
  (0x30 ≤ b && b ≤ 0x39) || (0x41 ≤ b && b ≤ 0x5A) || (0x61 ≤ b && b ≤ 0x7A) ||
    b == 0x5F || b == 0x2E || b == 0x2D || b == 0x7E || b == 0x2F

def encodeByte (b : UInt8) : List Char :=
  if isSafe b then [Char.ofNat b.toNat]
  else ['%', upperHexDigit (b.toNat / 16), upperHexDigit (b.toNat % 16)]

def encodeChars (s : List Char) : List Char :=
  (Utf8.encodeChars s).flatMap encodeByte

def encode (s : String) : String :=
  String.ofList (encodeChars s.toList)

/-! ## Reading -/

/-- The bytes that a run of ASCII characters stands for, put in front of `out` last one first. -/
def unescapeOnto (out : Bytes) : List Char → Bytes
  | [] => out
  | '%' :: a :: b :: rest =>
    match hexValue? a, hexValue? b with
    | some x, some y => unescapeOnto (UInt8.ofNat (x * 16 + y) :: out) rest
    | _, _ => unescapeOnto (0x25 :: out) (a :: b :: rest)
  | c :: rest => unescapeOnto (UInt8.ofNat c.toNat :: out) rest

def unescape (run : List Char) : Bytes :=
  (unescapeOnto [] run).reverse

/-- The maximal runs of characters that are all ASCII or all not. -/
def runs (s : List Char) : List (List Char) :=
  s.splitBy fun a b => Text.isAscii a == Text.isAscii b

def decodeRun (run : List Char) : List Char :=
  if run.all Text.isAscii then Utf8.decodeChars (unescape run) else run

def decodeChars (s : List Char) : List Char :=
  (runs s).flatMap decodeRun

def decode (s : String) : String :=
  String.ofList (decodeChars s.toList)

end FileExchange.Percent

import FileExchange.Text.Printable

/-!
# Quoted text

A text as a message shows it: between quotes, on one line, with an escape for every character that
has no visible form.
-/

set_option autoImplicit false

namespace FileExchange.Quoted

/-- Apostrophes enclose the text unless it holds one and holds no double quote. -/
def mark (s : List Char) : Char :=
  if s.contains '\'' && !s.contains '"' then '"' else '\''

def hexDigit (n : Nat) : Char :=
  if n < 10 then Char.ofNat (0x30 + n) else Char.ofNat (0x57 + n)

/-- The last `width` hexadecimal digits of a number, in front of `out`. -/
def hexOnto (out : List Char) : Nat → Nat → List Char
  | 0, _ => out
  | width + 1, n => hexOnto (hexDigit (n % 16) :: out) width (n / 16)

def hex (width n : Nat) : List Char :=
  hexOnto [] width n

def escapeChar (mark c : Char) : List Char :=
  if c == mark || c == '\\' then ['\\', c]
  else if c == '\n' then ['\\', 'n']
  else if c == '\r' then ['\\', 'r']
  else if c == '\t' then ['\\', 't']
  else if Text.isPrintable c then [c]
  else if c.toNat < 0x100 then '\\' :: 'x' :: hex 2 c.toNat
  else if c.toNat < 0x10000 then '\\' :: 'u' :: hex 4 c.toNat
  else '\\' :: 'U' :: hex 8 c.toNat

def quoteChars (s : List Char) : List Char :=
  mark s :: s.flatMap (escapeChar (mark s)) ++ [mark s]

def quote (s : String) : String :=
  String.ofList (quoteChars s.toList)

end FileExchange.Quoted

import FileExchange.Failure
import FileExchange.Number.Shortest

/-!
# JSON text

A record of texts and numbers on one line of ASCII. Whole numbers that are too long are not written.
-/

set_option autoImplicit false

namespace FileExchange

namespace Number

def tooLong (digits : Nat) : Failure :=
  .unfit ("Exceeds the limit (" ++ toString digits ++ " digits) for integer string conversion; " ++
    "use sys.set_int_max_str_digits() to increase the limit")

/-- Writes a text that shows these numbers, unless one of them has more digits than the limit, if
there is one. -/
def write (limit : Option Nat) (shown : List Int) (text : String) : Except Failure String :=
  match limit with
  | none => .ok text
  | some digits =>
    if shown.all fun n => n.natAbs < Nat.pow 10 digits then .ok text else .error (tooLong digits)

end Number

namespace JsonText

inductive Value where
  | text (s : String)
  | integer (n : Int)
  | number (x : Binary64)
  deriving Repr, DecidableEq

def unit (n : Nat) : List Char :=
  '\\' :: 'u' :: Quoted.hex 4 n

/-- Only the visible characters of ASCII and the space are written as they are; a character above
U+FFFF is written as two surrogates. -/
def escapeChar (c : Char) : List Char :=
  let n := c.toNat
  if c == '"' || c == '\\' then ['\\', c]
  else if c == '\n' then ['\\', 'n']
  else if c == '\r' then ['\\', 'r']
  else if c == '\t' then ['\\', 't']
  else if n == 0x08 then ['\\', 'b']
  else if n == 0x0C then ['\\', 'f']
  else if 0x20 ≤ n && n < 0x7F then [c]
  else if n < 0x10000 then unit n
  else unit (0xD800 + (n - 0x10000) / 0x400) ++ unit (0xDC00 + (n - 0x10000) % 0x400)

def quote (s : String) : String :=
  String.ofList ('"' :: s.toList.flatMap escapeChar ++ ['"'])

def spelling : Number.Spelling := ⟨"NaN", "Infinity"⟩

/-- The text of a value, however long. -/
def Value.written : Value → String
  | .text s => quote s
  | .integer n => toString n
  | .number x => Number.shortestText spelling x

def Value.integer? : Value → Option Int
  | .integer n => some n
  | _ => none

def recordText (fields : List (String × Value)) : String :=
  "\x7b" ++ String.intercalate ", " (fields.map fun (name, v) => quote name ++ ": " ++ v.written) ++ "\x7d"

def encodeRecord (limit : Option Nat) (fields : List (String × Value)) : Except Failure String :=
  Number.write limit (fields.filterMap (·.2.integer?)) (recordText fields)

end JsonText

end FileExchange

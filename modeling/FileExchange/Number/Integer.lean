import FileExchange.Text.Digit
import FileExchange.Text.Quoted

/-!
# Whole numbers

Reading a whole number from a text: blanks around it, a sign, and decimal digits of any script with
single underscores between them.
-/

set_option autoImplicit false

namespace FileExchange.Number

inductive Unreadable where
  | notInteger (text : String)
  | tooManyDigits (count : Nat)
  | notDecimal (text : String)
  deriving Repr, DecidableEq

def Unreadable.message : Unreadable → String
  | .notInteger text => "invalid literal for int() with base 10: " ++ Quoted.quote text
  | .tooManyDigits count =>
    "Exceeds the limit (4300 digits) for integer string conversion: value has " ++ toString count ++
      " digits; use sys.set_int_max_str_digits() to increase the limit"
  | .notDecimal text => "could not convert string to float: " ++ Quoted.quote text

/-! ## Digits with underscores -/

/-- Digits with single underscores between them; `fresh` tells that no digit precedes. -/
def digitsAfter (fresh : Bool) : List Char → Option (List Nat)
  | [] => if fresh then none else some []
  | c :: rest =>
    if c == '_' then if fresh then none else digitsAfter true rest
    else
      match Text.digitValue? c with
      | some d => (digitsAfter false rest).map (d :: ·)
      | none => none

def digits? (s : List Char) : Option (List Nat) :=
  digitsAfter true s

def ofDigits (ds : List Nat) : Nat :=
  ds.foldl (fun n d => n * 10 + d) 0

def splitSign : List Char → Bool × List Char
  | '-' :: rest => (true, rest)
  | '+' :: rest => (false, rest)
  | rest => (false, rest)

/-- A number of more digits than this is refused. -/
def maxDigits : Nat := 4300

def readInteger (text : String) : Except Unreadable Int :=
  let (negative, rest) := splitSign (Text.trimBy Text.isNumberPadding text.toList)
  match digits? rest with
  | none => .error (.notInteger text)
  | some ds =>
    if maxDigits < ds.length then .error (.tooManyDigits ds.length)
    else .ok (if negative then -(ofDigits ds : Int) else ofDigits ds)

end FileExchange.Number

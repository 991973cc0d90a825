import FileExchange.Number.Binary64
import FileExchange.Number.Integer
import FileExchange.Text.Letters

/-!
# Decimal numbers

Reading a decimal number with a fraction and an exponent, or the name of one that is not finite.
-/

set_option autoImplicit false

namespace FileExchange.Number

/-- Digits that may be absent altogether. -/
def optionalDigits? (s : List Char) : Option (List Nat) :=
  if s.isEmpty then some [] else digits? s

/-- Digits with at most one point among them, at least one digit in all: the coefficient and the
number of decimal places. -/
def readMantissa (s : List Char) : Option (Nat × Nat) :=
  let whole := s.takeWhile (· != '.')
  let places := (s.dropWhile (· != '.')).drop 1
  match optionalDigits? whole, optionalDigits? places with
  | some w, some p => if w.isEmpty && p.isEmpty then none else some (ofDigits (w ++ p), p.length)
  | _, _ => none

def readExponent (s : List Char) : Option Int :=
  let (negative, rest) := splitSign s
  (digits? rest).map fun ds => if negative then -(ofDigits ds : Int) else ofDigits ds

def isExponentMark (c : Char) : Bool :=
  c == 'e' || c == 'E'

def readMagnitude (negative : Bool) (s : List Char) : Option Binary64 :=
  let name := String.ofList (Text.lower s)
  if name == "inf" || name == "infinity" then some (.infinite negative)
  else if name == "nan" then some .notANumber
  else
    let front := s.takeWhile (!isExponentMark ·)
    match s.dropWhile (!isExponentMark ·) with
    | [] => (readMantissa front).map fun (c, places) => Binary64.ofDecimal negative c (-places)
    | _ :: rest =>
      match readMantissa front, readExponent rest with
      | some (c, places), some e => some (Binary64.ofDecimal negative c (e - places))
      | _, _ => none

def readDecimal (text : String) : Except Unreadable Binary64 :=
  let (negative, rest) := splitSign (Text.trimBy Text.isNumberPadding text.toList)
  match readMagnitude negative rest with
  | some x => .ok x
  | none => .error (.notDecimal text)

end FileExchange.Number

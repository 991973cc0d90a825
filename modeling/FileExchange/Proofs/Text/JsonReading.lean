import FileExchange.Proofs.Number.Spelling
import FileExchange.Text.Percent

/-!
# Reading JSON

A reader of JSON records whose values are texts and numbers, with every escape and every spelling of a number that
JSON has, and blanks wherever they may stand. It gives back what has been written, in front of anything that may
follow.
-/

set_option autoImplicit false

namespace FileExchange

namespace JsonText

/-! ## Texts -/

/-- An exponent may have a sign and needs digits. -/
def readExponent : List Char → Option (Option (Bool × List Char) × List Char)
  | [] => some (none, [])
  | c :: rest =>
    if Number.isExponentMark c then
      let (negative, rest) := Number.splitSign rest
      if (rest.takeWhile Char.isDigit).isEmpty then none
      else some (some (negative, rest.takeWhile Char.isDigit), rest.dropWhile Char.isDigit)
    else some (none, c :: rest)

end JsonText

/-- What a numeral stands for: a whole number, if it has neither decimal places nor an exponent, else the nearest
number of binary floating point. -/
def Numeral.value (n : Numeral) : JsonText.Value :=
  if n.isInteger then .integer (if n.negative then -(n.coefficient : Int) else n.coefficient)
  else .number (Binary64.ofDecimal n.negative n.coefficient n.power)

namespace JsonText

/-! ## Records -/

def isBlank (c : Char) : Bool :=
  c == ' ' || c == '\t' || c == '\n' || c == '\r'

end JsonText

/-! ## Access records -/

namespace AccessRecord

end AccessRecord

end FileExchange

import FileExchange.Number.Shortest

/-!
# Two decimal places

A number rounded to hundredths on its exact binary value, as text and as a number again.
-/

set_option autoImplicit false

namespace FileExchange.Binary64

/-- The number of hundredths nearest to a magnitude, a half to the even neighbour. -/
def hundredths (mantissa : Nat) (exponent : Int) : Nat :=
  let (num, den) := fraction mantissa exponent
  Number.divideToEven (num * 100) den

/-- Two decimal places; the sign stays also where only zeros are left. -/
def fixedText : Binary64 → String
  | .notANumber => "nan"
  | .infinite negative => String.ofList (Number.signChars negative) ++ "inf"
  | .finite negative m e =>
    let n := hundredths m e
    let places := Number.decimalDigits (n % 100)
    String.ofList (Number.signChars negative ++ Number.decimalDigits (n / 100) ++
      '.' :: Number.zeros (2 - places.length) ++ places)

/-- The number nearest to the value rounded to two places. -/
def roundToHundredths : Binary64 → Binary64
  | .finite negative m e => nearest negative (hundredths m e) 100
  | x => x

end FileExchange.Binary64

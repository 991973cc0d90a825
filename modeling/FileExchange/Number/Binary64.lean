/-!
# Binary floating point

Numbers with a 53-bit mantissa as exact values, and rounding of a quotient to the nearest of them.
-/

set_option autoImplicit false

namespace FileExchange

/-- A finite number is `mantissa * 2 ^ exponent`, with `mantissa < 2 ^ 53` and the exponent as small
as `-1074` and the mantissa allow. -/
inductive Binary64 where
  | notANumber
  | infinite (negative : Bool)
  | finite (negative : Bool) (mantissa : Nat) (exponent : Int)
  deriving Repr, DecidableEq

namespace Number

/-- The quotient rounded to a whole number, a half to the even neighbour. -/
def divideToEven (num den : Nat) : Nat :=
  let q := num / den
  let r := num % den
  if 2 * r < den then q
  else if den < 2 * r then q + 1
  else if q % 2 == 0 then q else q + 1

/-- The fraction `num / (den * 2 ^ e)`. -/
def scaleDown (num den : Nat) (e : Int) : Nat × Nat :=
  if 0 ≤ e then (num, den * Nat.pow 2 e.toNat) else (num * Nat.pow 2 (-e).toNat, den)

end Number

namespace Binary64

def zero (negative : Bool) : Binary64 :=
  .finite negative 0 (-1074)

/-- The exponent at which a positive fraction has a mantissa of 53 bits, or the least exponent. -/
def exponentFor (num den : Nat) : Int :=
  let e : Int := (num.log2 : Int) - den.log2 - 53
  let (n, d) := Number.scaleDown num den e
  max (-1074) (if Nat.pow 2 53 ≤ n / d then e + 1 else e)

/-- The number nearest to `num / den`; of two equally near the one with the even mantissa. -/
def nearest (negative : Bool) (num den : Nat) : Binary64 :=
  if num == 0 then zero negative
  else
    let e := exponentFor num den
    let (n, d) := Number.scaleDown num den e
    let m := Number.divideToEven n d
    let (m, e) := if m == Nat.pow 2 53 then (Nat.pow 2 52, e + 1) else (m, e)
    if 971 < e then .infinite negative else .finite negative m e

/-- The number nearest to `coefficient * 10 ^ exponent`. -/
def ofDecimal (negative : Bool) (coefficient : Nat) (exponent : Int) : Binary64 :=
  if coefficient == 0 then zero negative
  else
    let top : Int := exponent + coefficient.log2 / 3 + 1
    if exponent + coefficient.log2 / 4 > 400 then .infinite negative
    else if top < -400 then zero negative
    else if 0 ≤ exponent then nearest negative (coefficient * Nat.pow 10 exponent.toNat) 1
    else nearest negative coefficient (Nat.pow 10 (-exponent).toNat)

def fraction (mantissa : Nat) (exponent : Int) : Nat × Nat :=
  if 0 ≤ exponent then (mantissa * Nat.pow 2 exponent.toNat, 1) else (mantissa, Nat.pow 2 (-exponent).toNat)

/-- At most zero: no comparison holds of what is not a number. -/
def isAtMostZero : Binary64 → Bool
  | .notANumber => false
  | .infinite negative => negative
  | .finite negative m _ => negative || m == 0

/-- Whether its size is at least the bound. -/
def reaches (bound : Nat) : Binary64 → Bool
  | .notANumber => false
  | .infinite _ => true
  | .finite _ m e => let (n, d) := fraction m e; bound * d ≤ n

end Binary64

end FileExchange

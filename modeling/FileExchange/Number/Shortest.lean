import FileExchange.Number.Binary64

/-!
# Shortest decimal text

The decimal with the fewest digits that reads back as a given number, the nearest one of those, and
its spelling: positional from `0.0001` up to below `10 ^ 16`, else with an exponent.
-/

set_option autoImplicit false

namespace FileExchange.Number

/-! ## Digits -/

def decimalDigits (n : Nat) : List Char :=
  Nat.toDigits 10 n

/-- The decimal exponent of the first digit of a positive fraction. -/
def leadingExponent (num den : Nat) : Int :=
  if den ≤ num then (decimalDigits (num / den)).length - 1
  else -(decimalDigits ((den + num - 1) / num - 1)).length

/-- The fraction `num / den` divided by `10 ^ e`. -/
def scaleDecimal (num den : Nat) (e : Int) : Nat × Nat :=
  if 0 ≤ e then (num, den * Nat.pow 10 e.toNat) else (num * Nat.pow 10 (-e).toNat, den)

/-- The fractions between which every number rounds to `mantissa * 2 ^ exponent`; the ends belong
to the interval exactly when the mantissa is even. -/
structure Interval where
  low : Nat × Nat
  high : Nat × Nat
  closed : Bool

def roundingInterval (mantissa : Nat) (exponent : Int) : Interval :=
  let below :=
    if mantissa == Nat.pow 2 52 && -1074 < exponent then 4 * mantissa - 1 else 4 * mantissa - 2
  ⟨Binary64.fraction below (exponent - 2), Binary64.fraction (4 * mantissa + 2) (exponent - 2),
    mantissa % 2 == 0⟩

def Interval.holds (i : Interval) (num den : Nat) : Bool :=
  let low := i.low.1 * den
  let here := num * i.low.2
  let high := i.high.1 * den
  let here' := num * i.high.2
  if i.closed then low ≤ here && here' ≤ high else low < here && here' < high

/-- Of the two neighbours of a fraction on the grid of multiples of `10 ^ e`, the nearer one that
lies in the interval; of two equally near the even one. -/
def gridPoint? (i : Interval) (num den : Nat) (e : Int) : Option Nat :=
  let (n, d) := scaleDecimal num den e
  let q := n / d
  let inside (c : Nat) : Bool :=
    if 0 ≤ e then i.holds (c * Nat.pow 10 e.toNat) 1 else i.holds c (Nat.pow 10 (-e).toNat)
  match inside q, inside (q + 1) with
  | true, true => some (divideToEven n d)
  | true, false => some q
  | false, true => some (q + 1)
  | false, false => none

/-- Tries grids of one digit more each time; seventeen digits always tell a number apart. -/
def findDigits (i : Interval) (num den : Nat) (lead : Int) : Nat → Nat → Nat × Int
  | 0, _ => (num / den, 0)
  | more + 1, count =>
    let e := lead - count + 1
    match gridPoint? i num den e with
    | some c => (c, e)
    | none => findDigits i num den lead more (count + 1)

def shortest (mantissa : Nat) (exponent : Int) : Nat × Int :=
  let (num, den) := Binary64.fraction mantissa exponent
  findDigits (roundingInterval mantissa exponent) num den (leadingExponent num den) 17 1

/-! ## Spelling -/

def zeros (n : Nat) : List Char :=
  List.replicate n '0'

/-- Digits, first digit at `10 ^ lead`, written positionally with at least one decimal place. -/
def positional (ds : List Char) (lead : Int) : List Char :=
  if lead < 0 then '0' :: '.' :: zeros (-lead - 1).toNat ++ ds
  else
    let whole := lead.toNat + 1
    let tail := ds.drop whole
    ds.take whole ++ zeros (whole - ds.length) ++ '.' :: (if tail.isEmpty then ['0'] else tail)

/-- The exponent has a sign and at least two digits. -/
def scientific (ds : List Char) (lead : Int) : List Char :=
  let mantissa :=
    match ds with
    | d :: e :: rest => d :: '.' :: e :: rest
    | ds => ds
  let size := decimalDigits lead.natAbs
  mantissa ++ 'e' :: (if lead < 0 then '-' else '+') :: zeros (2 - size.length) ++ size

def dropTrailingZeros (ds : List Char) : List Char :=
  (ds.reverse.dropWhile (· == '0')).reverse

def shortestChars (mantissa : Nat) (exponent : Int) : List Char :=
  let (c, e) := shortest mantissa exponent
  let ds := decimalDigits c
  let lead := e + ds.length - 1
  let ds := dropTrailingZeros ds
  if -4 ≤ lead && lead < 16 then positional ds lead else scientific ds lead

def signChars (negative : Bool) : List Char :=
  if negative then ['-'] else []

/-- How the values that are no finite number are spelled. -/
structure Spelling where
  notANumber : String
  infinity : String

def shortestText (spelling : Spelling) : Binary64 → String
  | .notANumber => spelling.notANumber
  | .infinite negative => String.ofList (signChars negative) ++ spelling.infinity
  | .finite negative 0 _ => String.ofList (signChars negative) ++ "0.0"
  | .finite negative m e => String.ofList (signChars negative ++ shortestChars m e)

def plainSpelling : Spelling := ⟨"nan", "inf"⟩

end FileExchange.Number

namespace FileExchange.Binary64

def text (x : Binary64) : String :=
  Number.shortestText Number.plainSpelling x

end FileExchange.Binary64

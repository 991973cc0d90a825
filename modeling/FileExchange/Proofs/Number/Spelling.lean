import FileExchange.Proofs.Number.Shortest
import FileExchange.Proofs.Text.Visible
import Mathlib.Data.List.TakeWhile

/-!
# Numerals

A numeral is a sign, digits, decimal places and an exponent, each but the digits possibly absent. Every finite
number is spelled as one, and the numeral stands for a decimal that is rounded to the number.
-/

set_option autoImplicit false

namespace FileExchange

open Number

namespace Number

/-! ## Digits -/

def IsDigits (ds : List Char) : Prop :=
  ∀ c ∈ ds, c.isDigit = true

def digitsValue (ds : List Char) : Nat :=
  Nat.ofDigitChars 10 ds 0

theorem IsDigits.append {ds ds' : List Char} (h : IsDigits ds) (h' : IsDigits ds') : IsDigits (ds ++ ds') :=
  fun c hc => (List.mem_append.mp hc).elim (h c) (h' c)

theorem IsDigits.subset {ds ds' : List Char} (h : IsDigits ds) (hsub : ds' ⊆ ds) : IsDigits ds' :=
  fun c hc => h c (hsub hc)

/-- The digits of a positive number, which begin with none of the zeros in front of it. -/
def Leads (ds : List Char) : Prop :=
  ∃ d rest, ds = d :: rest ∧ d ≠ '0'

end Number

/-! ## Numerals -/

structure Numeral where
  negative : Bool
  whole : List Char
  places : List Char := []
  /-- Whether the exponent is negative, and its digits. -/
  exponent : Option (Bool × List Char) := none

namespace Numeral

def exponentChars : Option (Bool × List Char) → List Char
  | none => []
  | some (negative, ds) => 'e' :: (if negative then '-' else '+') :: ds

def placeChars (places : List Char) : List Char :=
  if places.isEmpty then [] else '.' :: places

def chars (n : Numeral) : List Char :=
  signChars n.negative ++ n.whole ++ placeChars n.places ++ exponentChars n.exponent

def exponentValue : Option (Bool × List Char) → Int
  | none => 0
  | some (negative, ds) => if negative then -(digitsValue ds : Int) else digitsValue ds

def coefficient (n : Numeral) : Nat :=
  digitsValue (n.whole ++ n.places)

/-- The power of ten that the coefficient is multiplied with. -/
def power (n : Numeral) : Int :=
  exponentValue n.exponent - n.places.length

/-- Neither decimal places nor an exponent. -/
def isInteger (n : Numeral) : Bool :=
  n.places.isEmpty && n.exponent.isNone

/-- Digits of a whole number: no zero in front of other digits. -/
def IsWhole (ds : List Char) : Prop :=
  IsDigits ds ∧ (ds = ['0'] ∨ Leads ds)

structure Proper (n : Numeral) : Prop where
  whole : IsWhole n.whole
  places : IsDigits n.places
  exponent : ∀ negative ds, n.exponent = some (negative, ds) → IsDigits ds ∧ ds ≠ []

/-- The numeral is written in this way, and it stands for this decimal, without its sign. -/
structure Spells (n : Numeral) (negative : Bool) (s : List Char) (x : ℚ) : Prop where
  proper : n.Proper
  sign : n.negative = negative
  chars : n.chars = signChars negative ++ s
  value : n.coefficient * 10 ^ n.power = x
  decimal : n.isInteger = false

variable {ds : List Char}

/-! ## Spelling -/

end Numeral

end FileExchange

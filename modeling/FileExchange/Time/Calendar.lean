/-!
# Calendar

The Gregorian calendar carried on to year 1: the number of a day, and the day of a number.
-/

set_option autoImplicit false

namespace FileExchange

structure Date where
  year : Nat
  month : Nat
  day : Nat
  deriving Repr, DecidableEq

namespace Calendar

def isLeap (year : Nat) : Bool :=
  year % 4 == 0 && (year % 100 != 0 || year % 400 == 0)

/-- The days of the months of a year, January first. -/
def monthLengths (year : Nat) : List Nat :=
  [31, if isLeap year then 29 else 28, 31, 30, 31, 30, 31, 31, 30, 31, 30, 31]

/-- The days from the first day of year 1 up to the start of a year. -/
def daysBeforeYear (year : Nat) : Nat :=
  let y := year - 1
  y * 365 + y / 4 - y / 100 + y / 400

def daysBeforeMonth (year month : Nat) : Nat :=
  ((monthLengths year).take (month - 1)).foldr (· + ·) 0

def dayNumber (d : Date) : Nat :=
  daysBeforeYear d.year + daysBeforeMonth d.year d.month + (d.day - 1)

/-- The year of a day, and its place in that year. Of 400 years the last century has a day more,
and so has the last year of four. -/
def yearAndDay (n : Nat) : Nat × Nat :=
  let (era, n) := (n / 146097, n % 146097)
  let century := min 3 (n / 36524)
  let n := n - century * 36524
  let (cycle, n) := (n / 1461, n % 1461)
  let single := min 3 (n / 365)
  (era * 400 + century * 100 + cycle * 4 + single + 1, n - single * 365)

/-- The month and day at a place in a year, given the lengths of the months from `month` on. -/
def monthAndDay (month : Nat) : List Nat → Nat → Nat × Nat
  | [], n => (month, n + 1)
  | len :: rest, n => if n < len then (month, n + 1) else monthAndDay (month + 1) rest (n - len)

def ofDayNumber (n : Nat) : Date :=
  let (year, rest) := yearAndDay n
  let (month, day) := monthAndDay 1 (monthLengths year) rest
  ⟨year, month, day⟩

/-- The day of the week, Monday being 0; year 1 starts with a Monday. -/
def weekday (n : Nat) : Nat :=
  n % 7

/-- The days of the years 1 to 9999. -/
def dayLimit : Nat := 3652059

end Calendar

end FileExchange

import FileExchange.Time.Calendar

/-!
# HTTP dates

The time stamp of a response: a second of universal time, written with the weekday and the month
in words.
-/

set_option autoImplicit false

namespace FileExchange

/-- A time of day on a date. The offset is how many microseconds it is ahead of universal time. -/
structure DateTime where
  date : Date
  hour : Nat
  minute : Nat
  second : Nat
  microsecond : Nat := 0
  offset : Int := 0
  deriving Repr, DecidableEq

/-- A second of universal time, counted from the start of year 1. -/
structure Instant where
  seconds : Nat
  deriving Repr, DecidableEq

namespace Instant

def secondLimit : Nat := Calendar.dayLimit * 86400

/-- A second counted from the start of year 1, if it lies in the years 1 to 9999. -/
def ofSeconds? (n : Int) : Option Instant :=
  if 0 ≤ n && n < secondLimit then some ⟨n.toNat⟩ else none

/-- The seconds from the start of year 1 to the start of 1970. -/
def epoch : Int := 719162 * 86400

def ofEpoch? (n : Int) : Option Instant :=
  ofSeconds? (epoch + n)

def date (i : Instant) : Date :=
  Calendar.ofDayNumber (i.seconds / 86400)

end Instant

namespace DateTime

/-- The seconds from the start of year 1 to what the date and the time of day show. -/
def shownSeconds (t : DateTime) : Nat :=
  Calendar.dayNumber t.date * 86400 + t.hour * 3600 + t.minute * 60 + t.second

/-- The microseconds of universal time from the start of year 1. -/
def microseconds (t : DateTime) : Int :=
  t.shownSeconds * 1000000 + t.microsecond - t.offset

/-- The second of universal time, unless it leaves the years 1 to 9999. -/
def toInstant? (t : DateTime) : Option Instant :=
  Instant.ofSeconds? (t.microseconds / 1000000)

end DateTime

namespace HttpDate

def weekdayNames : List String :=
  ["Mon", "Tue", "Wed", "Thu", "Fri", "Sat", "Sun"]

def monthNames : List String :=
  ["Jan", "Feb", "Mar", "Apr", "May", "Jun", "Jul", "Aug", "Sep", "Oct", "Nov", "Dec"]

def twoDigits (n : Nat) : String :=
  if n < 10 then "0" ++ toString n else toString n

/-- All fields but the year have a fixed width. -/
def text (i : Instant) : String :=
  let days := i.seconds / 86400
  let rest := i.seconds % 86400
  let d := Calendar.ofDayNumber days
  weekdayNames.getD (Calendar.weekday days) "" ++ ", " ++ twoDigits d.day ++ " " ++
    monthNames.getD (d.month - 1) "" ++ " " ++ toString d.year ++ " " ++
    twoDigits (rest / 3600) ++ ":" ++ twoDigits (rest / 60 % 60) ++ ":" ++ twoDigits (rest % 60) ++
    " GMT"

/-- In universal time the date and time leave the years 1 to 9999. -/
structure OutOfRange where
  deriving Repr, DecidableEq

def OutOfRange.message : OutOfRange → String
  | {} => "date value out of range"

def ofDateTime (t : DateTime) : Except OutOfRange String :=
  match t.toInstant? with
  | some i => .ok (text i)
  | none => .error {}

end HttpDate

end FileExchange

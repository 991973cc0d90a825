import FileExchange.Time.Calendar
import Mathlib.Algebra.BigOperators.Group.List.Basic
import Mathlib.Tactic.IntervalCases
import Mathlib.Tactic.Linarith

/-!
# Days of the calendar

The calendar as a run of days, each followed by the next one, and its days of the week. The number of a date is its
place in that run, and the date of a number is the one in that place.
-/

set_option autoImplicit false

namespace FileExchange

open Calendar

/-! ## Dates -/

namespace Calendar

/-- The Gregorian rule. Every fourth year has a day more, but of every hundredth only every fourth. -/
def IsLeapYear (year : Nat) : Prop :=
  year % 4 = 0 ∧ (year % 100 ≠ 0 ∨ year % 400 = 0)

instance (year : Nat) : Decidable (IsLeapYear year) :=
  inferInstanceAs (Decidable (_ ∧ _))

/-- The days of a month, which has a number from 1 to 12. -/
def monthLength (year month : Nat) : Nat :=
  if month = 2 then if IsLeapYear year then 29 else 28
  else if month ∈ [4, 6, 9, 11] then 30
  else 31

def yearLength (year : Nat) : Nat :=
  if IsLeapYear year then 366 else 365

end Calendar

namespace Date

/-- A date that the calendar has. -/
structure IsValid (d : Date) : Prop where
  year_pos : 1 ≤ d.year
  month_pos : 1 ≤ d.month
  month_le : d.month ≤ 12
  day_pos : 1 ≤ d.day
  day_le : d.day ≤ monthLength d.year d.month

/-- The next day: one of the same month, the first of the next month, or the first of the next year. -/
def next (d : Date) : Date :=
  if d.day < monthLength d.year d.month then { d with day := d.day + 1 }
  else if d.month < 12 then ⟨d.year, d.month + 1, 1⟩
  else ⟨d.year + 1, 1, 1⟩

end Date

namespace Calendar

/-- The days one after the other. The first one, which has number 0, is the first of year 1. -/
def nthDay : Nat → Date
  | 0 => ⟨1, 1, 1⟩
  | n + 1 => (nthDay n).next

/-- The day of the week that a date falls on, Monday being 0. Year 1 begins with a Monday, and the next day falls on
the next day of the week. -/
inductive Falls : Date → Nat → Prop
  | first : Falls ⟨1, 1, 1⟩ 0
  | next {d : Date} {weekday : Nat} (h : Falls d weekday) : Falls d.next ((weekday + 1) % 7)

theorem falls_nthDay (n : Nat) : Falls (nthDay n) (weekday n) := by
  induction n with
  | zero => exact .first
  | succ n ih =>
    have hnext := Falls.next ih
    rwa [weekday, Nat.mod_add_mod] at hnext

/-! ## Lengths of months and years -/

theorem length_monthLengths (year : Nat) : (monthLengths year).length = 12 := rfl

theorem daysBeforeMonth_eq (year month : Nat) :
    daysBeforeMonth year month = ((monthLengths year).take (month - 1)).sum := rfl

theorem isLeap_iff (year : Nat) : isLeap year = true ↔ IsLeapYear year := by
  simp [isLeap, IsLeapYear]

theorem sum_monthLengths (year : Nat) : (monthLengths year).sum = yearLength year := by
  by_cases h : IsLeapYear year <;> simp [monthLengths, yearLength, isLeap_iff, h]

theorem monthLength_eq (year : Nat) {month : Nat} (hpos : 1 ≤ month) (hle : month ≤ 12) :
    ∃ h : month - 1 < (monthLengths year).length, monthLength year month = (monthLengths year)[month - 1] := by
  have hindex : month - 1 < (monthLengths year).length := by
    rw [length_monthLengths]
    omega
  refine ⟨hindex, ?_⟩
  interval_cases month <;> simp [monthLength, monthLengths, isLeap_iff]

theorem monthLength_pos (year month : Nat) : 1 ≤ monthLength year month := by
  unfold monthLength
  split_ifs <;> decide

theorem monthLength_le (year month : Nat) : monthLength year month ≤ 31 := by
  unfold monthLength
  split_ifs <;> decide

theorem daysBeforeMonth_succ (year : Nat) {month : Nat} (hpos : 1 ≤ month) (hle : month ≤ 12) :
    daysBeforeMonth year (month + 1) = daysBeforeMonth year month + monthLength year month := by
  obtain ⟨hindex, hlength⟩ := monthLength_eq year hpos hle
  obtain ⟨m, rfl⟩ := Nat.exists_eq_add_of_le' hpos
  rw [Nat.add_sub_cancel] at hindex
  rw [daysBeforeMonth_eq, daysBeforeMonth_eq, hlength]
  exact List.sum_take_succ _ m hindex

theorem daysBeforeMonth_last (year : Nat) : daysBeforeMonth year 13 = yearLength year := by
  rw [daysBeforeMonth_eq, List.take_of_length_le (Nat.le_of_eq (length_monthLengths year)), sum_monthLengths]

/-- Of the years up to `y`, every fourth has a day more, but of every hundredth only every fourth. -/
theorem daysBeforeYear_add (y : Nat) : daysBeforeYear (y + 1) + y / 100 = y * 365 + y / 4 + y / 400 := by
  have hstart : daysBeforeYear (y + 1) = y * 365 + y / 4 - y / 100 + y / 400 := rfl
  omega

theorem leapDays_succ (y : Nat) :
    (y + 1) / 4 + (y + 1) / 400 + y / 100 =
      y / 4 + y / 400 + (y + 1) / 100 + if IsLeapYear (y + 1) then 1 else 0 := by
  by_cases h : IsLeapYear (y + 1)
  · rw [if_pos h]
    unfold IsLeapYear at h
    omega
  · rw [if_neg h]
    unfold IsLeapYear at h
    omega

theorem daysBeforeYear_succ {year : Nat} (hpos : 1 ≤ year) :
    daysBeforeYear (year + 1) = daysBeforeYear year + yearLength year := by
  obtain ⟨y, rfl⟩ := Nat.exists_eq_add_of_le' hpos
  have hstart := daysBeforeYear_add y
  have hend := daysBeforeYear_add (y + 1)
  have hleap := leapDays_succ y
  have hlength : yearLength (y + 1) = 365 + if IsLeapYear (y + 1) then 1 else 0 := by
    unfold yearLength
    split <;> rfl
  linarith

theorem daysBeforeYear_mono {year : Nat} (hpos : 1 ≤ year) (more : Nat) :
    daysBeforeYear year ≤ daysBeforeYear (year + more) := by
  induction more with
  | zero => exact Nat.le_refl _
  | succ more ih =>
    rw [← Nat.add_assoc, daysBeforeYear_succ (Nat.le_trans hpos (Nat.le_add_right year more))]
    exact Nat.le_trans ih (Nat.le_add_right _ _)

/-! ## The number of a date -/

/-- A date lies in its month. -/
theorem place_lt {d : Date} (h : d.IsValid) :
    daysBeforeMonth d.year d.month + (d.day - 1) < daysBeforeMonth d.year (d.month + 1) := by
  rw [daysBeforeMonth_succ d.year h.month_pos h.month_le]
  have hpos := h.day_pos
  have hle := h.day_le
  omega

theorem daysBeforeMonth_mono (year : Nat) {month later : Nat} (h : month ≤ later) :
    daysBeforeMonth year month ≤ daysBeforeMonth year later := by
  rw [daysBeforeMonth_eq, daysBeforeMonth_eq]
  obtain ⟨more, hmore⟩ := List.take_prefix_take_left (l := monthLengths year) (Nat.sub_le_sub_right h 1)
  rw [← hmore, List.sum_append]
  exact Nat.le_add_right _ _

/-- A date lies in its year. -/
theorem place_lt_yearLength {d : Date} (h : d.IsValid) :
    daysBeforeMonth d.year d.month + (d.day - 1) < yearLength d.year :=
  calc daysBeforeMonth d.year d.month + (d.day - 1) < daysBeforeMonth d.year (d.month + 1) := place_lt h
    _ ≤ daysBeforeMonth d.year 13 := daysBeforeMonth_mono d.year (Nat.succ_le_succ h.month_le)
    _ = yearLength d.year := daysBeforeMonth_last d.year

theorem dayNumber_lt {d : Date} (h : d.IsValid) : dayNumber d < daysBeforeYear (d.year + 1) := by
  have hplace := place_lt_yearLength h
  rw [daysBeforeYear_succ h.year_pos, dayNumber]
  omega

/-- Exactly the dates of the years up to 9999 have numbers below the limit. -/
theorem dayNumber_lt_dayLimit_iff {d : Date} (h : d.IsValid) : dayNumber d < dayLimit ↔ d.year ≤ 9999 := by
  have hlimit : dayLimit = daysBeforeYear 10000 := rfl
  have hyear := h.year_pos
  rw [hlimit]
  constructor
  · intro hless
    by_contra hlate
    obtain ⟨more, hmore⟩ := Nat.exists_eq_add_of_le (Nat.lt_of_not_le hlate)
    have hstart : daysBeforeYear 10000 ≤ daysBeforeYear d.year := hmore ▸ daysBeforeYear_mono (by decide) more
    rw [dayNumber] at hless
    omega
  · intro hearly
    obtain ⟨more, hmore⟩ := Nat.exists_eq_add_of_le (Nat.succ_le_succ hearly)
    have hend : daysBeforeYear (d.year + 1) ≤ daysBeforeYear 10000 := by
      rw [show 10000 = d.year + 1 + more from hmore]
      exact daysBeforeYear_mono (Nat.le_add_left 1 d.year) more
    exact Nat.lt_of_lt_of_le (dayNumber_lt h) hend

theorem dayNumber_next {d : Date} (h : d.IsValid) : dayNumber d.next = dayNumber d + 1 := by
  have hpos := h.day_pos
  unfold Date.next
  split
  · simp only [dayNumber]
    omega
  · rename_i hlast
    have hday : d.day = monthLength d.year d.month := Nat.le_antisymm h.day_le (Nat.le_of_not_lt hlast)
    have hmonth := daysBeforeMonth_succ d.year h.month_pos h.month_le
    split
    · simp only [dayNumber]
      omega
    · rename_i hyear
      have hdecember : d.month = 12 := Nat.le_antisymm h.month_le (Nat.le_of_not_lt hyear)
      have hend := daysBeforeMonth_last d.year
      have hstart : daysBeforeMonth (d.year + 1) 1 = 0 := rfl
      simp only [dayNumber, daysBeforeYear_succ h.year_pos, hstart]
      rw [hdecember] at hday hmonth ⊢
      rw [hmonth] at hend
      omega

theorem isValid_next {d : Date} (h : d.IsValid) : d.next.IsValid := by
  unfold Date.next
  split
  · rename_i hmore
    exact ⟨h.year_pos, h.month_pos, h.month_le, Nat.le_add_left 1 _, hmore⟩
  · split
    · rename_i hmonth
      exact ⟨h.year_pos, Nat.le_add_left 1 _, hmonth, Nat.le_refl 1, monthLength_pos _ _⟩
    · have hjanuary : 1 ≤ 12 := by decide
      exact ⟨Nat.le_add_left 1 _, Nat.le_refl 1, hjanuary, Nat.le_refl 1, monthLength_pos _ _⟩

theorem isValid_nthDay (n : Nat) : (nthDay n).IsValid := by
  induction n with
  | zero => exact ⟨by decide, by decide, by decide, by decide, by decide⟩
  | succ n ih => exact isValid_next ih

theorem dayNumber_nthDay (n : Nat) : dayNumber (nthDay n) = n := by
  induction n with
  | zero => rfl
  | succ n ih => rw [nthDay, dayNumber_next (isValid_nthDay n), ih]

/-! ## The date of a number -/

theorem monthAndDay_eq (first : Nat) (lens : List Nat) {index place : Nat} (hindex : index < lens.length)
    (hplace : place < lens[index]) :
    monthAndDay first lens ((lens.take index).sum + place) = (first + index, place + 1) := by
  induction lens generalizing first index with
  | nil => exact absurd hindex (Nat.not_lt_zero _)
  | cons len rest ih =>
    cases index with
    | zero =>
      have hshort : place < len := hplace
      rw [List.take_zero, List.sum_nil, Nat.zero_add, monthAndDay, if_pos hshort]
      rfl
    | succ index =>
      have hlong : ¬ len + (rest.take index).sum + place < len := by omega
      have hleft : len + (rest.take index).sum + place - len = (rest.take index).sum + place := by omega
      rw [List.take_succ_cons, List.sum_cons, monthAndDay, if_neg hlong, hleft,
        ih (first + 1) (Nat.lt_of_succ_lt_succ hindex) hplace, Nat.add_right_comm, Nat.add_assoc]

theorem div_mod_span (count : Nat) {span place : Nat} (h : place < span) :
    (count * span + place) / span = count ∧ (count * span + place) % span = place := by
  constructor
  · rw [Nat.mul_comm, Nat.mul_add_div (Nat.zero_lt_of_lt h), Nat.div_eq_of_lt h, Nat.add_zero]
  · rw [Nat.mul_comm, Nat.mul_add_mod, Nat.mod_eq_of_lt h]

/-- The last of four spans may be longer than the others. -/
theorem min_span {count span place : Nat} (hspan : 0 < span) (hcount : count ≤ 3) (h : count < 3 → place < span) :
    min 3 ((count * span + place) / span) = count := by
  rw [Nat.mul_comm, Nat.mul_add_div hspan]
  rcases Nat.lt_or_eq_of_le hcount with hless | rfl
  · rw [Nat.div_eq_of_lt (h hless), Nat.add_zero, Nat.min_eq_right hcount]
  · exact Nat.min_eq_left (Nat.le_add_right 3 _)

/-- The years before a year make up spans of 400, of 100 and of 4 years, and some that are left. -/
theorem exists_spans {year place : Nat} (hpos : 1 ≤ year) (hplace : place < yearLength year) :
    ∃ era century cycle single, year = era * 400 + century * 100 + cycle * 4 + single + 1 ∧
      daysBeforeYear year = era * 146097 + (century * 36524 + (cycle * 1461 + single * 365)) ∧
      century ≤ 3 ∧ cycle ≤ 24 ∧ single ≤ 3 ∧
        (place < 365 ∨ place = 365 ∧ single = 3 ∧ (cycle < 24 ∨ century = 3)) := by
  obtain ⟨y, rfl⟩ := Nat.exists_eq_add_of_le' hpos
  have hstart := daysBeforeYear_add y
  refine ⟨y / 400, y % 400 / 100, y % 100 / 4, y % 4, by omega, by omega, by omega, by omega, by omega, ?_⟩
  unfold yearLength at hplace
  split at hplace
  · rename_i h
    unfold IsLeapYear at h
    omega
  · exact Or.inl hplace

theorem yearAndDay_eq {year place : Nat} (hpos : 1 ≤ year) (hplace : place < yearLength year) :
    yearAndDay (daysBeforeYear year + place) = (year, place) := by
  obtain ⟨era, century, cycle, single, hyear, hstart, hcentury, hcycle, hsingle, hlength⟩ :=
    exists_spans hpos hplace
  have hdays : daysBeforeYear year + place =
      era * 146097 + (century * 36524 + (cycle * 1461 + (single * 365 + place))) := by omega
  obtain ⟨heras, heraRest⟩ := div_mod_span era
    (by omega : century * 36524 + (cycle * 1461 + (single * 365 + place)) < 146097)
  have hcenturies : min 3 ((century * 36524 + (cycle * 1461 + (single * 365 + place))) / 36524) = century :=
    min_span (by decide) hcentury (by omega)
  obtain ⟨hcycles, hcycleRest⟩ := div_mod_span cycle (by omega : single * 365 + place < 1461)
  have hsingles : min 3 ((single * 365 + place) / 365) = single := min_span (by decide) hsingle (by omega)
  rw [hdays]
  simp only [yearAndDay, heras, heraRest, hcenturies, Nat.add_sub_cancel_left, hcycles, hcycleRest, hsingles]
  rw [← hyear]

theorem ofDayNumber_dayNumber {d : Date} (h : d.IsValid) : ofDayNumber (dayNumber d) = d := by
  obtain ⟨hindex, hlength⟩ := monthLength_eq d.year h.month_pos h.month_le
  have hday := h.day_le
  have hpos := h.day_pos
  have hmonth := h.month_pos
  have hin : d.day - 1 < (monthLengths d.year)[d.month - 1] := by
    rw [← hlength]
    omega
  have hfirst : 1 + (d.month - 1) = d.month := by omega
  have hplace : d.day - 1 + 1 = d.day := by omega
  rw [ofDayNumber, dayNumber, Nat.add_assoc, yearAndDay_eq h.year_pos (place_lt_yearLength h)]
  dsimp only
  rw [daysBeforeMonth_eq, monthAndDay_eq 1 _ hindex hin, hfirst, hplace]

theorem ofDayNumber_eq (n : Nat) : ofDayNumber n = nthDay n :=
  calc ofDayNumber n = ofDayNumber (dayNumber (nthDay n)) := by rw [dayNumber_nthDay]
    _ = nthDay n := ofDayNumber_dayNumber (isValid_nthDay n)

theorem nthDay_dayNumber {d : Date} (h : d.IsValid) : nthDay (dayNumber d) = d := by
  rw [← ofDayNumber_eq, ofDayNumber_dayNumber h]

end Calendar

end FileExchange

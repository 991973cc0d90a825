import FileExchange.Proofs.Text.Pieces
import FileExchange.Proofs.Time.Calendar
import FileExchange.Time.HttpDate

/-!
# HTTP dates read back

An HTTP date names the second of universal time that a date-time lies in, whatever its offset: the fields of the text
are those of that second, the day of the week among them, and the text tells any two seconds apart. Without such a
second in the years 1 to 9999 there is no text.
-/

set_option autoImplicit false

namespace FileExchange

open Calendar

/-! ## Moments -/

namespace DateTime

/-- A date and a time of day that can be shown, with any offset. -/
structure IsProper (t : DateTime) : Prop where
  date : t.date.IsValid
  year_le : t.date.year ≤ 9999
  hour_lt : t.hour < 24
  minute_lt : t.minute < 60
  second_lt : t.second < 60
  microsecond_lt : t.microsecond < 1000000

/-- The moment of a date-time: so many microseconds of universal time after the start of year 1. -/
def Denotes (t : DateTime) (moment : Int) : Prop :=
  ∃ n : Nat, nthDay n = t.date ∧
    moment = (n * 86400 + t.hour * 3600 + t.minute * 60 + t.second) * 1000000 + t.microsecond - t.offset

def Simultaneous (t u : DateTime) : Prop :=
  ∃ moment, t.Denotes moment ∧ u.Denotes moment

/-- Two date-times in the same second of universal time. -/
def SameSecond (t u : DateTime) : Prop :=
  ∃ moment moment', t.Denotes moment ∧ u.Denotes moment' ∧ moment / 1000000 = moment' / 1000000

variable {t u : DateTime}

theorem denotes_iff (ht : t.IsProper) {moment : Int} : t.Denotes moment ↔ moment = t.microseconds := by
  have hcount : t.microseconds = ((dayNumber t.date : Int) * 86400 + t.hour * 3600 + t.minute * 60 + t.second) *
      1000000 + t.microsecond - t.offset := by
    simp [microseconds, shownSeconds]
  rw [hcount]
  constructor
  · rintro ⟨n, hn, rfl⟩
    rw [← hn, dayNumber_nthDay]
  · rintro rfl
    exact ⟨dayNumber t.date, nthDay_dayNumber ht.date, rfl⟩

theorem simultaneous_iff (ht : t.IsProper) (hu : u.IsProper) :
    Simultaneous t u ↔ t.microseconds = u.microseconds := by
  constructor
  · rintro ⟨moment, hmoment, hmoment'⟩
    rw [← (denotes_iff ht).mp hmoment, ← (denotes_iff hu).mp hmoment']
  · intro h
    exact ⟨t.microseconds, (denotes_iff ht).mpr rfl, (denotes_iff hu).mpr h⟩

theorem sameSecond_iff (ht : t.IsProper) (hu : u.IsProper) :
    SameSecond t u ↔ t.microseconds / 1000000 = u.microseconds / 1000000 := by
  constructor
  · rintro ⟨moment, moment', hmoment, hmoment', h⟩
    rwa [(denotes_iff ht).mp hmoment, (denotes_iff hu).mp hmoment'] at h
  · intro h
    exact ⟨_, _, (denotes_iff ht).mpr rfl, (denotes_iff hu).mpr rfl, h⟩

theorem toInstant?_eq_some {i : Instant} :
    t.toInstant? = some i ↔ t.microseconds / 1000000 = i.seconds ∧ i.seconds < Instant.secondLimit := by
  unfold toInstant? Instant.ofSeconds?
  simp only [Bool.and_eq_true, decide_eq_true_eq, Option.ite_none_right_eq_some, Option.some.injEq]
  constructor
  · rintro ⟨⟨hpos, hless⟩, rfl⟩
    have hseconds := Int.toNat_of_nonneg hpos
    rw [← hseconds] at hless
    exact ⟨hseconds.symm, Int.ofNat_lt.mp hless⟩
  · rintro ⟨hseconds, hless⟩
    rw [hseconds]
    exact ⟨⟨Int.natCast_nonneg _, Int.ofNat_lt.mpr hless⟩, rfl⟩

end DateTime

/-! ## Seconds of universal time -/

namespace Instant

/-- What universal time shows so many microseconds after the start of a second. -/
def shown (i : Instant) (microsecond : Nat) : DateTime where
  date := nthDay (i.seconds / 86400)
  hour := i.seconds % 86400 / 3600
  minute := i.seconds % 86400 / 60 % 60
  second := i.seconds % 86400 % 60
  microsecond := microsecond

variable {i : Instant} {microsecond : Nat}

theorem seconds_split (rest : Nat) : rest / 3600 * 3600 + rest / 60 % 60 * 60 + rest % 60 = rest := by
  omega

theorem shownSeconds_shown : (i.shown microsecond).shownSeconds = i.seconds := by
  have hrest := seconds_split (i.seconds % 86400)
  have hdays := Nat.div_add_mod' i.seconds 86400
  simp only [DateTime.shownSeconds, shown, dayNumber_nthDay]
  linarith

theorem isProper_shown (hi : i.seconds < secondLimit) (hmicrosecond : microsecond < 1000000) :
    (i.shown microsecond).IsProper := by
  have hdate : (nthDay (i.seconds / 86400)).IsValid := isValid_nthDay _
  have hday : dayNumber (nthDay (i.seconds / 86400)) < dayLimit := by
    rw [dayNumber_nthDay]
    exact Nat.div_lt_of_lt_mul (Nat.mul_comm dayLimit 86400 ▸ hi)
  have hrest : i.seconds % 86400 < 86400 := Nat.mod_lt _ (by decide)
  exact {
    date := hdate
    year_le := (dayNumber_lt_dayLimit_iff hdate).mp hday
    hour_lt := Nat.div_lt_of_lt_mul hrest
    minute_lt := Nat.mod_lt _ (by decide)
    second_lt := Nat.mod_lt _ (by decide)
    microsecond_lt := hmicrosecond }

/-- Universal time shows every proper date-time without an offset once. -/
theorem shown_shownSeconds {u : DateTime} (hu : u.IsProper) (hoffset : u.offset = 0) :
    shown ⟨u.shownSeconds⟩ u.microsecond = u := by
  have hhour := hu.hour_lt
  have hminute := hu.minute_lt
  have hsecond := hu.second_lt
  obtain ⟨hday, hrest⟩ := div_mod_span (dayNumber u.date)
    (by omega : u.hour * 3600 + (u.minute * 60 + u.second) < 86400)
  obtain ⟨hhours, -⟩ := div_mod_span u.hour (by omega : u.minute * 60 + u.second < 3600)
  obtain ⟨hminutes, hseconds⟩ := div_mod_span (u.hour * 60 + u.minute) hsecond
  obtain ⟨-, hminute'⟩ := div_mod_span u.hour hminute
  have hshown : u.shownSeconds = dayNumber u.date * 86400 + (u.hour * 3600 + (u.minute * 60 + u.second)) := by
    rw [DateTime.shownSeconds, Nat.add_assoc, Nat.add_assoc]
  -- The minute is what whole hours leave of the minutes of the day, not of its seconds.
  have htime : u.hour * 3600 + (u.minute * 60 + u.second) = (u.hour * 60 + u.minute) * 60 + u.second := by omega
  simp only [shown, hshown, hday, hrest, hhours, nthDay_dayNumber hu.date, ← hoffset]
  simp only [htime, hminutes, hseconds, hminute']

end Instant

namespace DateTime

variable {t u : DateTime}

theorem shownSeconds_lt (hu : u.IsProper) : u.shownSeconds < Instant.secondLimit := by
  have hday := (dayNumber_lt_dayLimit_iff hu.date).mpr hu.year_le
  have hhour := hu.hour_lt
  have hminute := hu.minute_lt
  have hsecond := hu.second_lt
  calc u.shownSeconds < (dayNumber u.date + 1) * 86400 := by
        rw [shownSeconds]
        omega
    _ ≤ dayLimit * 86400 := Nat.mul_le_mul_right 86400 hday

theorem toInstant?_of_simultaneous (ht : t.IsProper) (hu : u.IsProper) (hoffset : u.offset = 0)
    (h : Simultaneous t u) : t.toInstant? = some ⟨u.shownSeconds⟩ := by
  have hmicrosecond := hu.microsecond_lt
  refine toInstant?_eq_some.mpr ⟨?_, shownSeconds_lt hu⟩
  rw [(simultaneous_iff ht hu).mp h, microseconds, hoffset]
  dsimp only
  omega

theorem exists_simultaneous (ht : t.IsProper) {i : Instant} (h : t.toInstant? = some i) :
    ∃ u : DateTime, u.IsProper ∧ u.offset = 0 ∧ Simultaneous t u := by
  obtain ⟨hseconds, hless⟩ := toInstant?_eq_some.mp h
  -- Universal time shows the microseconds that the whole seconds leave, also where an offset made them negative.
  have hpos : 0 ≤ t.microseconds % 1000000 := Int.emod_nonneg _ (by decide)
  obtain ⟨microsecond, hmicrosecond⟩ := Int.eq_ofNat_of_zero_le hpos
  have hu := Instant.isProper_shown hless (by omega : microsecond < 1000000)
  refine ⟨i.shown microsecond, hu, rfl, (simultaneous_iff ht hu).mpr ?_⟩
  rw [microseconds.eq_def (i.shown microsecond), Instant.shownSeconds_shown]
  simp only [Instant.shown]
  omega

end DateTime

namespace HttpDate

/-! ## Reading -/

/-- What the fields of an HTTP date say. The days of the week count from Monday, which is 0. -/
structure Reading where
  weekday : Nat
  date : Date
  hour : Nat
  minute : Nat
  second : Nat
  deriving Repr, DecidableEq

def weekdayOf? : String → Option Nat
  | "Mon," => some 0
  | "Tue," => some 1
  | "Wed," => some 2
  | "Thu," => some 3
  | "Fri," => some 4
  | "Sat," => some 5
  | "Sun," => some 6
  | _ => none

def monthOf? : String → Option Nat
  | "Jan" => some 1
  | "Feb" => some 2
  | "Mar" => some 3
  | "Apr" => some 4
  | "May" => some 5
  | "Jun" => some 6
  | "Jul" => some 7
  | "Aug" => some 8
  | "Sep" => some 9
  | "Oct" => some 10
  | "Nov" => some 11
  | "Dec" => some 12
  | _ => none

def numeral? (s : String) : Option Nat :=
  if s.toList ≠ [] ∧ s.toList.all Char.isDigit then some (Nat.ofDigitChars 10 s.toList 0) else none

def twoDigits? (s : String) : Option Nat :=
  if s.toList.length = 2 then numeral? s else none

/-- The six fields stand between single spaces, and the parts of the time between colons. -/
def read? (s : String) : Option Reading :=
  match Text.splitText ' ' s with
  | [weekday, day, month, year, time, "GMT"] =>
    match Text.splitText ':' time with
    | [hour, minute, second] => do
      let date : Date := ⟨← numeral? year, ← monthOf? month, ← twoDigits? day⟩
      return ⟨← weekdayOf? weekday, date, ← twoDigits? hour, ← twoDigits? minute, ← twoDigits? second⟩
    | _ => none
  | _ => none

/-! ## Fields -/

theorem numeral?_toString (n : Nat) : numeral? (toString n) = some n := by
  have hdigits : (toString n).toList.all Char.isDigit = true :=
    List.all_eq_true.mpr fun _ hc => Text.isDigit_of_mem_toString hc
  rw [Nat.toString_eq_repr, Nat.toList_repr] at hdigits
  rw [numeral?, Nat.toString_eq_repr, Nat.toList_repr, if_pos ⟨Nat.toDigits_ne_nil, hdigits⟩,
    Nat.ofDigitChars_ten_toDigits]

theorem twoDigits?_twoDigits : ∀ n < 100, twoDigits? (twoDigits n) = some n := by
  decide

theorem weekdayOf?_getD : ∀ n < 7, weekdayOf? (weekdayNames.getD n "" ++ ",") = some n := by
  decide

theorem monthOf?_getD : ∀ n < 12, monthOf? (monthNames.getD n "") = some (n + 1) := by
  decide

/-! ## Pieces of the text -/

theorem notMem_twoDigits {c : Char} (hc : c.isDigit = false) (n : Nat) : c ∉ (twoDigits n).toList := by
  have hzero : c ≠ '0' := by
    rintro rfl
    exact absurd hc (by decide)
  unfold twoDigits
  split
  · simpa [hzero] using Text.notMem_toString hc n
  · exact Text.notMem_toString hc n

/-- The time of day, its parts between colons. -/
def timeText (rest : Nat) : String :=
  Text.joinTexts ":" [twoDigits (rest / 3600), twoDigits (rest / 60 % 60), twoDigits (rest % 60)]

theorem splitText_timeText (rest : Nat) : Text.splitText ':' (timeText rest) =
    [twoDigits (rest / 3600), twoDigits (rest / 60 % 60), twoDigits (rest % 60)] := by
  have hcolon : ':'.isDigit = false := by decide
  refine Text.splitText_joinTexts (List.cons_ne_nil _ _) ?_
  simp only [List.forall_mem_cons]
  exact ⟨notMem_twoDigits hcolon _, notMem_twoDigits hcolon _, notMem_twoDigits hcolon _, by simp⟩

theorem blank_notMem_timeText (rest : Nat) : ' ' ∉ (timeText rest).toList := by
  have hblank : ∀ n, ' ' ∉ (twoDigits n).toList := notMem_twoDigits (by decide)
  simp [timeText, Text.joinTexts, hblank]

/-- What stands between the spaces. -/
def pieces (i : Instant) : List String :=
  [weekdayNames.getD (weekday (i.seconds / 86400)) "" ++ ",", twoDigits (nthDay (i.seconds / 86400)).day,
    monthNames.getD ((nthDay (i.seconds / 86400)).month - 1) "", toString (nthDay (i.seconds / 86400)).year,
    timeText (i.seconds % 86400), "GMT"]

theorem text_eq (i : Instant) : text i = Text.joinTexts " " (pieces i) := by
  rw [text, ofDayNumber_eq, ← String.toList_inj]
  simp [pieces, timeText, Text.joinTexts]

theorem month_sub_one_lt (n : Nat) : (nthDay n).month - 1 < 12 :=
  Nat.sub_one_lt_of_le (isValid_nthDay n).month_pos (isValid_nthDay n).month_le

theorem splitText_text (i : Instant) : Text.splitText ' ' (text i) = pieces i := by
  have hblank : ' '.isDigit = false := by decide
  have hweekday : ∀ n < 7, ' ' ∉ (weekdayNames.getD n "" ++ ",").toList := by decide
  have hmonth : ∀ n < 12, ' ' ∉ (monthNames.getD n "").toList := by decide
  rw [text_eq]
  refine Text.splitText_joinTexts (List.cons_ne_nil _ _) ?_
  simp only [pieces, List.forall_mem_cons]
  exact ⟨hweekday _ (Nat.mod_lt _ (by decide)), notMem_twoDigits hblank _, hmonth _ (month_sub_one_lt _),
    Text.notMem_toString hblank _, blank_notMem_timeText _, by decide, by simp⟩

/-- The text of a second shows what universal time shows in it. -/
theorem read?_text (i : Instant) (microsecond : Nat) : read? (text i) = some
    ⟨weekday (i.seconds / 86400), (i.shown microsecond).date, (i.shown microsecond).hour,
      (i.shown microsecond).minute, (i.shown microsecond).second⟩ := by
  have hvalid := isValid_nthDay (i.seconds / 86400)
  have hweekday := weekdayOf?_getD (weekday (i.seconds / 86400)) (Nat.mod_lt _ (by decide))
  have hmonth := monthOf?_getD _ (month_sub_one_lt (i.seconds / 86400))
  rw [Nat.sub_add_cancel hvalid.month_pos] at hmonth
  have hday := twoDigits?_twoDigits (nthDay (i.seconds / 86400)).day
    (Nat.lt_of_le_of_lt (hvalid.day_le.trans (monthLength_le _ _)) (by decide))
  have hrest : i.seconds % 86400 < 86400 := Nat.mod_lt _ (by decide)
  have hhour := twoDigits?_twoDigits (i.seconds % 86400 / 3600) (by omega)
  have hminute := twoDigits?_twoDigits (i.seconds % 86400 / 60 % 60) (by omega)
  have hsecond := twoDigits?_twoDigits (i.seconds % 86400 % 60) (by omega)
  rw [read?, splitText_text]
  simp only [pieces, splitText_timeText, hweekday, hmonth, hday, hhour, hminute, hsecond, numeral?_toString]
  rfl

theorem text_injective : Function.Injective text := by
  intro i i' h
  have hread := read?_text i 0
  rw [h, read?_text i' 0, Option.some.injEq, Reading.mk.injEq] at hread
  obtain ⟨-, hdate, hhour, hminute, hsecond⟩ := hread
  have hshown : (i.shown 0).shownSeconds = (i'.shown 0).shownSeconds := by
    rw [DateTime.shownSeconds, DateTime.shownSeconds, hdate, hhour, hminute, hsecond]
  rw [Instant.shownSeconds_shown, Instant.shownSeconds_shown] at hshown
  exact congrArg Instant.mk hshown

/-! ## What a date-time is written as -/

variable {t u : DateTime}

theorem ofDateTime_eq_ok {s : String} : ofDateTime t = .ok s ↔ ∃ i, t.toInstant? = some i ∧ text i = s := by
  cases h : t.toInstant? <;> simp [ofDateTime, h]

theorem ofDateTime_eq_error : ofDateTime t = .error {} ↔ t.toInstant? = none := by
  cases h : t.toInstant? <;> simp [ofDateTime, h]

/-- The text of a date-time names its second of universal time. -/
structure NamesSecond (t : DateTime) : Prop where
  /-- It is refused exactly when no date-time of the years 1 to 9999 shows its moment in universal time. -/
  refused : ofDateTime t = .error {} ↔
    ∀ u : DateTime, u.IsProper → u.offset = 0 → ¬ DateTime.Simultaneous t u
  /-- What universal time shows at its moment is what the text reads as, with the weekday of that date. -/
  reads : ∀ u : DateTime, u.IsProper → u.offset = 0 → DateTime.Simultaneous t u → ∃ s weekday,
    ofDateTime t = .ok s ∧ read? s = some ⟨weekday, u.date, u.hour, u.minute, u.second⟩ ∧ Falls u.date weekday
  /-- Another date-time has the same text exactly when it lies in the same second of universal time. -/
  same : ∀ s, ofDateTime t = .ok s → ∀ t' : DateTime, t'.IsProper →
    (ofDateTime t' = .ok s ↔ DateTime.SameSecond t t')

theorem refused_iff (ht : t.IsProper) : ofDateTime t = .error {} ↔
    ∀ u : DateTime, u.IsProper → u.offset = 0 → ¬ DateTime.Simultaneous t u := by
  rw [ofDateTime_eq_error]
  constructor
  · intro hnone u hu hoffset hsame
    rw [DateTime.toInstant?_of_simultaneous ht hu hoffset hsame] at hnone
    exact absurd hnone (Option.some_ne_none _)
  · intro hnever
    cases h : t.toInstant? with
    | none => rfl
    | some i =>
      obtain ⟨u, hu, hoffset, hsame⟩ := DateTime.exists_simultaneous ht h
      exact absurd hsame (hnever u hu hoffset)

theorem read?_of_simultaneous (ht : t.IsProper) (hu : u.IsProper) (hoffset : u.offset = 0)
    (h : DateTime.Simultaneous t u) : ∃ s weekday, ofDateTime t = .ok s ∧
      read? s = some ⟨weekday, u.date, u.hour, u.minute, u.second⟩ ∧ Falls u.date weekday := by
  have hinstant := DateTime.toInstant?_of_simultaneous ht hu hoffset h
  have hread := read?_text ⟨u.shownSeconds⟩ u.microsecond
  have hfalls := falls_nthDay (u.shownSeconds / 86400)
  have hshown := Instant.shown_shownSeconds hu hoffset
  have hdate : nthDay (u.shownSeconds / 86400) = u.date := congrArg DateTime.date hshown
  rw [hshown] at hread
  rw [hdate] at hfalls
  exact ⟨_, _, ofDateTime_eq_ok.mpr ⟨_, hinstant, rfl⟩, hread, hfalls⟩

theorem ofDateTime_eq_ok_iff (ht : t.IsProper) {s : String} (h : ofDateTime t = .ok s) {t' : DateTime}
    (ht' : t'.IsProper) : ofDateTime t' = .ok s ↔ DateTime.SameSecond t t' := by
  obtain ⟨i, hi, rfl⟩ := ofDateTime_eq_ok.mp h
  obtain ⟨hseconds, hless⟩ := DateTime.toInstant?_eq_some.mp hi
  rw [DateTime.sameSecond_iff ht ht', hseconds]
  constructor
  · intro h'
    obtain ⟨i', hi', htext⟩ := ofDateTime_eq_ok.mp h'
    rw [← text_injective htext]
    exact (DateTime.toInstant?_eq_some.mp hi').1.symm
  · intro hsame
    exact ofDateTime_eq_ok.mpr ⟨i, DateTime.toInstant?_eq_some.mpr ⟨hsame.symm, hless⟩, rfl⟩

theorem namesSecond (ht : t.IsProper) : NamesSecond t where
  refused := refused_iff ht
  reads := fun _ hu hoffset h => read?_of_simultaneous ht hu hoffset h
  same := fun _ h _ ht' => ofDateTime_eq_ok_iff ht h ht'

/-- Half past midnight on the first of March, ninety minutes ahead: in universal time it is still February, which had
28 days in 1900. -/
def firstOfMarch : DateTime :=
  { date := ⟨1900, 3, 1⟩, hour := 0, minute := 30, second := 0, microsecond := 999999, offset := 5400000000 }

theorem namesSecond_firstOfMarch : firstOfMarch.IsProper ∧ NamesSecond firstOfMarch ∧
    ofDateTime firstOfMarch = .ok "Wed, 28 Feb 1900 23:00:00 GMT" := by
  have hproper : firstOfMarch.IsProper :=
    ⟨⟨by decide, by decide, by decide, by decide, by decide⟩,
      by decide, by decide, by decide, by decide, by decide⟩
  exact ⟨hproper, namesSecond hproper, by decide⟩

/-- A microsecond before year 1. -/
example : ofDateTime { date := ⟨1, 1, 1⟩, hour := 0, minute := 0, second := 0, offset := 1 } = .error {} := by
  decide

end HttpDate

end FileExchange

import Mathlib.Logic.Function.Iterate
import Mathlib.Tactic.IntervalCases

/-!
# The proleptic Gregorian calendar

Dates of every year, the day after a date, and the signed number of days between two dates, which is counted by going from one
day to the next. `Numbering` says what makes a function number the dates, and `Numbering.daysBetween_iff` that it then counts
the days; `dayNumber` is one.
-/

namespace Calendar

/-- Every fourth year is a leap year, except centuries, except every fourth century. -/
def IsLeap (year : Int) : Prop := year % 4 = 0 ∧ (year % 100 ≠ 0 ∨ year % 400 = 0)

instance (year : Int) : Decidable (IsLeap year) := inferInstanceAs (Decidable (_ ∧ _))

/-- The number of days of a month. -/
def monthLength (year : Int) (month : Nat) : Nat :=
  if month = 2 then if IsLeap year then 29 else 28
  else if month = 4 ∨ month = 6 ∨ month = 9 ∨ month = 11 then 30
  else 31

theorem monthLength_pos (year : Int) (month : Nat) : 1 ≤ monthLength year month := by
  unfold monthLength
  split
  · split <;> decide
  · split <;> decide

theorem monthLength_le (year : Int) (month : Nat) : monthLength year month ≤ 31 := by
  unfold monthLength
  split
  · split <;> decide
  · split <;> decide

/-- A date. -/
@[ext] structure Date where
  year : Int
  month : Nat
  day : Nat
  month_pos : 1 ≤ month
  month_le : month ≤ 12
  day_pos : 1 ≤ day
  day_le : day ≤ monthLength year month
deriving DecidableEq

namespace Date

/-- The first of January of a year. -/
def newYear (year : Int) : Date where
  year := year
  month := 1
  day := 1
  month_pos := Nat.le_refl _
  month_le := by decide
  day_pos := Nat.le_refl _
  day_le := monthLength_pos ..

/-- The order of the calendar: by year, then by month, then by day. -/
def Before (d e : Date) : Prop :=
  d.year < e.year ∨ d.year = e.year ∧ (d.month < e.month ∨ d.month = e.month ∧ d.day < e.day)

/-- The day after a date. -/
def next (d : Date) : Date :=
  if hday : d.day < monthLength d.year d.month then
    { d with day := d.day + 1, day_pos := Nat.le_add_left .., day_le := hday }
  else if hmonth : d.month < 12 then
    { year := d.year, month := d.month + 1, day := 1, month_pos := Nat.le_add_left .., month_le := hmonth,
      day_pos := Nat.le_refl _, day_le := monthLength_pos .. }
  else
    { year := d.year + 1, month := 1, day := 1, month_pos := Nat.le_refl _, month_le := by decide,
      day_pos := Nat.le_refl _, day_le := monthLength_pos .. }

/-- The date so many days after a date. -/
def after (d : Date) (days : Nat) : Date := next^[days] d

end Date

/-- The signed number of days from a date to another. -/
inductive DaysBetween (d e : Date) : Int → Prop where
  | forward (days : Nat) (h : d.after days = e) : DaysBetween d e days
  | backward (days : Nat) (h : e.after days = d) : DaysBetween d e (-days)

/-! ## Numbering the dates -/

/-- A function numbers the dates when it counts one for each day and gives no two dates the same number. -/
structure Numbering (number : Date → Int) : Prop where
  next : ∀ d, number d.next = number d + 1
  injective : Function.Injective number

variable {number : Date → Int} {d e : Date} {n : Int}

/-- It counts the days after a date. -/
theorem Numbering.after (h : Numbering number) (d : Date) (days : Nat) : number (d.after days) = number d + days := by
  unfold Date.after
  induction days with
  | zero => rw [Function.iterate_zero, id_eq, Int.natCast_zero, Int.add_zero]
  | succ days ih =>
    rw [Function.iterate_succ_apply', h.next, ih]
    omega

/-- It counts the days between two dates. -/
theorem Numbering.daysBetween_iff (h : Numbering number) : DaysBetween d e n ↔ n = number e - number d := by
  constructor
  · intro hdays
    cases hdays with
    | forward days heq =>
      rw [← heq, h.after]
      omega
    | backward days heq =>
      rw [← heq, h.after]
      omega
  · intro hn
    rcases Int.le_total 0 n with hpos | hneg
    · obtain ⟨days, rfl⟩ := Int.eq_ofNat_of_zero_le hpos
      refine .forward days (h.injective ?_)
      rw [h.after]
      omega
    · obtain ⟨days, hdays⟩ := Int.eq_ofNat_of_zero_le (Int.neg_nonneg_of_nonpos hneg)
      obtain rfl : n = -(days : Int) := by omega
      refine .backward days (h.injective ?_)
      rw [h.after]
      omega

/-- Every number from that of a date on is that of a date. -/
theorem Numbering.exists_date (h : Numbering number) (hle : number d ≤ n) : ∃ e, number e = n := by
  refine ⟨d.after (n - number d).toNat, ?_⟩
  rw [h.after]
  omega

/-! ## The days of years that begin in March -/

/-- The days before the March of a year, from that of the year 0. -/
def yearStart (year : Int) : Int := 365 * year + year / 4 - year / 100 + year / 400

/-- The days before a month of a year that begins in March, which is its month 0. -/
def monthStart (month : Nat) : Nat := (153 * month + 2) / 5

/-- The number of a month in a year that begins in March, from 0 on. -/
def marchMonth (month : Nat) : Nat := if 2 < month then month - 3 else month + 9

namespace Date

/-- The year a date is in if years begin in March. -/
def marchYear (d : Date) : Int := if d.month ≤ 2 then d.year - 1 else d.year

/-- The day of that year it is, from 0 on. -/
def marchDay (d : Date) : Nat := monthStart (marchMonth d.month) + d.day - 1

/-- The days from the first of March of the year 0 on. -/
def dayNumber (d : Date) : Int := yearStart d.marchYear + d.marchDay

theorem marchYear_of_le (d : Date) (h : d.month ≤ 2) : d.marchYear = d.year - 1 := if_pos h

theorem marchYear_of_lt (d : Date) (h : 2 < d.month) : d.marchYear = d.year := if_neg (Nat.not_le.2 h)

end Date

/-- A year that begins in March has a leap day at its end if the next year has one. -/
theorem yearStart_succ (year : Int) : yearStart (year + 1) = yearStart year + 365 + if IsLeap (year + 1) then 1 else 0 := by
  unfold yearStart
  by_cases h : IsLeap (year + 1)
  · rw [if_pos h]
    unfold IsLeap at h
    omega
  · rw [if_neg h]
    unfold IsLeap at h
    omega

/-- Years follow each other. -/
theorem yearStart_mono {year later : Int} (h : year ≤ later) : yearStart year ≤ yearStart later := by
  unfold yearStart
  omega

/-- Months follow each other. -/
theorem monthStart_mono {month later : Nat} (h : month ≤ later) : monthStart month ≤ monthStart later := by
  unfold monthStart
  omega

/-- Every month but February has the days up to the next one. -/
theorem monthStart_succ (year : Int) {month : Nat} (hpos : 1 ≤ month) (hle : month ≤ 12) (hfebruary : month ≠ 2) :
    monthStart (marchMonth month) + monthLength year month = monthStart (marchMonth month + 1) := by
  interval_cases month
  all_goals first
    | exact absurd rfl hfebruary
    | rfl

/-- February has those up to the end of the year, which are one more in a leap year. -/
theorem monthLength_february (year : Int) : (monthLength year 2 : Int) = 28 + if IsLeap year then 1 else 0 := by
  unfold monthLength
  by_cases h : IsLeap year
  · rw [if_pos rfl, if_pos h, if_pos h]
    rfl
  · rw [if_pos rfl, if_neg h, if_neg h]
    rfl

namespace Date

/-- A date that is not in February is before the next month. -/
theorem le_monthStart (d : Date) (h : d.month ≠ 2) :
    marchMonth d.month < 11 ∧ monthStart (marchMonth d.month) + d.day ≤ monthStart (marchMonth d.month + 1) := by
  have hpos := d.month_pos
  have hle := d.month_le
  refine ⟨?_, ?_⟩
  · unfold marchMonth
    split <;> omega
  · rw [← monthStart_succ d.year hpos hle h]
    exact Nat.add_le_add_left d.day_le _

/-- A date is before the next year. -/
theorem dayNumber_lt (d : Date) : d.dayNumber < yearStart (d.marchYear + 1) := by
  have hday := d.day_pos
  have hstart : monthStart 11 = 337 := rfl
  unfold dayNumber marchDay
  rw [yearStart_succ]
  by_cases hfebruary : d.month = 2
  · have hlen := d.day_le
    have hmonth : marchMonth d.month = 11 := by rw [hfebruary]; rfl
    have hyear : d.marchYear + 1 = d.year := by
      rw [d.marchYear_of_le (Nat.le_of_eq hfebruary)]
      omega
    rw [hfebruary] at hlen
    rw [hmonth, hyear, hstart]
    have hfeb := monthLength_february d.year
    omega
  · obtain ⟨hlt, hle⟩ := d.le_monthStart hfebruary
    have hmono := monthStart_mono (Nat.add_one_le_iff.2 hlt)
    have hleap : (0 : Int) ≤ if IsLeap (d.marchYear + 1) then 1 else 0 := by split <;> decide
    omega

/-- It is not before its own. -/
theorem le_dayNumber (d : Date) : yearStart d.marchYear ≤ d.dayNumber := by
  unfold dayNumber
  omega

/-- Dates of earlier years that begin in March have lower numbers. -/
theorem dayNumber_lt_of_marchYear {d e : Date} (h : d.marchYear < e.marchYear) : d.dayNumber < e.dayNumber :=
  Int.lt_of_lt_of_le d.dayNumber_lt (Int.le_trans (yearStart_mono h) e.le_dayNumber)

/-- Dates of earlier months of such a year as well. -/
theorem marchDay_lt_of_marchMonth {d e : Date} (h : marchMonth d.month < marchMonth e.month) : d.marchDay < e.marchDay := by
  have hday := d.day_pos
  have hday' := e.day_pos
  have hlast : marchMonth e.month ≤ 11 := by
    have := e.month_le
    unfold marchMonth
    split <;> omega
  have hfebruary : d.month ≠ 2 := by
    intro hfebruary
    have heleven : marchMonth 2 = 11 := rfl
    rw [hfebruary, heleven] at h
    omega
  have hle := (d.le_monthStart hfebruary).2
  have hmono := monthStart_mono (Nat.add_one_le_iff.2 h)
  unfold marchDay
  omega

/-- The year and the month of a date are given by those of the year that begins in March. -/
theorem year_month_eq {d e : Date} (hyear : d.marchYear = e.marchYear) (hmonth : marchMonth d.month = marchMonth e.month) :
    d.year = e.year ∧ d.month = e.month := by
  have hd := d.month_pos
  have he := e.month_pos
  have hd' := d.month_le
  have he' := e.month_le
  unfold marchMonth at hmonth
  unfold marchYear at hyear
  have hsame : d.month = e.month := by
    split at hmonth <;> split at hmonth <;> omega
  rw [hsame] at hyear
  refine ⟨?_, hsame⟩
  split at hyear <;> omega

end Date

/-- The number of the first of January of a year. -/
def januaryFirst (year : Int) : Int := yearStart (year - 1) + monthStart 10

theorem januaryFirst_eq (year : Int) :
    januaryFirst year = 365 * (year - 1) + (year - 1) / 4 - (year - 1) / 100 + (year - 1) / 400 + 306 := rfl

/-- Those of the years follow each other. -/
theorem januaryFirst_mono {year later : Int} (h : year ≤ later) : januaryFirst year ≤ januaryFirst later :=
  Int.add_le_add_right (yearStart_mono (Int.sub_le_sub_right h 1)) _

namespace Date

/-- A date is not before the first of January of its year. -/
theorem januaryFirst_le (d : Date) : januaryFirst d.year ≤ d.dayNumber := by
  have hday := d.day_pos
  have hstart : monthStart 10 = 306 := rfl
  unfold januaryFirst dayNumber marchDay
  by_cases hmonth : d.month ≤ 2
  · have hlate : 10 ≤ marchMonth d.month := by
      have hpos := d.month_pos
      unfold marchMonth
      rw [if_neg (Nat.not_lt.2 hmonth)]
      omega
    have hmono := monthStart_mono hlate
    rw [d.marchYear_of_le hmonth]
    omega
  · have hyear := yearStart_succ (d.year - 1)
    have hleap : (0 : Int) ≤ if IsLeap (d.year - 1 + 1) then 1 else 0 := by split <;> decide
    rw [Int.sub_add_cancel] at hyear hleap
    rw [d.marchYear_of_lt (Nat.lt_of_not_le hmonth)]
    omega

/-- It is before that of the next one. -/
theorem lt_januaryFirst (d : Date) : d.dayNumber < januaryFirst (d.year + 1) := by
  have hday := d.day_pos
  have hstart : monthStart 10 = 306 := rfl
  unfold januaryFirst
  rw [Int.add_sub_cancel]
  by_cases hmonth : d.month ≤ 2
  · have hlt := d.dayNumber_lt
    rw [d.marchYear_of_le hmonth, Int.sub_add_cancel] at hlt
    omega
  · obtain ⟨-, hle⟩ := d.le_monthStart (by omega)
    have hearly : marchMonth d.month + 1 ≤ 10 := by
      have hlast := d.month_le
      unfold marchMonth
      rw [if_pos (Nat.lt_of_not_le hmonth)]
      omega
    have hmono := monthStart_mono hearly
    unfold dayNumber marchDay
    rw [d.marchYear_of_lt (Nat.lt_of_not_le hmonth)]
    omega

/-- The year of a date is known from its number. -/
theorem le_year_iff (d : Date) (year : Int) : year ≤ d.year ↔ januaryFirst year ≤ d.dayNumber := by
  constructor
  · exact fun h => Int.le_trans (januaryFirst_mono h) d.januaryFirst_le
  · intro h
    by_contra hlt
    have hmono := januaryFirst_mono (Int.add_one_le_of_lt (Int.lt_of_not_ge hlt))
    have hlast := d.lt_januaryFirst
    omega

/-- A date of some years has a number of these years. -/
theorem dayNumber_bounds (d : Date) {first last : Int} (hfirst : first ≤ d.year) (hlast : d.year ≤ last) :
    januaryFirst first ≤ d.dayNumber ∧ d.dayNumber < januaryFirst (last + 1) :=
  ⟨(d.le_year_iff first).1 hfirst, Int.lt_of_lt_of_le d.lt_januaryFirst (januaryFirst_mono (Int.add_le_add_right hlast 1))⟩

end Date

namespace Date

/-- Earlier dates have lower numbers. -/
theorem dayNumber_lt_of_before {d e : Date} (h : d.Before e) : d.dayNumber < e.dayNumber := by
  rcases h with hyear | ⟨hyear, hmonth | ⟨hmonth, hday⟩⟩
  · have hnext := januaryFirst_mono (Int.add_one_le_of_lt hyear)
    exact Int.lt_of_lt_of_le d.lt_januaryFirst (Int.le_trans hnext e.januaryFirst_le)
  · by_cases hmarch : d.month ≤ 2 ∧ 2 < e.month
    · -- January and February belong to the year before.
      refine dayNumber_lt_of_marchYear ?_
      rw [d.marchYear_of_le hmarch.1, e.marchYear_of_lt hmarch.2]
      omega
    · have hlt : marchMonth d.month < marchMonth e.month := by
        unfold marchMonth
        split <;> split <;> omega
      have hsame : d.marchYear = e.marchYear := by
        unfold marchYear
        split <;> split <;> omega
      have hdays := marchDay_lt_of_marchMonth hlt
      unfold dayNumber
      rw [hsame]
      omega
  · have hpos := d.day_pos
    unfold dayNumber marchDay marchYear
    rw [hyear, hmonth]
    omega

/-- Of two dates one is the earlier. -/
theorem before_trichotomy (d e : Date) : d.Before e ∨ d = e ∨ e.Before d := by
  unfold Before
  rw [Date.ext_iff]
  omega

/-- The numbers are in the order of the calendar. -/
theorem before_iff (d e : Date) : d.Before e ↔ d.dayNumber < e.dayNumber := by
  constructor
  · exact dayNumber_lt_of_before
  · intro hlt
    rcases before_trichotomy d e with h | rfl | h
    · exact h
    · exact absurd hlt (Int.lt_irrefl _)
    · exact absurd (dayNumber_lt_of_before h) (Int.lt_asymm hlt)

end Date

/-- The day after the last one of a month is the first of the next. -/
theorem monthStart_next (year : Int) {month : Nat} (hpos : 1 ≤ month) (hlt : month < 12) :
    yearStart (if month + 1 ≤ 2 then year - 1 else year) + (monthStart (marchMonth (month + 1)) : Int) =
      yearStart (if month ≤ 2 then year - 1 else year) + monthStart (marchMonth month) + monthLength year month := by
  by_cases hfebruary : month = 2
  · -- March begins the next year.
    have hyear := yearStart_succ (year - 1)
    rw [Int.sub_add_cancel] at hyear
    have hlast : monthStart (marchMonth 2) = 337 := rfl
    have hfirst : monthStart (marchMonth (2 + 1)) = 0 := rfl
    rw [hfebruary, monthLength_february, if_neg (by decide), if_pos (by decide), hyear, hlast, hfirst]
    omega
  · have hnext := monthStart_succ year hpos (Nat.le_of_lt hlt) hfebruary
    have hmonth : marchMonth (month + 1) = marchMonth month + 1 := by
      unfold marchMonth
      split <;> split <;> omega
    have hsame : (if month + 1 ≤ 2 then year - 1 else year) = if month ≤ 2 then year - 1 else year := by
      split <;> split <;> omega
    rw [hmonth, hsame, ← hnext]
    omega

/-- The day numbers number the dates. -/
theorem numbering_dayNumber : Numbering Date.dayNumber where
  next d := by
    have hday := d.day_pos
    have hlen := d.day_le
    have hnumber : d.dayNumber =
        yearStart (if d.month ≤ 2 then d.year - 1 else d.year) + ((monthStart (marchMonth d.month) + d.day - 1 : Nat) : Int) := rfl
    unfold Date.next
    split
    · show yearStart (if d.month ≤ 2 then d.year - 1 else d.year) +
        ((monthStart (marchMonth d.month) + (d.day + 1) - 1 : Nat) : Int) = _
      omega
    · rename_i hlast
      split
      · rename_i hmonth
        have hnext := monthStart_next d.year d.month_pos hmonth
        show yearStart (if d.month + 1 ≤ 2 then d.year - 1 else d.year) +
          ((monthStart (marchMonth (d.month + 1)) + 1 - 1 : Nat) : Int) = _
        omega
      · rename_i hmonth
        have hdecember : d.month = 12 := Nat.le_antisymm d.month_le (Nat.le_of_not_lt hmonth)
        have hnext := monthStart_succ d.year d.month_pos d.month_le (by omega)
        show yearStart (if 1 ≤ 2 then d.year + 1 - 1 else d.year + 1) + ((monthStart (marchMonth 1) + 1 - 1 : Nat) : Int) = _
        rw [hnumber, if_pos (by decide), if_neg (by omega)]
        rw [hdecember] at hnext hlen hlast ⊢
        have hmonths : monthStart (marchMonth 12 + 1) = monthStart (marchMonth 1) := rfl
        rw [hmonths] at hnext
        rw [Int.add_sub_cancel]
        omega
  injective := by
    intro d e h
    have hyear : d.marchYear = e.marchYear := by
      rcases Int.lt_trichotomy d.marchYear e.marchYear with hlt | heq | hgt
      · exact absurd h (Int.ne_of_lt (Date.dayNumber_lt_of_marchYear hlt))
      · exact heq
      · exact absurd h.symm (Int.ne_of_lt (Date.dayNumber_lt_of_marchYear hgt))
    have hmarchDay : d.marchDay = e.marchDay := by
      unfold Date.dayNumber at h
      rw [hyear] at h
      omega
    have hmonth : marchMonth d.month = marchMonth e.month := by
      rcases Nat.lt_trichotomy (marchMonth d.month) (marchMonth e.month) with hlt | heq | hgt
      · exact absurd hmarchDay (Nat.ne_of_lt (Date.marchDay_lt_of_marchMonth hlt))
      · exact heq
      · exact absurd hmarchDay.symm (Nat.ne_of_lt (Date.marchDay_lt_of_marchMonth hgt))
    have hday : d.day = e.day := by
      have hd := d.day_pos
      have he := e.day_pos
      unfold Date.marchDay at hmarchDay
      rw [hmonth] at hmarchDay
      omega
    obtain ⟨hyear', hmonth'⟩ := Date.year_month_eq hyear hmonth
    exact Date.ext hyear' hmonth' hday

end Calendar

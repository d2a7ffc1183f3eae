import RociaSdk.Lemmas.TimestampAux

/-!
# The days of a date

`days_from_civil` counts the days from the epoch to a date of any year, before or after it, as long as its arithmetic has room
for them: it goes up by one with every day of the calendar.
-/

namespace RociaSdk

/-- `days_from_civil` is called on the date, and its arithmetic does not overflow. -/
def DaysOf (date : Calendar.Date) (days : Int64) : Prop :=
  ∃ (year : Int64) (month day : UInt32), year.toInt = date.year ∧ month.toNat = date.month ∧ day.toNat = date.day ∧
    (daysFromCivilI64 year month day : Checked String Int64) = .ok days

namespace CivilAux

open TimestampAux

/-- Arithmetic goes on with a number that it has room for. -/
theorem i64_bind_eq_ok_iff {ε α : Type} {n : Int} {k : Int → Checked ε α} {value : α} :
    (Checked.i64 n >>= k : Checked ε α) = .ok value ↔ (-2 ^ 63 ≤ n ∧ n < 2 ^ 63) ∧ k n = .ok value := by
  unfold Checked.i64
  by_cases h : -2 ^ 63 ≤ n ∧ n < 2 ^ 63
  · rw [if_pos h, ok_bind]
    exact (and_iff_right h).symm
  · rw [if_neg h]
    exact ⟨fun heq => (nomatch heq), fun heq => absurd heq.1 h⟩

/-- It ends with a number that it has room for. -/
theorem toI64_eq_ok_iff_and {ε : Type} {n : Int} {s : Int64} :
    (Checked.toI64 n : Checked ε Int64) = .ok s ↔ (-2 ^ 63 ≤ n ∧ n < 2 ^ 63) ∧ s.toInt = n := by
  by_cases h : -2 ^ 63 ≤ n ∧ n < 2 ^ 63
  · rw [toI64_eq_ok_iff h]
    exact (and_iff_right h).symm
  · unfold Checked.toI64
    rw [if_neg h]
    exact ⟨fun heq => (nomatch heq), fun heq => absurd heq.1 h⟩

/-- The arithmetic overflows exactly when the days of the date, or these from the March of the year 0 on, do not fit. -/
theorem daysFromCivilI64_eq_ok_iff {ε : Type} (date : Calendar.Date) {year : Int64} {month day : UInt32}
    (hyear : year.toInt = date.year) (hmonth : month.toNat = date.month) (hday : day.toNat = date.day) {days : Int64} :
    (daysFromCivilI64 year month day : Checked ε Int64) = .ok days ↔
      (-2 ^ 63 ≤ date.dayNumber - 719468 ∧ date.dayNumber < 2 ^ 63) ∧ days.toInt = date.dayNumber - 719468 := by
  have hpos := date.day_pos
  have hle := Nat.le_trans date.day_le (Calendar.monthLength_le ..)
  have hmarch : Calendar.marchMonth date.month ≤ 11 := by
    have := date.month_le
    unfold Calendar.marchMonth
    split <;> omega
  have hstart : Calendar.monthStart (Calendar.marchMonth date.month) ≤ 337 := Calendar.monthStart_mono hmarch
  unfold daysFromCivilI64
  rw [hyear, hmonth, hday]
  simp only [i64_bind_eq_ok_iff, toI64_eq_ok_iff_and, era_eq, shiftedYear_eq, shiftedMonth_eq, monthDays_eq]
  have hfour : (date.marchYear - date.marchYear / 400 * 400).tdiv 4 = (date.marchYear - date.marchYear / 400 * 400) / 4 :=
    Int.tdiv_eq_ediv_of_nonneg (by omega)
  have hcentury :
      (date.marchYear - date.marchYear / 400 * 400).tdiv 100 = (date.marchYear - date.marchYear / 400 * 400) / 100 :=
    Int.tdiv_eq_ediv_of_nonneg (by omega)
  rw [hfour, hcentury]
  have hnumber : date.dayNumber = date.marchYear / 400 * 146097 +
      ((date.marchYear - date.marchYear / 400 * 400) * 365 + (date.marchYear - date.marchYear / 400 * 400) / 4 -
        (date.marchYear - date.marchYear / 400 * 400) / 100 +
        ((Calendar.monthStart (Calendar.marchMonth date.month) : Int) + date.day - 1)) := by
    unfold Calendar.Date.dayNumber Calendar.Date.marchDay Calendar.yearStart
    omega
  rw [hnumber]
  generalize hera : date.marchYear / 400 = era
  generalize hyoe : date.marchYear - era * 400 = yearOfEra
  generalize Calendar.monthStart (Calendar.marchMonth date.month) = start at *
  generalize Calendar.marchMonth date.month = shifted at *
  have hyoe' : 0 ≤ yearOfEra ∧ yearOfEra ≤ 399 := by omega
  constructor
  · intro h
    obtain ⟨-, -, -, -, -, -, -, -, -, -, -, -, -, -, hsum, hlast, heq⟩ := h
    exact ⟨⟨hlast.1, hsum.2⟩, heq⟩
  · rintro ⟨⟨hlow, hhigh⟩, heq⟩
    refine ⟨?_, ?_, ?_, ?_, ?_, ?_, ?_, ?_, ?_, ?_, ?_, ?_, ?_, ?_, ?_, ?_, heq⟩
    all_goals omega

/-- What it comes to is the number of the date, counted from the epoch. -/
theorem daysOf_toInt {date : Calendar.Date} {days : Int64} (h : DaysOf date days) : days.toInt = date.dayNumber - 719468 := by
  obtain ⟨year, month, day, hyear, hmonth, hday, hok⟩ := h
  exact ((daysFromCivilI64_eq_ok_iff date hyear hmonth hday).1 hok).2

/-- The first of January 1970 has this number. -/
theorem dayNumber_epochDate : epochDate.dayNumber = 719468 := rfl

/-- There is room for the days of these years. -/
theorem exists_daysOf (date : Calendar.Date) (hfirst : -25 * 10 ^ 15 ≤ date.year) (hlast : date.year ≤ 25 * 10 ^ 15) :
    ∃ days, DaysOf date days := by
  have hday := Nat.le_trans date.day_le (Calendar.monthLength_le ..)
  have hmonth := date.month_le
  have hbounds := date.dayNumber_bounds hfirst hlast
  rw [Calendar.januaryFirst_eq, Calendar.januaryFirst_eq] at hbounds
  have hmonth' : (UInt32.ofNat date.month).toNat = date.month := UInt32.toNat_ofNat_of_lt' (Nat.lt_of_le_of_lt hmonth (by decide))
  have hday' : (UInt32.ofNat date.day).toNat = date.day := UInt32.toNat_ofNat_of_lt' (Nat.lt_of_le_of_lt hday (by decide))
  have hyear : (Int64.ofInt date.year).toInt = date.year := Int64.toInt_ofInt_of_le (by omega) (by omega)
  have hdays : (Int64.ofInt (date.dayNumber - 719468)).toInt = date.dayNumber - 719468 :=
    Int64.toInt_ofInt_of_le (by omega) (by omega)
  exact ⟨_, _, _, _, hyear, hmonth', hday',
    (daysFromCivilI64_eq_ok_iff date hyear hmonth' hday').2 ⟨⟨by omega, by omega⟩, hdays⟩⟩

end CivilAux

open CivilAux

/-- Where its arithmetic does not overflow, which it does not between the years of minus and plus 25 quadrillion, the function is
zero on the first of January 1970, goes up by one from each date to the next, keeps the order of the calendar, gives no two
dates the same number and counts the days from the epoch. The tables of the months have these lengths. -/
theorem days_from_civil_counts :
    DaysOf epochDate 0 ∧
    (∀ date days days', DaysOf date days → DaysOf date.next days' → days'.toInt = days.toInt + 1) ∧
    (∀ date other days days', DaysOf date days → DaysOf other days' → (date.Before other ↔ days < days')) ∧
    (∀ date other days, DaysOf date days → DaysOf other days → date = other) ∧
    (∀ date days, DaysOf date days → Calendar.DaysBetween epochDate date days.toInt) ∧
    (∀ date : Calendar.Date, -25 * 10 ^ 15 ≤ date.year → date.year ≤ 25 * 10 ^ 15 → ∃ days, DaysOf date days) ∧
    (∀ year : Nat, isLeapYear year = true ↔ Calendar.IsLeap year) ∧
    ∀ year month : Nat, 1 ≤ month → month ≤ 12 → daysInMonth year month = Calendar.monthLength year month := by
  refine ⟨⟨1970, 1, 1, rfl, rfl, rfl, rfl⟩, ?_, ?_, ?_, ?_, exists_daysOf, TimestampAux.isLeapYear_iff,
    fun year _ => TimestampAux.daysInMonth_eq year⟩
  · intro date days days' h h'
    rw [daysOf_toInt h, daysOf_toInt h', Calendar.numbering_dayNumber.next]
    omega
  · intro date other days days' h h'
    rw [Int64.lt_iff_toInt_lt, daysOf_toInt h, daysOf_toInt h', date.before_iff]
    omega
  · intro date other days h h'
    have hsame := (daysOf_toInt h).symm.trans (daysOf_toInt h')
    exact Calendar.numbering_dayNumber.injective (by omega)
  · intro date days h
    rw [Calendar.numbering_dayNumber.daysBetween_iff, daysOf_toInt h, dayNumber_epochDate]

end RociaSdk

import RociaSdk.Lib.Calendar

/-!
# Dates from their numbers

The year and the month of a date, computed from its number without a search. Years that begin in March come in cycles of four hundred,
of 146097 days each; `yearOfCycle` is the year of a day of a cycle, and `monthOfYear` the month of a day of a year.
-/

namespace Calendar

/-- The year of a day of a cycle, both counted from 0 on. -/
def yearOfCycle (day : Int) : Int := (day - day / 1460 + day / 36524 - day / 146096) / 365

/-- The month of a day of a year that begins in March, both counted from 0 on. -/
def monthOfYear (day : Nat) : Nat := (5 * day + 2) / 153

/-! ## The year of a day -/

section

-- A day is the day `day` of year `year` of the four years `four` of the century `century`.
variable {century four year day : Int} (hcentury : 0 ≤ century ∧ century < 4) (hfour : 0 ≤ four ∧ four < 25)
  (hyear : 0 ≤ year ∧ year < 4)

include hcentury hfour hyear

/-- The days before a year of a cycle. -/
theorem yearStart_of_cycle :
    yearStart (100 * century + 4 * four + year) = 36524 * century + 1461 * four + 365 * year := by
  unfold yearStart
  omega

/-- A year has 365 days, and one more if it is the last of four, unless these end a century that is not the last. -/
theorem day_le
    (hlow : yearStart (100 * century + 4 * four + year) ≤ 36524 * century + 1461 * four + 365 * year + day)
    (hhigh : 36524 * century + 1461 * four + 365 * year + day < yearStart (100 * century + 4 * four + year + 1)) :
    0 ≤ day ∧ day ≤ 365 ∧ (day = 365 → year = 3 ∧ (four = 24 → century = 3)) := by
  rw [yearStart_of_cycle hcentury hfour hyear] at hlow
  unfold yearStart at hhigh
  have h4 : (100 * century + 4 * four + year + 1) / 4 = 25 * century + four + if year = 3 then 1 else 0 := by split <;> omega
  have h100 : (100 * century + 4 * four + year + 1) / 100 = century + if four = 24 ∧ year = 3 then 1 else 0 := by split <;> omega
  have h400 : (100 * century + 4 * four + year + 1) / 400 = if century = 3 ∧ four = 24 ∧ year = 3 then 1 else 0 := by
    split <;> omega
  rw [h4, h100, h400] at hhigh
  refine ⟨by omega, ?_, ?_⟩
  · split at hhigh <;> split at hhigh <;> split at hhigh <;> omega
  · rintro rfl
    split at hhigh <;> split at hhigh <;> split at hhigh <;> omega

/-- The leap days that four years of 1460 days count are those before the year, or one more towards its end. -/
theorem exists_leapDays (hpos : 0 ≤ day) (hle : day ≤ 365) (hleap : day = 365 → year = 3 ∧ (four = 24 → century = 3)) :
    ∃ extra, (36524 * century + 1461 * four + 365 * year + day) / 1460 = 25 * century + four + extra ∧ 0 ≤ day - extra ∧
      day - extra < 365 := by
  refine ⟨(24 * century + four + 365 * year + day) / 1460, ?_, ?_, ?_⟩
  · have hsum : 36524 * century + 1461 * four + 365 * year + day =
        (24 * century + four + 365 * year + day) + (25 * century + four) * 1460 := by omega
    rw [hsum, Int.add_mul_ediv_right _ _ (by decide)]
    omega
  · omega
  · rcases Int.lt_or_eq_of_le hle with hlt | rfl
    · omega
    · have hlast := (hleap rfl).1
      omega

/-- The centuries of a day are those before it, and one too many on the last day of a cycle. -/
theorem centuries_eq (hpos : 0 ≤ day) (hle : day ≤ 365) (hleap : day = 365 → year = 3 ∧ (four = 24 → century = 3)) :
    (36524 * century + 1461 * four + 365 * year + day) / 36524 =
      century + (36524 * century + 1461 * four + 365 * year + day) / 146096 := by
  by_cases hlast : 1461 * four + 365 * year + day < 36524
  · have hsum : 36524 * century + 1461 * four + 365 * year + day =
        (1461 * four + 365 * year + day) + century * 36524 := by omega
    rw [hsum, Int.add_mul_ediv_right _ _ (by decide), Int.ediv_eq_zero_of_lt (by omega) hlast,
      Int.ediv_eq_zero_of_lt (by omega) (by omega)]
    omega
  · obtain rfl : four = 24 := by omega
    have hday : day = 365 := by omega
    obtain ⟨rfl, hthree⟩ := hleap hday
    obtain rfl := hthree rfl
    subst hday
    rfl

end

/-- The year of a day of a cycle is the one whose days it is among. -/
theorem yearOfCycle_eq {year day : Int} (hpos : 0 ≤ year) (hlt : year < 400) (hlow : yearStart year ≤ day)
    (hhigh : day < yearStart (year + 1)) : yearOfCycle day = year := by
  obtain ⟨century, four, left, hcentury, hfour, hleft, rfl⟩ : ∃ century four left : Int, (0 ≤ century ∧ century < 4) ∧
      (0 ≤ four ∧ four < 25) ∧ (0 ≤ left ∧ left < 4) ∧ year = 100 * century + 4 * four + left :=
    ⟨year / 100, year % 100 / 4, year % 4, by omega, by omega, by omega, by omega⟩
  obtain ⟨d, rfl⟩ : ∃ d, day = 36524 * century + 1461 * four + 365 * left + d :=
    ⟨day - (36524 * century + 1461 * four + 365 * left), by omega⟩
  obtain ⟨hday, hle, hleap⟩ := day_le hcentury hfour hleft hlow hhigh
  obtain ⟨extra, hextra, hfirst, hlast⟩ := exists_leapDays hcentury hfour hleft hday hle hleap
  unfold yearOfCycle
  rw [hextra, centuries_eq hcentury hfour hleft hday hle hleap]
  have hsum : 36524 * century + 1461 * four + 365 * left + d - (25 * century + four + extra) +
      (century + (36524 * century + 1461 * four + 365 * left + d) / 146096) -
      (36524 * century + 1461 * four + 365 * left + d) / 146096 = (d - extra) + (100 * century + 4 * four + left) * 365 := by omega
  rw [hsum, Int.add_mul_ediv_right _ _ (by decide), Int.ediv_eq_zero_of_lt hfirst hlast, Int.zero_add]

/-- Four hundred years have 146097 days. -/
theorem yearStart_add_cycles (year cycles : Int) : yearStart (year + cycles * 400) = yearStart year + cycles * 146097 := by
  unfold yearStart
  omega

namespace Date

variable (d : Date)

/-- The days of a date before its year and in it, in its cycle. -/
theorem dayNumber_eq_cycle :
    d.dayNumber = (yearStart (d.marchYear % 400) + d.marchDay) + d.marchYear / 400 * 146097 := by
  have hyear : d.marchYear = d.marchYear % 400 + d.marchYear / 400 * 400 := by omega
  have hstart := yearStart_add_cycles (d.marchYear % 400) (d.marchYear / 400)
  rw [← hyear] at hstart
  unfold dayNumber
  omega

/-- The day of a cycle is one of its year. -/
theorem day_lt_yearStart : yearStart (d.marchYear % 400) + d.marchDay < yearStart (d.marchYear % 400 + 1) := by
  have hlt := d.dayNumber_lt
  have hyear : d.marchYear + 1 = (d.marchYear % 400 + 1) + d.marchYear / 400 * 400 := by omega
  rw [hyear, yearStart_add_cycles, dayNumber_eq_cycle] at hlt
  omega

/-- The cycle of a date and the day of it. -/
theorem cycle_eq :
    d.dayNumber / 146097 = d.marchYear / 400 ∧ d.dayNumber % 146097 = yearStart (d.marchYear % 400) + d.marchDay := by
  have hlt := d.day_lt_yearStart
  have hend : yearStart (d.marchYear % 400 + 1) ≤ yearStart 400 := yearStart_mono (by omega)
  have hlast : yearStart 400 = 146097 := by decide
  have hfirst : yearStart 0 ≤ yearStart (d.marchYear % 400) := yearStart_mono (by omega)
  have hzero : yearStart 0 = 0 := by decide
  rw [dayNumber_eq_cycle]
  omega

/-- The year of a date is that of the day of its cycle. -/
theorem yearOfCycle_eq : yearOfCycle (d.dayNumber % 146097) = d.marchYear % 400 := by
  rw [d.cycle_eq.2]
  exact Calendar.yearOfCycle_eq (by omega) (by omega) (by omega) d.day_lt_yearStart

/-- The month of a date is that of the day of its year. -/
theorem monthOfYear_eq : monthOfYear d.marchDay = marchMonth d.month := by
  have hday := d.day_pos
  have hlength := d.day_le
  unfold monthOfYear marchDay
  by_cases hfebruary : d.month = 2
  · have hlong := monthLength_february d.year
    rw [hfebruary] at hlength ⊢
    have hlast : marchMonth 2 = 11 := rfl
    have hstart : monthStart 11 = 337 := rfl
    rw [hlast, hstart]
    split at hlong <;> omega
  · obtain ⟨-, hle⟩ := d.le_monthStart hfebruary
    unfold monthStart at hle ⊢
    omega

end Date

end Calendar

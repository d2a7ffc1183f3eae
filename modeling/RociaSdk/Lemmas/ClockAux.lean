import RociaSdk.Lemmas.TimestampAux
import RociaSdk.Lib.CivilDates
import RociaSdk.Server

/-!
# The clock of the server

`civil_from_unix` is the date of an instant, and `format_rfc3339` writes the timestamp of it that the client reads.
-/

namespace RociaSdk

namespace Server

namespace ClockAux

open Calendar TimestampAux

/-! ## Dates -/

/-- The cycle of a day, which is counted down for the days before the first. -/
theorem civilEra_eq (days : Int) : (if days ≥ 0 then days else days - 146096).tdiv 146097 = days / 146097 := by
  split
  · rename_i hpos
    exact Int.tdiv_eq_ediv_of_nonneg hpos
  · rename_i hneg
    rw [Int.tdiv_eq_ediv]
    split
    · omega
    · have hsign : Int.sign 146097 = 1 := rfl
      rw [hsign]
      omega

/-- The year of a day of a cycle. -/
theorem civilYear_eq {day : Int} (h : 0 ≤ day) :
    (day - day.tdiv 1460 + day.tdiv 36524 - day.tdiv 146096).tdiv 365 = yearOfCycle day := by
  rw [Int.tdiv_eq_ediv_of_nonneg h, Int.tdiv_eq_ediv_of_nonneg h, Int.tdiv_eq_ediv_of_nonneg h,
    Int.tdiv_eq_ediv_of_nonneg (by omega)]
  rfl

/-- The days before a year of a cycle. -/
theorem civilYearStart_eq {year : Int} (hpos : 0 ≤ year) (hlt : year < 400) :
    365 * year + year.tdiv 4 - year.tdiv 100 = yearStart year := by
  rw [Int.tdiv_eq_ediv_of_nonneg hpos, Int.tdiv_eq_ediv_of_nonneg hpos]
  unfold yearStart
  omega

/-- The month of a day of a year. -/
theorem civilMonth_eq (day : Nat) : (5 * (day : Int) + 2).tdiv 153 = monthOfYear day := by
  rw [Int.tdiv_eq_ediv_of_nonneg (by omega)]
  unfold monthOfYear
  omega

/-- `civil_from_unix` is the date of an instant, and the time of its day. -/
theorem civilFromUnix_eq {date : Date} {unixSeconds : Int} (h : date.dayNumber = unixSeconds / 86400 + 719468) :
    civilFromUnix unixSeconds =
      (date.year, (date.month : Int), (date.day : Int), unixSeconds % 86400 / 3600, unixSeconds % 86400 / 60 % 60,
        unixSeconds % 86400 % 60) := by
  obtain ⟨hera, hcycle⟩ := date.cycle_eq
  have htime : 0 ≤ unixSeconds % 86400 := by omega
  have hrest : date.dayNumber - date.marchYear / 400 * 146097 = date.dayNumber % 146097 := by omega
  have hday : date.dayNumber % 146097 - yearStart (date.marchYear % 400) = date.marchDay := by omega
  unfold civilFromUnix
  simp only [← h, civilEra_eq, hera, hrest, civilYear_eq (Int.emod_nonneg date.dayNumber (by decide : (146097 : Int) ≠ 0)),
    date.yearOfCycle_eq, civilYearStart_eq (Int.emod_nonneg date.marchYear (by decide : (400 : Int) ≠ 0)) (by omega), hday,
    civilMonth_eq, date.monthOfYear_eq, monthDays_eq]
  have hpos := date.month_pos
  have hle := date.month_le
  have hfirst := date.day_pos
  have hmonth : (if (marchMonth date.month : Int) < 10 then (marchMonth date.month : Int) + 3 else marchMonth date.month - 9) =
      date.month := by
    unfold marchMonth
    split <;> split <;> omega
  have hdate : (date.marchDay : Int) - monthStart (marchMonth date.month) + 1 = date.day := by
    unfold Date.marchDay
    omega
  have hyear : (if (date.month : Int) ≤ 2 then date.marchYear % 400 + date.marchYear / 400 * 400 + 1
      else date.marchYear % 400 + date.marchYear / 400 * 400) = date.year := by
    have hcivil : date.marchYear % 400 + date.marchYear / 400 * 400 = date.marchYear := by omega
    rw [hcivil]
    unfold Date.marchYear
    split <;> split <;> omega
  rw [hmonth, hdate, hyear, Int.tdiv_eq_ediv_of_nonneg htime, Int.tdiv_eq_ediv_of_nonneg htime,
    Int.tmod_eq_emod_of_nonneg (by omega), Int.tmod_eq_emod_of_nonneg htime]

/-! ## Timestamps -/

/-- The first second of the year 0, and the first after the year 9999. -/
def formatStart : Int := -62167219200

@[inherit_doc formatStart] def formatEnd : Int := 253402300800

/-- A second of the years of the format has a date in them. -/
theorem exists_date {unixSeconds : Int} (hstart : formatStart ≤ unixSeconds) (hend : unixSeconds < formatEnd) :
    ∃ date : Date, date.dayNumber = unixSeconds / 86400 + 719468 ∧ 0 ≤ date.year ∧ date.year ≤ 9999 := by
  have hfirst : firstDate.dayNumber = -60 := by decide
  unfold formatStart at hstart
  unfold formatEnd at hend
  obtain ⟨date, hdate⟩ : ∃ date : Date, date.dayNumber = unixSeconds / 86400 + 719468 :=
    numbering_dayNumber.exists_date (d := firstDate) (by omega)
  refine ⟨date, hdate, (date.le_year_iff 0).2 ?_, ?_⟩
  · rw [januaryFirst_eq]
    omega
  · by_contra hlate
    have hafter := (date.le_year_iff 10000).1 (by omega)
    rw [januaryFirst_eq] at hafter
    omega

/-- The timestamp of a second. -/
theorem exists_timestamp {unixSeconds : Int} (hstart : formatStart ≤ unixSeconds) (hend : unixSeconds < formatEnd) :
    ∃ t : Rfc3339, formatRfc3339 unixSeconds = t.text ∧ t.Names unixSeconds 0 := by
  obtain ⟨date, hdate, hyear, hyear'⟩ := exists_date hstart hend
  refine ⟨{
    date := date, separator := 'T'.toUInt8, hour := (unixSeconds % 86400 / 3600).toNat
    minute := (unixSeconds % 86400 / 60 % 60).toNat, second := (unixSeconds % 86400 % 60).toNat, fraction := []
    offset := .utc 'Z'.toUInt8 (.inl rfl), year_nonneg := hyear, year_le := hyear', separator_mem := List.mem_cons_self
    hour_le := by omega, minute_le := by omega, second_le := by omega, fraction_lt := nofun }, ?_, ?_⟩
  · refine String.toList_inj.1 ?_
    unfold formatRfc3339
    rw [civilFromUnix_eq hdate]
    simp [padded, Rfc3339.text, Rfc3339.bytes, Rfc3339.fractionBytes, UtcOffset.bytes]
    decide
  · refine names_iff.2 ⟨?_, rfl⟩
    simp only [UtcOffset.seconds]
    omega

/-- The client reads what the server writes of a second. -/
theorem parse_formatRfc3339 {unixSeconds : Int} (hstart : formatStart ≤ unixSeconds) (hend : unixSeconds < formatEnd) :
    ∃ s : Int64, s.toInt = unixSeconds ∧ parseRfc3339 (formatRfc3339 unixSeconds) = .ok (s, 0) := by
  obtain ⟨t, htext, hnames⟩ := exists_timestamp hstart hend
  obtain ⟨s, n, hparse, hread⟩ := parseRfc3339_text t
  obtain ⟨hseconds, hnanos⟩ := names_unique hread hnames
  obtain rfl : n = 0 := UInt32.toNat_inj.1 hnanos
  exact ⟨s, hseconds, by rw [htext, hparse]⟩

/-- The client does not read a local time: it has no offset. -/
theorem parse_formatLocalDateTime (unixSeconds : Int) : ∃ problem, parseRfc3339 (formatLocalDateTime unixSeconds) = .error problem := by
  rcases hcivil : civilFromUnix unixSeconds with ⟨year, month, day, hour, minute, second⟩
  have htext : formatLocalDateTime unixSeconds = String.ofList
      ((Decimals.fixed 4 year.toNat ++ '-'.toUInt8 :: Decimals.fixed 2 month.toNat ++ '-'.toUInt8 :: Decimals.fixed 2 day.toNat ++
        ' '.toUInt8 :: Decimals.fixed 2 hour.toNat ++ ':'.toUInt8 :: Decimals.fixed 2 minute.toNat ++
        ':'.toUInt8 :: Decimals.fixed 2 second.toNat).map fun byte => Char.ofUInt8 byte) := by
    refine String.toList_inj.1 ?_
    unfold formatLocalDateTime
    rw [hcivil]
    simp [padded]
    decide
  have hascii : ∀ byte ∈ Decimals.fixed 4 year.toNat ++ '-'.toUInt8 :: Decimals.fixed 2 month.toNat ++
      '-'.toUInt8 :: Decimals.fixed 2 day.toNat ++ ' '.toUInt8 :: Decimals.fixed 2 hour.toNat ++
      ':'.toUInt8 :: Decimals.fixed 2 minute.toNat ++ ':'.toUInt8 :: Decimals.fixed 2 second.toNat, byte.toNat < 128 := by
    simp only [List.mem_append, List.mem_cons]
    rintro byte (((((h | rfl | h) | rfl | h) | rfl | h) | rfl | h) | rfl | h)
    all_goals first
      | exact fixed_ascii h
      | decide
  unfold parseRfc3339
  rw [htext, asBytes_ofList hascii]
  cases hparse : parseRfc3339Bytes _ with
  | error problem => exact ⟨problem, rfl⟩
  | panicked => exact absurd hparse (parseRfc3339Bytes_ne_panicked _)
  | ok instant =>
    obtain ⟨t, hbytes, -⟩ := parseRfc3339Bytes_sound hparse
    have hoffset : 0 < t.offset.bytes.length := by cases t.offset <;> simp [UtcOffset.bytes]
    have hlength := congrArg List.length hbytes
    simp only [Rfc3339.bytes, List.length_append, List.length_cons, Decimals.length_fixed] at hlength
    omega

end ClockAux

end Server

end RociaSdk

import RociaSdk.Lemmas.TimestampAux

/-!
# The timestamps that are read

`parse_rfc3339` accepts the timestamps of the documented format and nothing else, reads each as the instant it names on the
calendar, and panics on no string.
-/

namespace RociaSdk

open TimestampAux

/-- A string is read if its bytes are those of a timestamp, as the seconds and the nanoseconds that timestamp names, and is
refused otherwise, never with an index out of range. A timestamp written for an instant is read as that instant. -/
theorem parse_rfc3339_exact :
    (∀ raw : String, parseRfc3339 raw ≠ .panicked ∧
      ((∃ instant, parseRfc3339 raw = .ok instant) ↔ ∃ t : Rfc3339, asBytes raw = t.bytes) ∧
      ∀ s n, parseRfc3339 raw = .ok (s, n) ↔
        n.toNat < 10 ^ 9 ∧ ∃ t : Rfc3339, asBytes raw = t.bytes ∧ t.Names s.toInt n.toNat) ∧
    (∀ t : Rfc3339, ∃ s n, parseRfc3339 t.text = .ok (s, n) ∧ t.Names s.toInt n.toNat) ∧
    ∀ (seconds : Int) (nanos : Nat) (offset : UtcOffset) (date : Calendar.Date),
      Calendar.DaysBetween epochDate date ((seconds + offset.seconds) / 86400) → 0 ≤ date.year → date.year ≤ 9999 →
      nanos < 10 ^ 9 →
      ∃ t, Rfc3339.ofInstant seconds nanos offset = some t ∧ t.offset = offset ∧
        ∃ s n, parseRfc3339 t.text = .ok (s, n) ∧ s.toInt = seconds ∧ n.toNat = nanos := by
  refine ⟨fun raw => ⟨parseRfc3339Bytes_ne_panicked _, ⟨?_, ?_⟩, fun s n => ⟨?_, ?_⟩⟩, parseRfc3339_text, ?_⟩
  · rintro ⟨⟨s, n⟩, h⟩
    obtain ⟨t, ht, -⟩ := parseRfc3339Bytes_sound h
    exact ⟨t, ht⟩
  · rintro ⟨t, ht⟩
    obtain ⟨s, n, hnames⟩ := exists_names t
    refine ⟨(s, n), ?_⟩
    unfold parseRfc3339
    rw [ht]
    exact parseRfc3339Bytes_complete t hnames
  · intro h
    obtain ⟨t, ht, hnames⟩ := parseRfc3339Bytes_sound h
    refine ⟨?_, t, ht, hnames⟩
    rw [hnames.2]
    exact nanos_lt t
  · rintro ⟨-, t, ht, hnames⟩
    unfold parseRfc3339
    rw [ht]
    exact parseRfc3339Bytes_complete t hnames
  · intro seconds nanos offset date hdate hyear hyear' hnanos
    obtain ⟨t, ht, hoffset, hnames⟩ := ofInstant_names hdate hyear hyear' hnanos
    obtain ⟨s, n, hparse, hread⟩ := parseRfc3339_text t
    obtain ⟨hs, hn⟩ := names_unique hread hnames
    exact ⟨t, ht, hoffset, s, n, hparse, hs, hn⟩

/-- Half an hour before the year 2000, read at an offset where that has begun, and written at one where the eve has not. -/
theorem parse_rfc3339_exact_newYear :
    (∃ instant, parseRfc3339 "2000-01-01 00:30:00.1234567899+01:00" = .ok instant) ∧
    ∃ t, Rfc3339.ofInstant 946683000 123456789 (.signed true 23 59 (by decide) (by decide)) = some t ∧
      ∃ s n, parseRfc3339 t.text = .ok (s, n) ∧ s.toInt = 946683000 ∧ n.toNat = 123456789 := by
  obtain ⟨hread, -, hwritten⟩ := parse_rfc3339_exact
  refine ⟨(hread _).2.1.2 ⟨?_, ?_⟩, ?_⟩
  · exact {
      date := { year := 2000, month := 1, day := 1, month_pos := by decide, month_le := by decide, day_pos := by decide,
                day_le := by decide }
      separator := ' '.toUInt8
      hour := 0
      minute := 30
      second := 0
      fraction := [1, 2, 3, 4, 5, 6, 7, 8, 9, 9]
      offset := .signed false 1 0 (by decide) (by decide)
      year_nonneg := by decide
      year_le := by decide
      separator_mem := by decide
      hour_le := by decide
      minute_le := by decide
      second_le := by decide
      fraction_lt := by decide }
  · rfl
  · have hdate : Calendar.DaysBetween epochDate
        { year := 1999, month := 12, day := 30, month_pos := by decide, month_le := by decide, day_pos := by decide,
          day_le := by decide } 10955 :=
      daysSinceEpoch_iff.2 (by decide)
    obtain ⟨t, ht, -, hparse⟩ := hwritten 946683000 123456789 (.signed true 23 59 (by decide) (by decide)) _ hdate
      (by decide) (by decide) (by decide)
    exact ⟨t, ht, hparse⟩

end RociaSdk

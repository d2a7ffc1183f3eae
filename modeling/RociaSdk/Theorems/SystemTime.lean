import RociaSdk.Lemmas.InstantAux

/-!
# The two readings of a timestamp

`unix_instant_to_system_time` computes the instant on either side of the epoch, and `system_time` and `unix_nanos` succeed on
the same strings and name the same instant, on a platform that has the years around those of the format.
-/

namespace RociaSdk

open TimestampAux InstantAux

/-- A platform has every instant of every day of some years. -/
def Platform.Covers (platform : Platform) (first last : Int) : Prop :=
  ∀ (date : Calendar.Date) (days : Int) (ofDay : Nat), first ≤ date.year → date.year ≤ last →
    Calendar.DaysBetween epochDate date days → ofDay < 86400 * 10 ^ 9 → platform.representable (days * (86400 * 10 ^ 9) + ofDay)

/-- The instant is computed for all seconds and nanoseconds, without overflow. Where a platform has the years around those of
the format, the two readings of a timestamp fail together, with the same error, or are the same instant. -/
theorem FileTimestamp.system_time_eq_unix_nanos (platform : Platform) :
    (∀ (seconds : Int64) (nanos : UInt32), nanos.toNat < 10 ^ 9 →
      unixInstantToSystemTime platform seconds nanos =
        some (if platform.representable (seconds.toInt * 10 ^ 9 + nanos.toNat) then some (seconds.toInt * 10 ^ 9 + nanos.toNat)
          else none)) ∧
    (platform.Covers (-1) 10000 → ∀ (debug : String → String) (t : FileTimestamp),
      t.unixNanos debug ≠ .panicked ∧ t.systemTime debug platform = t.unixNanos debug) := by
  refine ⟨fun _ _ => unixInstantToSystemTime_eq platform, fun hcovers debug t => ?_⟩
  unfold FileTimestamp.unixNanos FileTimestamp.systemTime FileTimestamp.unixInstant
  cases hparse : parseRfc3339 t.raw with
  | panicked => exact absurd hparse (parseRfc3339Bytes_ne_panicked _)
  | error problem => exact ⟨fun h => (nomatch h), rfl⟩
  | ok instant =>
    obtain ⟨seconds, nanos⟩ := instant
    obtain ⟨stamp, -, hnames⟩ := parseRfc3339Bytes_sound hparse
    have hnanos : nanos.toNat < 10 ^ 9 := by
      rw [hnames.2]
      exact nanos_lt stamp
    obtain ⟨date, hdays, hfirst, hlast⟩ := names_day hnames
    have hhas := hcovers date _ ((seconds.toInt % 86400).toNat * 10 ^ 9 + nanos.toNat) hfirst hlast hdays (by omega)
    have hsum : seconds.toInt / 86400 * (86400 * 10 ^ 9) + (((seconds.toInt % 86400).toNat * 10 ^ 9 + nanos.toNat : Nat) : Int) =
        seconds.toInt * 10 ^ 9 + nanos.toNat := by omega
    rw [hsum] at hhas
    refine ⟨fun h => (nomatch h), ?_⟩
    have hinstant : unixInstantToSystemTime platform seconds nanos = _ := unixInstantToSystemTime_eq platform hnanos
    rw [if_pos hhas] at hinstant
    simp only [Bind.bind, Checked.bind, hinstant]

/-- A `SystemTime` of 64-bit seconds, as on Unix. -/
def Platform.unix : Platform := ⟨fun instant => -2 ^ 63 * 10 ^ 9 ≤ instant ∧ instant < 2 ^ 63 * 10 ^ 9⟩

/-- It has the years around those of the format. -/
theorem Platform.unix_covers : Platform.unix.Covers (-1) 10000 := by
  intro date days ofDay hfirst hlast hdays hofDay
  have hnumber := daysSinceEpoch_iff.1 hdays
  have hbounds := date.dayNumber_bounds hfirst hlast
  rw [Calendar.januaryFirst_eq, Calendar.januaryFirst_eq] at hbounds
  exact decide_eq_true (by omega)

/-- The earliest seconds, and half a second before the epoch. -/
theorem FileTimestamp.system_time_eq_unix_nanos_unix :
    unixInstantToSystemTime .unix Int64.minValue 0 = some (some (-2 ^ 63 * 10 ^ 9)) ∧
    FileTimestamp.unixNanos id ⟨"1969-12-31T23:59:59.5Z"⟩ = .ok (-500000000) ∧
    FileTimestamp.systemTime id .unix ⟨"1969-12-31T23:59:59.5Z"⟩ = .ok (-500000000) := by
  obtain ⟨hcomputes, hagrees⟩ := FileTimestamp.system_time_eq_unix_nanos .unix
  have hnanos : FileTimestamp.unixNanos id ⟨"1969-12-31T23:59:59.5Z"⟩ = .ok (-500000000) := rfl
  refine ⟨(hcomputes Int64.minValue 0 (by decide)).trans (by decide), hnanos, ?_⟩
  rw [(hagrees Platform.unix_covers id ⟨"1969-12-31T23:59:59.5Z"⟩).2]
  exact hnanos

end RociaSdk

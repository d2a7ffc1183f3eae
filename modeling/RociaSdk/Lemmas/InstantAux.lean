import RociaSdk.Lemmas.TimestampAux

/-!
# Instants on either side of the epoch

Statements about `unix_instant_to_system_time`: what each machine operation of it comes to when it does not panic, and that
none does.
-/

namespace RociaSdk

open TimestampAux

namespace InstantAux

/-! ## Machine operations -/

theorem toNat_unsignedAbs (n : Int64) : (unsignedAbs n).toNat = n.toInt.natAbs := by
  have hlow := n.le_toInt
  have hhigh := n.toInt_lt
  exact UInt64.toNat_ofNat_of_lt' (by
    rw [UInt64.size]
    omega)

theorem tryU64_eq {n : Int64} (h : 0 ≤ n.toInt) : ∃ secs, tryU64 n = some secs ∧ (secs.toNat : Int) = n.toInt := by
  have hhigh := n.toInt_lt
  refine ⟨_, if_pos h, ?_⟩
  rw [UInt64.toNat_ofNat_of_lt' (by rw [UInt64.size]; omega), Int.toNat_of_nonneg h]

theorem subU64_eq {a b : UInt64} (h : b.toNat ≤ a.toNat) : ∃ c, subU64 a b = some c ∧ c.toNat = a.toNat - b.toNat :=
  ⟨_, if_pos (UInt64.le_iff_toNat_le.2 h), UInt64.toNat_sub_of_le _ _ (UInt64.le_iff_toNat_le.2 h)⟩

theorem subU32_eq {a b : UInt32} (h : b.toNat ≤ a.toNat) : ∃ c, subU32 a b = some c ∧ c.toNat = a.toNat - b.toNat :=
  ⟨_, if_pos (UInt32.le_iff_toNat_le.2 h), UInt32.toNat_sub_of_le _ _ (UInt32.le_iff_toNat_le.2 h)⟩

/-- Nanoseconds that are less than a second carry nothing. -/
theorem new_eq (secs : UInt64) {nanos : UInt32} (h : nanos.toNat < 10 ^ 9) :
    ∃ d, Duration.new secs nanos = some d ∧ d.nanos = secs.toNat * 10 ^ 9 + nanos.toNat := by
  have hsecs := secs.toNat_lt
  unfold Duration.new
  rw [dif_pos (by omega)]
  exact ⟨_, rfl, rfl⟩

/-! ## The two branches -/

section

variable {seconds : Int64} {nanos : UInt32}

/-- Before the epoch, the distance to it is computed, and nothing underflows. -/
theorem magnitude_eq (hneg : seconds.toInt < 0) (hnanos : nanos.toNat < 10 ^ 9) :
    ∃ d : Duration, (if nanos = 0 then Duration.new (unsignedAbs seconds) 0
      else (subU64 (unsignedAbs seconds) 1).bind fun secs =>
        (subU32 1000000000 nanos).bind fun nanos => Duration.new secs nanos) = some d ∧
      -(d.nanos : Int) = seconds.toInt * 10 ^ 9 + nanos.toNat := by
  have habs := toNat_unsignedAbs seconds
  have hone : (1 : UInt64).toNat = 1 := rfl
  have hsecond : (1000000000 : UInt32).toNat = 10 ^ 9 := rfl
  by_cases hzero : nanos = 0
  · have hnone : nanos.toNat = 0 := by
      rw [hzero]
      rfl
    obtain ⟨d, hd, hvalue⟩ := new_eq (unsignedAbs seconds) hnanos
    refine ⟨d, by rw [if_pos hzero, ← hzero, hd], ?_⟩
    rw [hvalue, habs]
    omega
  · -- The remainder counts forward, so one second less is left, and what completes it.
    have hpos : 0 < nanos.toNat := Nat.pos_of_ne_zero fun h => hzero (UInt32.toNat_inj.1 h)
    obtain ⟨secs, hsecs, hsecsValue⟩ := subU64_eq (a := unsignedAbs seconds) (b := 1) (by omega)
    obtain ⟨rest, hrest, hrestValue⟩ := subU32_eq (a := 1000000000) (b := nanos) (by omega)
    have hless : rest.toNat < 10 ^ 9 := by omega
    obtain ⟨d, hd, hvalue⟩ := new_eq secs hless
    refine ⟨d, ?_, ?_⟩
    · rw [if_neg hzero, hsecs, Option.bind_some, hrest, Option.bind_some, hd]
    · omega

/-- It is the instant, on either side of the epoch, if the platform has it. -/
theorem unixInstantToSystemTime_eq (platform : Platform) (hnanos : nanos.toNat < 10 ^ 9) :
    unixInstantToSystemTime platform seconds nanos =
      some (if platform.representable (seconds.toInt * 10 ^ 9 + nanos.toNat) then some (seconds.toInt * 10 ^ 9 + nanos.toNat)
        else none) := by
  unfold unixInstantToSystemTime
  by_cases hsign : 0 ≤ seconds.toInt
  · obtain ⟨secs, hsecs, hsecsValue⟩ := tryU64_eq hsign
    obtain ⟨d, hd, hvalue⟩ := new_eq secs hnanos
    have hinstant : (d.nanos : Int) = seconds.toInt * 10 ^ 9 + nanos.toNat := by omega
    simp only [if_pos hsign, hsecs, hd, Option.map_some]
    unfold Platform.checkedAdd
    rw [hinstant]
  · obtain ⟨d, hd, hinstant⟩ := magnitude_eq (Int.lt_of_not_ge hsign) hnanos
    simp only [if_neg hsign]
    rw [hd, Option.map_some]
    unfold Platform.checkedSub
    rw [hinstant]

end

/-! ## The days around the format's -/

/-- The instant a timestamp names is in the years around those of the format, whatever its offset. -/
theorem names_day {t : Rfc3339} {seconds : Int} {nanos : Nat} (h : t.Names seconds nanos) :
    ∃ date : Calendar.Date, Calendar.DaysBetween epochDate date (seconds / 86400) ∧ -1 ≤ date.year ∧ date.year ≤ 10000 := by
  have hearlier : (Calendar.Date.newYear (-1)).dayNumber = -425 := by decide
  obtain ⟨hseconds, -⟩ := names_iff.1 h
  obtain ⟨hlow, hhigh⟩ := offset_bounds t.offset
  obtain ⟨htime, htime'⟩ := time_bounds t.hour_le t.minute_le t.second_le
  have hbounds := t.date.dayNumber_bounds t.year_nonneg t.year_le
  rw [Calendar.januaryFirst_eq, Calendar.januaryFirst_eq] at hbounds
  -- An offset moves it by a day at most.
  have hday : t.date.dayNumber - 719468 - 1 ≤ seconds / 86400 ∧ seconds / 86400 ≤ t.date.dayNumber - 719468 + 1 := by omega
  obtain ⟨date, hdate⟩ := Calendar.numbering_dayNumber.exists_date (d := .newYear (-1)) (n := seconds / 86400 + 719468)
    (by omega)
  refine ⟨date, daysSinceEpoch_iff.2 (by omega), ?_, ?_⟩
  · rw [date.le_year_iff, Calendar.januaryFirst_eq]
    omega
  · by_contra hlate
    have hnumber := (date.le_year_iff 10001).1 (by omega)
    rw [Calendar.januaryFirst_eq] at hnumber
    omega

end InstantAux

end RociaSdk

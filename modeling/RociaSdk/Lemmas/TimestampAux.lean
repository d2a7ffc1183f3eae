import RociaSdk.Rfc3339
import RociaSdk.Timestamp

/-!
# The parser, part by part

Statements about the functions `parse_rfc3339` is made of: each reads what `Rfc3339.bytes` writes there and nothing else, and
none panics on what it is called with.
-/

namespace RociaSdk

namespace TimestampAux

/-! ## What can panic -/

section

variable {ε α β : Type} {x : Checked ε α} {k : α → Checked ε β}

/-- A function after one that has returned. -/
theorem ok_bind (a : α) (k : α → Checked ε β) : (.ok a >>= k : Checked ε β) = k a := rfl

/-- The second function is called with what the first one returns. -/
theorem bind_eq_ok_iff {value : β} : x >>= k = .ok value ↔ ∃ a, x = .ok a ∧ k a = .ok value := by
  cases x with
  | ok a =>
    constructor
    · exact fun h => ⟨a, rfl, h⟩
    · rintro ⟨b, hb, h⟩
      obtain rfl : a = b := Checked.ok.inj hb
      exact h
  | error e => exact ⟨fun h => (nomatch h), fun ⟨_, h, _⟩ => (nomatch h)⟩
  | panicked => exact ⟨fun h => (nomatch h), fun ⟨_, h, _⟩ => (nomatch h)⟩

/-- Neither of two functions panics. -/
theorem bind_ne_panicked (hx : x ≠ .panicked) (hk : ∀ a, x = .ok a → k a ≠ .panicked) : x >>= k ≠ .panicked := by
  cases x with
  | ok a => exact hk a rfl
  | error e => exact fun h => nomatch h
  | panicked => exact absurd rfl hx

/-- An option makes an error or a value. -/
theorem okOr_ne_panicked (e : ε) (o : Option α) : Checked.okOr e o ≠ .panicked := by
  cases o with
  | none => exact fun h => nomatch h
  | some a => exact fun h => nomatch h

theorem okOr_eq_ok_iff {e : ε} {o : Option α} {a : α} : Checked.okOr e o = .ok a ↔ o = some a := by
  cases o with
  | none => exact ⟨fun h => (nomatch h), fun h => (nomatch h)⟩
  | some b => exact ⟨fun h => congrArg some (Checked.ok.inj h), fun h => congrArg Checked.ok (Option.some.inj h)⟩

/-- A loop whose steps all return. -/
theorem foldlM_ok {f : β → α → Checked ε β} {g : β → α → β} (hf : ∀ value a, f value a = .ok (g value a)) (l : List α) (value : β) :
    l.foldlM f value = .ok (l.foldl g value) := by
  induction l generalizing value with
  | nil => rfl
  | cons a l ih =>
    rw [List.foldlM_cons, hf, List.foldl_cons]
    exact ih _

end

/-! ## Digits -/

/-- A digit is read as one. -/
theorem digitOf_eq (byte : UInt8) : digitOf byte = Decimals.digit? byte := by
  have hzero : '0'.toUInt8.toNat = 48 := rfl
  have hlast : (9 : UInt8).toNat = 9 := rfl
  unfold digitOf Decimals.digit?
  by_cases hlow : byte < '0'.toUInt8
  · rw [if_pos hlow, if_neg]
    rw [UInt8.lt_iff_toNat_lt] at hlow
    omega
  · have hsub : (byte - '0'.toUInt8).toNat = byte.toNat - 48 := UInt8.toNat_sub_of_le _ _ (UInt8.not_lt.1 hlow)
    have hnine : byte - '0'.toUInt8 ≤ 9 ↔ 48 ≤ byte.toNat ∧ byte.toNat ≤ 57 := by
      rw [UInt8.lt_iff_toNat_lt] at hlow
      rw [UInt8.le_iff_toNat_le, hsub, hlast]
      omega
    rw [if_neg hlow, hsub]
    exact if_congr hnine rfl rfl

/-- A number is read as one. -/
theorem digits_eq (bytes : List UInt8) : digits bytes = Decimals.value? bytes := by
  have hdigit : digitOf = Decimals.digit? := funext digitOf_eq
  unfold digits Decimals.value?
  rw [hdigit]

/-- The bytes that are ASCII digits. -/
theorem isAsciiDigit_iff {byte : UInt8} : isAsciiDigit byte = true ↔ ∃ digit < 10, byte = Decimals.digitByte digit := by
  have hzero : '0'.toUInt8.toNat = 48 := rfl
  have hnine : '9'.toUInt8.toNat = 57 := rfl
  unfold isAsciiDigit
  rw [Bool.and_eq_true, decide_eq_true_eq, decide_eq_true_eq, UInt8.le_iff_toNat_le, UInt8.le_iff_toNat_le, hzero, hnine]
  constructor
  · rintro ⟨hlow, hhigh⟩
    exact ⟨byte.toNat - 48, Decimals.digit?_eq_some_iff.1 (if_pos ⟨hlow, hhigh⟩)⟩
  · rintro ⟨digit, hlt, rfl⟩
    rw [Decimals.toNat_digitByte hlt]
    omega

/-! ## The fraction -/

/-- A digit of a fraction is that, or a zero past its end. -/
theorem fractionDigit_eq {fraction : List Nat} (hlt : ∀ digit ∈ fraction, digit < 10) (index : Nat) :
    fractionDigit (fraction.map Decimals.digitByte) index = .ok (fraction[index]?.getD 0) := by
  unfold fractionDigit
  rw [List.getElem?_map]
  cases hdigit : fraction[index]? with
  | none => rfl
  | some digit =>
    have hbyte := Decimals.toNat_digitByte (hlt digit (List.mem_of_getElem? hdigit))
    have hle : '0'.toUInt8 ≤ Decimals.digitByte digit := by
      rw [UInt8.le_iff_toNat_le, hbyte]
      exact Nat.le_add_right _ _
    show (Checked.subU8 (Decimals.digitByte digit) '0'.toUInt8 >>= fun value => pure value.toNat) = Checked.ok digit
    unfold Checked.subU8
    rw [if_pos hle]
    refine congrArg Checked.ok ?_
    rw [UInt8.toNat_sub_of_le _ _ hle, hbyte]
    exact Nat.add_sub_cancel_left _ _

/-- The nanoseconds of a fraction are those of its first nine digits. -/
theorem nanos_eq {fraction : List Nat} (hlt : ∀ digit ∈ fraction, digit < 10) :
    ((List.range 9).foldlM (fun nanos index => do
      return nanos * 10 + (← fractionDigit (fraction.map Decimals.digitByte) index)) 0 : Checked String Nat) =
      .ok (Decimals.ofDigits ((fraction ++ List.replicate 9 0).take 9)) := by
  have hdigits : (List.range 9).map (fun index => fraction[index]?.getD 0) = (fraction ++ List.replicate 9 0).take 9 := by
    refine List.ext_getElem? fun i => ?_
    rw [List.getElem?_map, List.getElem?_take]
    by_cases hi : i < 9
    · rw [List.getElem?_range hi, if_pos hi, List.getElem?_append]
      split
      · rename_i hin
        rw [Option.map_some, List.getElem?_eq_getElem hin, Option.getD_some]
      · rename_i hout
        rw [Option.map_some, List.getElem?_eq_none (Nat.le_of_not_lt hout), List.getElem?_replicate, if_pos (by omega),
          Option.getD_none]
    · rw [if_neg hi, List.getElem?_eq_none (by rw [List.length_range]; omega)]
      rfl
  rw [foldlM_ok (g := fun nanos index => nanos * 10 + fraction[index]?.getD 0)]
  · unfold Decimals.ofDigits
    rw [← hdigits, List.foldl_map]
  · intro nanos index
    rw [fractionDigit_eq hlt]
    rfl

/-- The digits bytes begin with. -/
theorem exists_digits (tail : List UInt8) :
    ∃ fraction : List Nat, (∀ digit ∈ fraction, digit < 10) ∧ tail.takeWhile isAsciiDigit = fraction.map Decimals.digitByte := by
  induction tail with
  | nil => exact ⟨[], fun _ h => (nomatch h), rfl⟩
  | cons byte tail ih =>
    cases hbyte : isAsciiDigit byte with
    | false => exact ⟨[], fun _ h => (nomatch h), List.takeWhile_cons_of_neg (by rw [hbyte]; decide)⟩
    | true =>
      obtain ⟨fraction, hlt, htake⟩ := ih
      obtain ⟨digit, hdigit, rfl⟩ := isAsciiDigit_iff.1 hbyte
      refine ⟨digit :: fraction, ?_, ?_⟩
      · intro d hd
        rcases List.mem_cons.1 hd with rfl | hd
        · exact hdigit
        · exact hlt d hd
      · rw [List.takeWhile_cons_of_pos hbyte, htake, List.map_cons]

/-- What does not begin with a point has no fraction. -/
theorem parseFraction_none {dot : UInt8} {tail : List UInt8} (h : dot ≠ '.'.toUInt8) :
    parseFraction (dot :: tail) = .ok (0, dot :: tail) := if_pos h

/-- A point with no digit after it is an error. -/
theorem parseFraction_bare {tail : List UInt8} (htake : tail.takeWhile isAsciiDigit = []) :
    parseFraction ('.'.toUInt8 :: tail) = .error "a decimal point must be followed by at least one digit" := by
  unfold parseFraction
  simp only [ne_eq, not_true_eq_false, if_false, htake, List.length_nil, if_true]

/-- After a point, the digits are read and nothing else. -/
theorem parseFraction_digits {tail : List UInt8} {fraction : List Nat} (hlt : ∀ digit ∈ fraction, digit < 10)
    (htake : tail.takeWhile isAsciiDigit = fraction.map Decimals.digitByte) (hne : fraction ≠ []) :
    parseFraction ('.'.toUInt8 :: tail) =
      .ok (Decimals.ofDigits ((fraction ++ List.replicate 9 0).take 9), tail.dropWhile isAsciiDigit) := by
  have hsplit : fraction.map Decimals.digitByte ++ tail.dropWhile isAsciiDigit = tail := by
    rw [← htake]
    exact List.takeWhile_append_dropWhile
  have hcount : (tail.takeWhile isAsciiDigit).length = fraction.length := by rw [htake, List.length_map]
  have hparts : Checked.splitAt tail fraction.length =
      (.ok (fraction.map Decimals.digitByte, tail.dropWhile isAsciiDigit) : Checked String _) := by
    have hlen := congrArg List.length hsplit
    rw [List.length_append, List.length_map] at hlen
    unfold Checked.splitAt
    rw [if_pos (by omega), ← hsplit, List.take_left' (List.length_map _), List.drop_left' (List.length_map _), hsplit]
  unfold parseFraction
  simp only [ne_eq, not_true_eq_false, if_false, hcount]
  rw [if_neg (by rwa [List.length_eq_zero_iff]), hparts]
  exact congrArg (fun nanos : Checked String Nat => nanos >>= fun nanos => pure (nanos, tail.dropWhile isAsciiDigit)) (nanos_eq hlt)

/-- A fraction is a point and its digits. -/
theorem fractionBytes_cons (digit : Nat) (digits : List Nat) (tail : List UInt8) :
    Rfc3339.fractionBytes (digit :: digits) ++ tail = '.'.toUInt8 :: ((digit :: digits).map Decimals.digitByte ++ tail) := rfl

/-- What begins with a fraction is read, and otherwise there is a point with no digit after it. -/
theorem parseFraction_cases (rest : List UInt8) :
    (∃ problem, parseFraction rest = .error problem) ∨
      ∃ fraction tail, (∀ digit ∈ fraction, digit < 10) ∧ rest = Rfc3339.fractionBytes fraction ++ tail ∧
        parseFraction rest = .ok (Decimals.ofDigits ((fraction ++ List.replicate 9 0).take 9), tail) := by
  cases rest with
  | nil => exact .inr ⟨[], [], fun _ hdigit => (nomatch hdigit), rfl, rfl⟩
  | cons dot after =>
    by_cases hdot : dot = '.'.toUInt8
    · subst hdot
      obtain ⟨fraction, hlt, htake⟩ := exists_digits after
      cases fraction with
      | nil => exact .inl ⟨_, parseFraction_bare htake⟩
      | cons digit digits =>
        refine .inr ⟨digit :: digits, _, hlt, ?_, parseFraction_digits hlt htake (List.cons_ne_nil _ _)⟩
        rw [fractionBytes_cons, ← htake, List.takeWhile_append_dropWhile]
    · exact .inr ⟨[], dot :: after, fun _ hdigit => (nomatch hdigit), rfl, parseFraction_none hdot⟩

/-- What is read as a fraction is one. -/
theorem parseFraction_sound {rest tail : List UInt8} {nanos : Nat} (h : parseFraction rest = .ok (nanos, tail)) :
    ∃ fraction : List Nat, (∀ digit ∈ fraction, digit < 10) ∧ rest = Rfc3339.fractionBytes fraction ++ tail ∧
      nanos = Decimals.ofDigits ((fraction ++ List.replicate 9 0).take 9) := by
  rcases parseFraction_cases rest with ⟨problem, herror⟩ | ⟨fraction, tail', hlt, hrest, hok⟩
  · rw [herror] at h
    exact nomatch h
  · rw [hok] at h
    obtain ⟨rfl, rfl⟩ := Prod.mk.inj (Checked.ok.inj h)
    exact ⟨fraction, hlt, hrest, rfl⟩

/-- A fraction is read to its end. -/
theorem parseFraction_bytes {fraction : List Nat} {tail : List UInt8} (hlt : ∀ digit ∈ fraction, digit < 10)
    (htail : ∀ byte ∈ tail.head?, byte ≠ '.'.toUInt8 ∧ isAsciiDigit byte = false) :
    parseFraction (Rfc3339.fractionBytes fraction ++ tail) = .ok (Decimals.ofDigits ((fraction ++ List.replicate 9 0).take 9), tail) := by
  cases fraction with
  | nil =>
    cases tail with
    | nil => rfl
    | cons byte tail =>
      exact parseFraction_none (htail byte rfl).1
  | cons digit digits =>
    have hall : ∀ byte ∈ (digit :: digits).map Decimals.digitByte, isAsciiDigit byte = true := by
      intro byte hbyte
      obtain ⟨d, hd, rfl⟩ := List.mem_map.1 hbyte
      exact isAsciiDigit_iff.2 ⟨d, hlt d hd, rfl⟩
    have hstop : tail.takeWhile isAsciiDigit = [] ∧ tail.dropWhile isAsciiDigit = tail := by
      cases tail with
      | nil => exact ⟨rfl, rfl⟩
      | cons byte tail =>
        have hbyte := (htail byte rfl).2
        exact ⟨List.takeWhile_cons_of_neg (by rw [hbyte]; decide), List.dropWhile_cons_of_neg (by rw [hbyte]; decide)⟩
    rw [fractionBytes_cons, parseFraction_digits hlt _ (List.cons_ne_nil _ _), List.dropWhile_append_of_pos hall, hstop.2]
    rw [List.takeWhile_append_of_pos hall, hstop.1, List.append_nil]

/-- Reading a fraction does not panic. -/
theorem parseFraction_ne_panicked (rest : List UInt8) : parseFraction rest ≠ .panicked := by
  rcases parseFraction_cases rest with ⟨problem, herror⟩ | ⟨fraction, tail, -, -, hok⟩
  · rw [herror]
    exact fun h => nomatch h
  · rw [hok]
    exact fun h => nomatch h

/-! ## The offset -/

/-- Two bytes are read as a number when they are those of it. -/
theorem digits_two_iff {tens units : UInt8} {value : Nat} :
    digits [tens, units] = some value ↔ value < 100 ∧ [tens, units] = Decimals.fixed 2 value := by
  rw [digits_eq, Decimals.value?_eq_some_iff]
  exact Iff.rfl

/-- What is read as an offset is one. -/
theorem parseOffset_sound {rest : List UInt8} {seconds : Int} (h : parseOffset rest = .ok seconds) :
    ∃ offset : UtcOffset, rest = offset.bytes ∧ seconds = offset.seconds := by
  unfold parseOffset at h
  split at h
  · rename_i letter
    split at h
    · rename_i hletter
      exact ⟨.utc letter hletter, rfl, (Checked.ok.inj h).symm⟩
    · exact nomatch h
  · rename_i sign hourTens hourUnits colon minuteTens minuteUnits
    split at h
    · exact nomatch h
    · rename_i hcolon
      obtain ⟨factor, hfactor, h⟩ := bind_eq_ok_iff.1 h
      obtain ⟨hours, hhours, h⟩ := bind_eq_ok_iff.1 h
      obtain ⟨minutes, hminutes, h⟩ := bind_eq_ok_iff.1 h
      obtain ⟨-, hhourBytes⟩ := digits_two_iff.1 (okOr_eq_ok_iff.1 hhours)
      obtain ⟨-, hminuteBytes⟩ := digits_two_iff.1 (okOr_eq_ok_iff.1 hminutes)
      split at h
      · exact nomatch h
      · rename_i hhour
        split at h
        · exact nomatch h
        · rename_i hminute
          have hvalue := Checked.ok.inj h
          have hbytes : ∀ negative, sign = (if negative = true then '-'.toUInt8 else '+'.toUInt8) →
              [sign, hourTens, hourUnits, colon, minuteTens, minuteUnits] =
                (UtcOffset.signed negative hours minutes (Nat.le_of_not_lt hhour) (Nat.le_of_not_lt hminute)).bytes := by
            intro negative hsign
            show sign :: ([hourTens, hourUnits] ++ colon :: [minuteTens, minuteUnits]) = _
            rw [hhourBytes, hminuteBytes, Decidable.not_not.1 hcolon, hsign]
            rfl
          rw [okOr_eq_ok_iff] at hfactor
          by_cases hplus : sign = '+'.toUInt8
          · rw [if_pos hplus] at hfactor
            obtain rfl := Option.some.inj hfactor
            exact ⟨_, hbytes false hplus, hvalue.symm⟩
          · rw [if_neg hplus] at hfactor
            by_cases hminus : sign = '-'.toUInt8
            · rw [if_pos hminus] at hfactor
              obtain rfl := Option.some.inj hfactor
              exact ⟨_, hbytes true hminus, hvalue.symm⟩
            · rw [if_neg hminus] at hfactor
              exact nomatch hfactor
  · exact nomatch h

/-- Every offset is read. -/
theorem parseOffset_bytes (offset : UtcOffset) : parseOffset offset.bytes = .ok offset.seconds := by
  cases offset with
  | utc letter hletter => exact if_pos hletter
  | signed negative hour minute hour_le minute_le =>
    have hhours := digits_two_iff.2 ⟨Nat.lt_of_le_of_lt hour_le (by decide), rfl⟩
    have hminutes := digits_two_iff.2 ⟨Nat.lt_of_le_of_lt minute_le (by decide), rfl⟩
    have hsign : Checked.okOr offsetProblem (if (if negative = true then '-'.toUInt8 else '+'.toUInt8) = '+'.toUInt8
        then some (1 : Int) else if (if negative = true then '-'.toUInt8 else '+'.toUInt8) = '-'.toUInt8 then some (-1) else none) =
        .ok (if negative = true then -1 else 1) := by
      cases negative <;> rfl
    refine bind_eq_ok_iff.2 ⟨_, hsign, ?_⟩
    refine bind_eq_ok_iff.2 ⟨hour, okOr_eq_ok_iff.2 hhours, ?_⟩
    refine bind_eq_ok_iff.2 ⟨minute, okOr_eq_ok_iff.2 hminutes, ?_⟩
    rw [if_neg (Nat.not_lt.2 hour_le), if_neg (Nat.not_lt.2 minute_le)]
    rfl

/-- Reading an offset does not panic. -/
theorem parseOffset_ne_panicked (rest : List UInt8) : parseOffset rest ≠ .panicked := by
  unfold parseOffset
  split
  · split
    · exact fun h => nomatch h
    · exact fun h => nomatch h
  · split
    · exact fun h => nomatch h
    · refine bind_ne_panicked (okOr_ne_panicked _ _) fun _ _ => ?_
      refine bind_ne_panicked (okOr_ne_panicked _ _) fun _ _ => ?_
      refine bind_ne_panicked (okOr_ne_panicked _ _) fun _ _ => ?_
      split
      · exact fun h => nomatch h
      · split
        · exact fun h => nomatch h
        · exact fun h => nomatch h
  · exact fun h => nomatch h

/-- An offset begins with neither a point nor a digit, so it ends the fraction. -/
theorem head_offset (offset : UtcOffset) : ∀ byte ∈ offset.bytes.head?, byte ≠ '.'.toUInt8 ∧ isAsciiDigit byte = false := by
  intro byte hbyte
  cases offset with
  | utc letter hletter =>
    obtain rfl : letter = byte := Option.some.inj hbyte
    rcases hletter with rfl | rfl
    · decide
    · decide
  | signed negative hour minute hour_le minute_le =>
    obtain rfl : (if negative = true then '-'.toUInt8 else '+'.toUInt8) = byte := Option.some.inj hbyte
    cases negative with
    | false => decide
    | true => decide

/-- An offset is less than a day. -/
theorem offset_bounds (offset : UtcOffset) : -86400 < offset.seconds ∧ offset.seconds < 86400 := by
  cases offset with
  | utc letter hletter => simp [UtcOffset.seconds]
  | signed negative hour minute hour_le minute_le =>
    cases negative with
    | false =>
      simp only [UtcOffset.seconds, Bool.false_eq_true, if_false]
      omega
    | true =>
      simp only [UtcOffset.seconds, if_true]
      omega

/-! ## The calendar -/

/-- The leap years. -/
theorem isLeapYear_iff (year : Nat) : isLeapYear year = true ↔ Calendar.IsLeap year := by
  unfold isLeapYear Calendar.IsLeap
  rw [Bool.and_eq_true, Bool.or_eq_true, decide_eq_true_eq, decide_eq_true_eq, decide_eq_true_eq]
  omega

/-- The lengths of the months. -/
theorem daysInMonth_eq (year : Nat) {month : Nat} (hpos : 1 ≤ month) (hle : month ≤ 12) :
    daysInMonth year month = Calendar.monthLength year month := by
  have hfebruary : Calendar.monthLength year 2 = if Calendar.IsLeap year then 29 else 28 := if_pos rfl
  interval_cases month
  all_goals first
    | rfl
    | exact (if_congr (isLeapYear_iff year) rfl rfl).trans hfebruary.symm

/-- A year's era, which is counted down for the years before the first. -/
theorem era_eq (year : Int) : (if year ≥ 0 then year else year - 399).tdiv 400 = year / 400 := by
  split
  · rename_i hpos
    exact Int.tdiv_eq_ediv_of_nonneg hpos
  · rename_i hneg
    rw [Int.tdiv_eq_ediv]
    split
    · omega
    · have hsign : Int.sign 400 = 1 := rfl
      rw [hsign]
      omega

/-- The year that begins in March. -/
theorem shiftedYear_eq (date : Calendar.Date) :
    (if (date.month : Int) ≤ 2 then date.year - 1 else date.year) = date.marchYear :=
  if_congr (by omega) rfl rfl

/-- The month of that year. -/
theorem shiftedMonth_eq (date : Calendar.Date) :
    (if (date.month : Int) > 2 then (date.month : Int) - 3 else date.month + 9) = Calendar.marchMonth date.month := by
  unfold Calendar.marchMonth
  split <;> split <;> omega

/-- The days before it. -/
theorem monthDays_eq (month : Nat) : (153 * (month : Int) + 2).tdiv 5 = Calendar.monthStart month := by
  unfold Calendar.monthStart
  rw [Int.tdiv_eq_ediv_of_nonneg (by omega)]
  omega

/-- The days of a date are counted from the epoch. -/
theorem daysFromCivil_eq (date : Calendar.Date) :
    daysFromCivil date.year date.month date.day = date.dayNumber - 719468 := by
  have hday := date.day_pos
  unfold daysFromCivil
  simp only [shiftedYear_eq, shiftedMonth_eq, monthDays_eq, era_eq]
  rw [Int.tdiv_eq_ediv_of_nonneg (by omega), Int.tdiv_eq_ediv_of_nonneg (by omega)]
  unfold Calendar.Date.dayNumber Calendar.Date.marchDay Calendar.yearStart
  omega

/-! ## The seconds -/

/-- The result of `i64` arithmetic is the number if it has room. -/
theorem toI64_eq_ok_iff {ε : Type} {n : Int} (h : -2 ^ 63 ≤ n ∧ n < 2 ^ 63) {s : Int64} :
    (Checked.toI64 n : Checked ε Int64) = .ok s ↔ s.toInt = n := by
  unfold Checked.toI64
  rw [if_pos h]
  constructor
  · intro hs
    obtain rfl := Checked.ok.inj hs
    exact Int64.toInt_ofInt_of_le h.1 h.2
  · intro hs
    rw [← hs, Int64.ofInt_toInt]

/-- The seconds of a date of the format, at any time of day and offset, are in the range of an `i64`. -/
theorem seconds_fit (date : Calendar.Date) (hyear : 0 ≤ date.year) (hyear' : date.year ≤ 9999) {time offset : Int}
    (htime : 0 ≤ time ∧ time < 86400) (hoffset : -86400 < offset ∧ offset < 86400) :
    -2 ^ 63 ≤ (date.dayNumber - 719468) * 86400 + time - offset ∧ (date.dayNumber - 719468) * 86400 + time - offset < 2 ^ 63 := by
  have hbounds := date.dayNumber_bounds hyear hyear'
  rw [Calendar.januaryFirst_eq, Calendar.januaryFirst_eq] at hbounds
  omega

section

variable {year month day hour minute second : Nat} {offset : Int}

/-- The time of a day is less than a day. -/
theorem time_bounds (hhour : hour ≤ 23) (hminute : minute ≤ 59) (hsecond : second ≤ 59) :
    (0 : Int) ≤ hour * 3600 + minute * 60 + second ∧ (hour * 3600 + minute * 60 + second : Int) < 86400 := by
  omega

/-- Fields that are out of range are refused. -/
theorem toUnixSeconds_cases (year month day hour minute second : Nat) (offset : Int) :
    (∃ problem, toUnixSeconds year month day hour minute second offset = .error problem) ∨
      (hour ≤ 23 ∧ minute ≤ 59 ∧ second ≤ 59) ∧
        ∃ date : Calendar.Date, date.year = year ∧ date.month = month ∧ date.day = day := by
  unfold toUnixSeconds
  split
  · exact .inl ⟨_, rfl⟩
  · rename_i hmonth
    obtain ⟨hpos, hle⟩ := Decidable.not_not.1 hmonth
    rw [daysInMonth_eq year hpos hle]
    split
    · exact .inl ⟨_, rfl⟩
    · rename_i hday
      obtain ⟨hdayPos, hdayLe⟩ := not_or.1 hday
      split
      · exact .inl ⟨_, rfl⟩
      · rename_i hhour
        split
        · exact .inl ⟨_, rfl⟩
        · rename_i hminute
          split
          · exact .inl ⟨_, rfl⟩
          · rename_i hsecond
            refine .inr ⟨⟨Nat.le_of_not_lt hhour, Nat.le_of_not_lt hminute, Nat.le_of_not_lt hsecond⟩, ?_⟩
            exact ⟨⟨year, month, day, hpos, hle, Nat.le_of_not_lt hdayPos, Nat.le_of_not_lt hdayLe⟩, rfl, rfl, rfl⟩

/-- The seconds of those that are not are counted from the epoch. -/
theorem toUnixSeconds_eq {date : Calendar.Date} (hdate : date.year = year ∧ date.month = month ∧ date.day = day)
    (htime : hour ≤ 23 ∧ minute ≤ 59 ∧ second ≤ 59) :
    toUnixSeconds year month day hour minute second offset =
      Checked.toI64 ((date.dayNumber - 719468) * 86400 + (hour * 3600 + minute * 60 + second) - offset) := by
  obtain ⟨hy, hm, hd⟩ := hdate
  obtain ⟨hhour, hminute, hsecond⟩ := htime
  have hpos := date.month_pos
  have hle := date.month_le
  have hdayPos := date.day_pos
  have hdayLe := date.day_le
  have hdays := daysFromCivil_eq date
  rw [hm] at hpos hle
  rw [hd] at hdayPos
  rw [hd, hy, hm, ← daysInMonth_eq year hpos hle] at hdayLe
  rw [hy, hm, hd] at hdays
  unfold toUnixSeconds
  rw [if_neg (not_not.2 ⟨hpos, hle⟩), if_neg (by omega), if_neg (by omega), if_neg (by omega), if_neg (by omega), hdays]
  exact congrArg Checked.toI64 (by omega)

/-- The fields that are accepted are those of a date and a time of day. -/
theorem toUnixSeconds_eq_ok_iff (hyear : year < 10000) (hoffset : -86400 < offset ∧ offset < 86400) {s : Int64} :
    toUnixSeconds year month day hour minute second offset = .ok s ↔
      ∃ date : Calendar.Date, (date.year = year ∧ date.month = month ∧ date.day = day) ∧
        (hour ≤ 23 ∧ minute ≤ 59 ∧ second ≤ 59) ∧
        s.toInt = (date.dayNumber - 719468) * 86400 + (hour * 3600 + minute * 60 + second) - offset := by
  constructor
  · intro h
    rcases toUnixSeconds_cases year month day hour minute second offset with ⟨problem, herror⟩ | ⟨htime, date, hdate⟩
    · rw [herror] at h
      exact nomatch h
    · have hfit := seconds_fit date (by omega) (by omega) (time_bounds htime.1 htime.2.1 htime.2.2) hoffset
      rw [toUnixSeconds_eq hdate htime, toI64_eq_ok_iff hfit] at h
      exact ⟨date, hdate, htime, h⟩
  · rintro ⟨date, hdate, htime, hs⟩
    have hfit := seconds_fit date (by omega) (by omega) (time_bounds htime.1 htime.2.1 htime.2.2) hoffset
    rw [toUnixSeconds_eq hdate htime, toI64_eq_ok_iff hfit]
    exact hs

/-- Counting the seconds does not overflow. -/
theorem toUnixSeconds_ne_panicked (hyear : year < 10000) (hoffset : -86400 < offset ∧ offset < 86400) :
    toUnixSeconds year month day hour minute second offset ≠ .panicked := by
  rcases toUnixSeconds_cases year month day hour minute second offset with ⟨problem, herror⟩ | ⟨htime, date, hdate⟩
  · rw [herror]
    exact fun h => nomatch h
  · have hfit := seconds_fit date (by omega) (by omega) (time_bounds htime.1 htime.2.1 htime.2.2) hoffset
    rw [toUnixSeconds_eq hdate htime]
    unfold Checked.toI64
    rw [if_pos hfit]
    exact fun h => nomatch h

end

/-! ## The instant a timestamp names -/

/-- The nanoseconds are less than a second. -/
theorem nanos_lt (t : Rfc3339) : t.nanos < 10 ^ 9 := by
  have hlt : ∀ digit ∈ (t.fraction ++ List.replicate 9 0).take 9, digit < 10 := by
    intro digit hdigit
    rcases List.mem_append.1 (List.mem_of_mem_take hdigit) with hin | hzero
    · exact t.fraction_lt digit hin
    · rw [List.eq_of_mem_replicate hzero]
      decide
  have hlen : ((t.fraction ++ List.replicate 9 0).take 9).length = 9 := by
    rw [List.length_take, List.length_append, List.length_replicate]
    exact Nat.min_eq_left (Nat.le_add_left _ _)
  have h := Decimals.ofDigits_lt hlt
  rwa [hlen] at h

/-- The days since the epoch are counted by the numbers of the dates. -/
theorem daysSinceEpoch_iff {date : Calendar.Date} {days : Int} :
    Calendar.DaysBetween epochDate date days ↔ days = date.dayNumber - 719468 :=
  Calendar.numbering_dayNumber.daysBetween_iff

/-- So is the instant a timestamp names. -/
theorem names_iff {t : Rfc3339} {seconds : Int} {nanos : Nat} :
    t.Names seconds nanos ↔
      seconds = (t.date.dayNumber - 719468) * 86400 + (t.hour * 3600 + t.minute * 60 + t.second) - t.offset.seconds ∧
        nanos = t.nanos := by
  unfold Rfc3339.Names
  simp only [daysSinceEpoch_iff, exists_eq_left]
  refine and_congr_left fun _ => ?_
  omega

/-! ## The layout -/

section

variable {bytes : List UInt8} {i start stop : Nat}

/-- A byte the layout has is the next one. -/
theorem expectByte_eq_ok_iff {allowed : List UInt8} (hi : i < bytes.length) :
    expectByte bytes i allowed = .ok () ↔ ∃ byte ∈ allowed, bytes.drop i = byte :: bytes.drop (i + 1) := by
  have hindex : (Checked.index bytes i : Checked String UInt8) = .ok bytes[i] := by
    unfold Checked.index
    rw [List.getElem?_eq_getElem hi]
  have hdrop := List.drop_eq_getElem_cons hi
  unfold expectByte
  rw [hindex, bind_eq_ok_iff, hdrop]
  constructor
  · rintro ⟨byte, hbyte, h⟩
    obtain rfl := Checked.ok.inj hbyte
    split at h
    · rename_i hmem
      exact ⟨_, hmem, rfl⟩
    · exact nomatch h
  · rintro ⟨byte, hmem, hcons⟩
    obtain rfl := (List.cons.inj hcons).1
    exact ⟨_, rfl, if_pos hmem⟩

theorem expectByte_ne_panicked {allowed : List UInt8} (hi : i < bytes.length) : expectByte bytes i allowed ≠ .panicked := by
  unfold expectByte Checked.index
  rw [List.getElem?_eq_getElem hi]
  refine bind_ne_panicked (fun h => nomatch h) fun byte _ => ?_
  split
  · exact fun h => nomatch h
  · exact fun h => nomatch h

/-- A number the layout has is the next one. -/
theorem field_eq_ok_iff {value : Nat} (hle : start ≤ stop) (hstop : stop ≤ bytes.length) :
    field bytes start stop = .ok value ↔
      value < 10 ^ (stop - start) ∧ bytes.drop start = Decimals.fixed (stop - start) value ++ bytes.drop stop := by
  have hslice : (Checked.slice bytes start stop : Checked String (List UInt8)) = .ok ((bytes.take stop).drop start) :=
    if_pos ⟨hle, hstop⟩
  have hlen : ((bytes.take stop).drop start).length = stop - start := by
    rw [List.length_drop, List.length_take, Nat.min_eq_left hstop]
  have hsplit : bytes.drop start = (bytes.take stop).drop start ++ bytes.drop stop := by
    rw [← List.drop_append_of_le_length (by rwa [List.length_take, Nat.min_eq_left hstop]), List.take_append_drop]
  unfold field
  rw [hslice, bind_eq_ok_iff]
  constructor
  · rintro ⟨digits, hdigits, h⟩
    obtain rfl := Checked.ok.inj hdigits
    rw [okOr_eq_ok_iff, digits_eq, Decimals.value?_eq_some_iff, hlen] at h
    refine ⟨h.1, ?_⟩
    rw [hsplit, ← h.2]
  · rintro ⟨hlt, h⟩
    rw [hsplit] at h
    refine ⟨_, rfl, okOr_eq_ok_iff.2 ?_⟩
    rw [digits_eq, Decimals.value?_eq_some_iff, hlen]
    exact ⟨hlt, List.append_cancel_right h⟩

theorem field_ne_panicked (hle : start ≤ stop) (hstop : stop ≤ bytes.length) : field bytes start stop ≠ .panicked := by
  unfold field Checked.slice
  rw [if_pos ⟨hle, hstop⟩]
  exact bind_ne_panicked (fun h => nomatch h) fun _ _ => okOr_ne_panicked _ _

/-- The rest is what follows. -/
theorem slice_rest (hle : start ≤ bytes.length) :
    (Checked.slice bytes start bytes.length : Checked String (List UInt8)) = .ok (bytes.drop start) := by
  unfold Checked.slice
  rw [if_pos ⟨hle, Nat.le_refl _⟩, List.take_length]

/-- The layout and the offset are all that a timestamp has to have. -/
theorem le_length_bytes (t : Rfc3339) : 19 ≤ t.bytes.length := by
  unfold Rfc3339.bytes
  simp only [List.length_append, List.length_cons, Decimals.length_fixed]
  omega

/-- What is read is a timestamp that names the instant. -/
theorem parseRfc3339Bytes_sound {s : Int64} {n : UInt32} (h : parseRfc3339Bytes bytes = .ok (s, n)) :
    ∃ t : Rfc3339, bytes = t.bytes ∧ t.Names s.toInt n.toNat := by
  unfold parseRfc3339Bytes at h
  split at h
  · exact nomatch h
  · rename_i hshort
    have hlen := Nat.le_of_not_lt hshort
    obtain ⟨_, hdash, h⟩ := bind_eq_ok_iff.1 h
    obtain ⟨_, hdash', h⟩ := bind_eq_ok_iff.1 h
    obtain ⟨_, hcolon, h⟩ := bind_eq_ok_iff.1 h
    obtain ⟨_, hcolon', h⟩ := bind_eq_ok_iff.1 h
    obtain ⟨_, hseparator, h⟩ := bind_eq_ok_iff.1 h
    obtain ⟨year, hyear, h⟩ := bind_eq_ok_iff.1 h
    obtain ⟨month, hmonth, h⟩ := bind_eq_ok_iff.1 h
    obtain ⟨day, hday, h⟩ := bind_eq_ok_iff.1 h
    obtain ⟨hour, hhour, h⟩ := bind_eq_ok_iff.1 h
    obtain ⟨minute, hminute, h⟩ := bind_eq_ok_iff.1 h
    obtain ⟨second, hsecond, h⟩ := bind_eq_ok_iff.1 h
    obtain ⟨after, hafter, h⟩ := bind_eq_ok_iff.1 h
    obtain ⟨⟨nanos, rest⟩, hfraction, h⟩ := bind_eq_ok_iff.1 h
    obtain ⟨seconds, hoffset, h⟩ := bind_eq_ok_iff.1 h
    obtain ⟨s', hs, h⟩ := bind_eq_ok_iff.1 h
    obtain ⟨rfl, rfl⟩ := Prod.mk.inj (Checked.ok.inj h)
    obtain ⟨_, hmem, hdash⟩ := (expectByte_eq_ok_iff (by omega)).1 hdash
    obtain rfl := List.mem_singleton.1 hmem
    obtain ⟨_, hmem, hdash'⟩ := (expectByte_eq_ok_iff (by omega)).1 hdash'
    obtain rfl := List.mem_singleton.1 hmem
    obtain ⟨_, hmem, hcolon⟩ := (expectByte_eq_ok_iff (by omega)).1 hcolon
    obtain rfl := List.mem_singleton.1 hmem
    obtain ⟨_, hmem, hcolon'⟩ := (expectByte_eq_ok_iff (by omega)).1 hcolon'
    obtain rfl := List.mem_singleton.1 hmem
    obtain ⟨separator, separator_mem, hseparator⟩ := (expectByte_eq_ok_iff (by omega)).1 hseparator
    obtain ⟨hyearLt, hyear⟩ := (field_eq_ok_iff (by omega) (by omega)).1 hyear
    obtain ⟨-, hmonth⟩ := (field_eq_ok_iff (by omega) (by omega)).1 hmonth
    obtain ⟨-, hday⟩ := (field_eq_ok_iff (by omega) (by omega)).1 hday
    obtain ⟨-, hhour⟩ := (field_eq_ok_iff (by omega) (by omega)).1 hhour
    obtain ⟨-, hminute⟩ := (field_eq_ok_iff (by omega) (by omega)).1 hminute
    obtain ⟨-, hsecond⟩ := (field_eq_ok_iff (by omega) (by omega)).1 hsecond
    rw [slice_rest hlen] at hafter
    obtain rfl := Checked.ok.inj hafter
    obtain ⟨fraction, fraction_lt, hrest, rfl⟩ := parseFraction_sound hfraction
    obtain ⟨offset, rfl, rfl⟩ := parseOffset_sound hoffset
    obtain ⟨date, ⟨hy, rfl, rfl⟩, ⟨hour_le, minute_le, second_le⟩, hs⟩ :=
      (toUnixSeconds_eq_ok_iff hyearLt (offset_bounds offset)).1 hs
    obtain ⟨t, rfl, rfl, rfl, rfl, rfl, rfl, rfl⟩ : ∃ t : Rfc3339, t.date = date ∧ t.separator = separator ∧ t.hour = hour ∧
        t.minute = minute ∧ t.second = second ∧ t.fraction = fraction ∧ t.offset = offset :=
      ⟨{ date, separator, hour, minute, second, fraction, offset, separator_mem, hour_le, minute_le, second_le, fraction_lt,
         year_nonneg := by omega, year_le := by omega }, rfl, rfl, rfl, rfl, rfl, rfl, rfl⟩
    refine ⟨t, ?_, names_iff.2 ⟨hs, UInt32.toNat_ofNat_of_lt' (Nat.lt_trans (nanos_lt t) (by decide))⟩⟩
    -- The parts are next to each other, so they are all there is.
    have hbytes : bytes.drop 0 = t.bytes := by
      rw [hyear, hdash, hmonth, hdash', hday, hseparator, hhour, hcolon, hminute, hcolon', hsecond, hrest]
      unfold Rfc3339.bytes
      simp only [List.append_assoc, List.cons_append, hy, Int.toNat_natCast]
    exact hbytes

/-- Every timestamp is read. -/
theorem parseRfc3339Bytes_complete (t : Rfc3339) {s : Int64} {n : UInt32} (h : t.Names s.toInt n.toNat) :
    parseRfc3339Bytes t.bytes = .ok (s, n) := by
  have hlen := le_length_bytes t
  obtain ⟨hseconds, hnanos⟩ := names_iff.1 h
  have hyearLe := t.year_le
  have hyearLt : t.date.year.toNat < 10000 := by omega
  have hy : t.date.year = (t.date.year.toNat : Int) := (Int.toNat_of_nonneg t.year_nonneg).symm
  have hdayLt : t.date.day < 100 :=
    Nat.lt_of_le_of_lt (Nat.le_trans t.date.day_le (Calendar.monthLength_le t.date.year t.date.month)) (by decide)
  -- The punctuation, the numbers and what follows them, each where the layout has it.
  have hdash : expectByte t.bytes 4 ['-'.toUInt8] = .ok () :=
    (expectByte_eq_ok_iff (by omega)).2 ⟨_, List.mem_singleton_self _, by simp [Rfc3339.bytes]⟩
  have hdash' : expectByte t.bytes 7 ['-'.toUInt8] = .ok () :=
    (expectByte_eq_ok_iff (by omega)).2 ⟨_, List.mem_singleton_self _, by simp [Rfc3339.bytes]⟩
  have hcolon : expectByte t.bytes 13 [':'.toUInt8] = .ok () :=
    (expectByte_eq_ok_iff (by omega)).2 ⟨_, List.mem_singleton_self _, by simp [Rfc3339.bytes]⟩
  have hcolon' : expectByte t.bytes 16 [':'.toUInt8] = .ok () :=
    (expectByte_eq_ok_iff (by omega)).2 ⟨_, List.mem_singleton_self _, by simp [Rfc3339.bytes]⟩
  have hseparator : expectByte t.bytes 10 ['T'.toUInt8, 't'.toUInt8, ' '.toUInt8] = .ok () :=
    (expectByte_eq_ok_iff (by omega)).2 ⟨_, t.separator_mem, by simp [Rfc3339.bytes]⟩
  have hyear : field t.bytes 0 4 = .ok t.date.year.toNat :=
    (field_eq_ok_iff (by omega) (by omega)).2 ⟨hyearLt, by simp [Rfc3339.bytes]⟩
  have hmonth : field t.bytes 5 7 = .ok t.date.month :=
    (field_eq_ok_iff (by omega) (by omega)).2 ⟨Nat.lt_of_le_of_lt t.date.month_le (by decide), by simp [Rfc3339.bytes]⟩
  have hday : field t.bytes 8 10 = .ok t.date.day :=
    (field_eq_ok_iff (by omega) (by omega)).2 ⟨hdayLt, by simp [Rfc3339.bytes]⟩
  have hhour : field t.bytes 11 13 = .ok t.hour :=
    (field_eq_ok_iff (by omega) (by omega)).2 ⟨Nat.lt_of_le_of_lt t.hour_le (by decide), by simp [Rfc3339.bytes]⟩
  have hminute : field t.bytes 14 16 = .ok t.minute :=
    (field_eq_ok_iff (by omega) (by omega)).2 ⟨Nat.lt_of_le_of_lt t.minute_le (by decide), by simp [Rfc3339.bytes]⟩
  have hsecond : field t.bytes 17 19 = .ok t.second :=
    (field_eq_ok_iff (by omega) (by omega)).2 ⟨Nat.lt_of_le_of_lt t.second_le (by decide), by simp [Rfc3339.bytes]⟩
  have hrest : t.bytes.drop 19 = Rfc3339.fractionBytes t.fraction ++ t.offset.bytes := by simp [Rfc3339.bytes]
  have hfraction := parseFraction_bytes t.fraction_lt (head_offset t.offset)
  have hs : toUnixSeconds t.date.year.toNat t.date.month t.date.day t.hour t.minute t.second t.offset.seconds = .ok s :=
    (toUnixSeconds_eq_ok_iff hyearLt (offset_bounds t.offset)).2
      ⟨t.date, ⟨hy, rfl, rfl⟩, ⟨t.hour_le, t.minute_le, t.second_le⟩, hseconds⟩
  have hn : UInt32.ofNat t.nanos = n := by
    rw [← hnanos, UInt32.ofNat_toNat]
  unfold parseRfc3339Bytes
  rw [if_neg (Nat.not_lt.2 hlen)]
  simp only [hdash, hdash', hcolon, hcolon', hseparator, hyear, hmonth, hday, hhour, hminute, hsecond, slice_rest hlen, hrest,
    hfraction, parseOffset_bytes, hs, ok_bind]
  exact congrArg (fun n => Checked.ok (s, n)) hn

/-- No bytes make the parser panic: every index and slice is within them, and nothing overflows. -/
theorem parseRfc3339Bytes_ne_panicked (bytes : List UInt8) : parseRfc3339Bytes bytes ≠ .panicked := by
  unfold parseRfc3339Bytes
  split
  · exact fun h => nomatch h
  · rename_i hshort
    have hlen := Nat.le_of_not_lt hshort
    refine bind_ne_panicked (expectByte_ne_panicked (by omega)) fun _ _ => ?_
    refine bind_ne_panicked (expectByte_ne_panicked (by omega)) fun _ _ => ?_
    refine bind_ne_panicked (expectByte_ne_panicked (by omega)) fun _ _ => ?_
    refine bind_ne_panicked (expectByte_ne_panicked (by omega)) fun _ _ => ?_
    refine bind_ne_panicked (expectByte_ne_panicked (by omega)) fun _ _ => ?_
    refine bind_ne_panicked (field_ne_panicked (by omega) (by omega)) fun year hyear => ?_
    refine bind_ne_panicked (field_ne_panicked (by omega) (by omega)) fun month _ => ?_
    refine bind_ne_panicked (field_ne_panicked (by omega) (by omega)) fun day _ => ?_
    refine bind_ne_panicked (field_ne_panicked (by omega) (by omega)) fun hour _ => ?_
    refine bind_ne_panicked (field_ne_panicked (by omega) (by omega)) fun minute _ => ?_
    refine bind_ne_panicked (field_ne_panicked (by omega) (by omega)) fun second _ => ?_
    refine bind_ne_panicked (by rw [slice_rest hlen]; exact fun h => nomatch h) fun after _ => ?_
    refine bind_ne_panicked (parseFraction_ne_panicked after) fun fraction _ => ?_
    refine bind_ne_panicked (parseOffset_ne_panicked fraction.2) fun seconds hseconds => ?_
    obtain ⟨hyearLt, -⟩ := (field_eq_ok_iff (by omega) (by omega)).1 hyear
    obtain ⟨offset, -, rfl⟩ := parseOffset_sound hseconds
    exact bind_ne_panicked (toUnixSeconds_ne_panicked hyearLt (offset_bounds offset)) fun _ _ h => nomatch h

end

/-! ## Texts -/

/-- An ASCII character is one byte. -/
theorem utf8Encode_ascii {byte : UInt8} (h : byte.toNat < 128) : ([Char.ofUInt8 byte].utf8Encode).data.toList = [byte] := by
  have hval : (Char.ofUInt8 byte).val.toNat = byte.toNat := UInt8.toNat_toUInt32 byte
  have hsize : (Char.ofUInt8 byte).utf8Size = 1 := by
    unfold Char.utf8Size
    rw [if_pos]
    rw [UInt32.le_iff_toNat_le, hval]
    exact Nat.le_of_lt_succ h
  have hbyte : (Char.ofUInt8 byte).val.toUInt8 = byte := by
    rw [← UInt8.toNat_inj, UInt32.toNat_toUInt8, hval]
    exact Nat.mod_eq_of_lt byte.toNat_lt
  rw [List.utf8Encode_singleton, String.utf8EncodeChar_eq_singleton hsize, hbyte]
  rfl

/-- ASCII bytes are those of the string of their characters. -/
theorem asBytes_ofList {bytes : List UInt8} (h : ∀ byte ∈ bytes, byte.toNat < 128) :
    asBytes (String.ofList (bytes.map Char.ofUInt8)) = bytes := by
  unfold asBytes
  rw [String.toUTF8_eq_toByteArray, String.toByteArray_ofList]
  induction bytes with
  | nil => rw [List.map_nil, List.utf8Encode_nil]; rfl
  | cons byte bytes ih =>
    rw [List.map_cons, List.utf8Encode_cons, ByteArray.data_append, Array.toList_append, utf8Encode_ascii (h byte List.mem_cons_self),
      ih fun b hb => h b (List.mem_cons_of_mem _ hb)]
    rfl

/-- Digits are ASCII. -/
theorem digit_ascii {digit : Nat} (h : digit < 10) : (Decimals.digitByte digit).toNat < 128 := by
  rw [Decimals.toNat_digitByte h]
  omega

/-- Numbers are written in ASCII. -/
theorem fixed_ascii {width value : Nat} {byte : UInt8} (h : byte ∈ Decimals.fixed width value) : byte.toNat < 128 := by
  obtain ⟨digit, hlt, rfl⟩ := Decimals.exists_digit_of_mem_fixed h
  exact digit_ascii hlt

/-- Fractions are. -/
theorem fractionBytes_ascii {fraction : List Nat} (hlt : ∀ digit ∈ fraction, digit < 10) :
    ∀ byte ∈ Rfc3339.fractionBytes fraction, byte.toNat < 128 := by
  cases fraction with
  | nil => exact fun _ h => nomatch h
  | cons digit digits =>
    refine List.forall_mem_cons.2 ⟨by decide, fun byte hbyte => ?_⟩
    obtain ⟨d, hd, rfl⟩ := List.mem_map.1 hbyte
    exact digit_ascii (hlt d hd)

/-- Offsets are. -/
theorem offset_ascii (offset : UtcOffset) : ∀ byte ∈ offset.bytes, byte.toNat < 128 := by
  cases offset with
  | utc letter hletter =>
    refine List.forall_mem_singleton.2 ?_
    rcases hletter with rfl | rfl
    · decide
    · decide
  | signed negative hour minute hour_le minute_le =>
    unfold UtcOffset.bytes
    simp only [List.cons_append, List.forall_mem_append, List.forall_mem_cons]
    refine ⟨?_, fun _ => fixed_ascii, by decide, fun _ => fixed_ascii⟩
    cases negative with
    | false => decide
    | true => decide

/-- So are timestamps. -/
theorem bytes_ascii (t : Rfc3339) : ∀ byte ∈ t.bytes, byte.toNat < 128 := by
  have hseparator : ∀ byte ∈ ['T'.toUInt8, 't'.toUInt8, ' '.toUInt8], byte.toNat < 128 :=
    List.forall_mem_cons.2 ⟨by decide, List.forall_mem_cons.2 ⟨by decide, List.forall_mem_singleton.2 (by decide)⟩⟩
  unfold Rfc3339.bytes
  simp only [List.append_assoc, List.cons_append, List.forall_mem_append, List.forall_mem_cons]
  exact ⟨fun _ => fixed_ascii, by decide, fun _ => fixed_ascii, by decide, fun _ => fixed_ascii, hseparator _ t.separator_mem,
    fun _ => fixed_ascii, by decide, fun _ => fixed_ascii, by decide, fun _ => fixed_ascii,
    fractionBytes_ascii t.fraction_lt, offset_ascii t.offset⟩

/-- The text of a timestamp has its bytes. -/
theorem asBytes_text (t : Rfc3339) : asBytes t.text = t.bytes := asBytes_ofList (bytes_ascii t)

/-! ## A timestamp for an instant -/

/-- An instant whose local date is one of the format has a timestamp. -/
theorem ofInstant_names {seconds : Int} {nanos : Nat} {offset : UtcOffset} {date : Calendar.Date}
    (hdate : Calendar.DaysBetween epochDate date ((seconds + offset.seconds) / 86400)) (hyear : 0 ≤ date.year)
    (hyear' : date.year ≤ 9999) (hnanos : nanos < 10 ^ 9) :
    ∃ t, Rfc3339.ofInstant seconds nanos offset = some t ∧ t.offset = offset ∧ t.Names seconds nanos := by
  have hfirst : firstDate.dayNumber = -60 := by decide
  have hdays := daysSinceEpoch_iff.1 hdate
  have hbounds := date.dayNumber_bounds hyear hyear'
  rw [Calendar.januaryFirst_eq, Calendar.januaryFirst_eq] at hbounds
  have hpos : 0 ≤ (seconds + offset.seconds) / 86400 + 719528 := by omega
  have hsame : firstDate.after ((seconds + offset.seconds) / 86400 + 719528).toNat = date := by
    refine Calendar.numbering_dayNumber.injective ?_
    rw [Calendar.numbering_dayNumber.after, hfirst, Int.toNat_of_nonneg hpos]
    omega
  unfold Rfc3339.ofInstant
  simp only [hsame]
  rw [dif_pos ⟨hpos, hyear, hyear'⟩]
  refine ⟨_, rfl, rfl, names_iff.2 ⟨?_, ?_⟩⟩
  · dsimp only
    omega
  · unfold Rfc3339.nanos
    rw [List.take_left' (Decimals.length_digitsOf _ _), Decimals.ofDigits_digitsOf hnanos]

/-- The instant a timestamp names is in the range of what is returned. -/
theorem exists_names (t : Rfc3339) : ∃ (s : Int64) (n : UInt32), t.Names s.toInt n.toNat := by
  obtain ⟨hlow, hhigh⟩ := seconds_fit t.date t.year_nonneg t.year_le (time_bounds t.hour_le t.minute_le t.second_le)
    (offset_bounds t.offset)
  refine ⟨Int64.ofInt _, UInt32.ofNat t.nanos, names_iff.2 ⟨Int64.toInt_ofInt_of_le hlow hhigh, ?_⟩⟩
  exact UInt32.toNat_ofNat_of_lt' (Nat.lt_trans (nanos_lt t) (by decide))

/-- A timestamp names one instant. -/
theorem names_unique {t : Rfc3339} {seconds seconds' : Int} {nanos nanos' : Nat} (h : t.Names seconds nanos)
    (h' : t.Names seconds' nanos') : seconds = seconds' ∧ nanos = nanos' := by
  obtain ⟨hs, hn⟩ := names_iff.1 h
  obtain ⟨hs', hn'⟩ := names_iff.1 h'
  exact ⟨hs.trans hs'.symm, hn.trans hn'.symm⟩

/-- The text of a timestamp is read as the instant it names. -/
theorem parseRfc3339_text (t : Rfc3339) : ∃ s n, parseRfc3339 t.text = .ok (s, n) ∧ t.Names s.toInt n.toNat := by
  obtain ⟨s, n, h⟩ := exists_names t
  refine ⟨s, n, ?_, h⟩
  unfold parseRfc3339
  rw [asBytes_text]
  exact parseRfc3339Bytes_complete t h

end TimestampAux

end RociaSdk

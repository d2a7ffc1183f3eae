import Mathlib.Algebra.Group.Int.Defs
import RociaSdk.Retry

/-!
# File timestamps

`FileTimestamp` and its hand-written parser (`file.rs`): a string the server wrote, read as an instant when it is asked for.
What can panic is written so: an index or a slice out of range, and arithmetic that overflows. An instant is the number of
nanoseconds since `UNIX_EPOCH`, and a platform's `SystemTime` is known by which instants it can represent.
-/

namespace RociaSdk

/-! ## What can panic -/

/-- What a function comes to that reports an error or panics. -/
inductive Checked (ε α : Type) where
  | ok (value : α)
  | error (e : ε)
  | panicked
deriving DecidableEq, Repr

namespace Checked

variable {ε α β : Type}

/-- One function after another: `?`. -/
def bind : Checked ε α → (α → Checked ε β) → Checked ε β
  | ok value, k => k value
  | error e, _ => error e
  | panicked, _ => panicked

instance : Monad (Checked ε) where
  pure := ok
  bind := bind

/-- `Option::ok_or`. -/
def okOr (e : ε) : Option α → Checked ε α
  | some value => ok value
  | none => error e

/-- `bytes[i]`. -/
def index (bytes : List UInt8) (i : Nat) : Checked ε UInt8 :=
  match bytes[i]? with
  | some byte => ok byte
  | none => panicked

/-- `&bytes[start..stop]`. -/
def slice (bytes : List UInt8) (start stop : Nat) : Checked ε (List UInt8) :=
  if start ≤ stop ∧ stop ≤ bytes.length then ok ((bytes.take stop).drop start) else panicked

/-- `bytes.split_at(mid)`. -/
def splitAt (bytes : List UInt8) (mid : Nat) : Checked ε (List UInt8 × List UInt8) :=
  if mid ≤ bytes.length then ok (bytes.take mid, bytes.drop mid) else panicked

/-- `a - b` on a `u8`. -/
def subU8 (a b : UInt8) : Checked ε UInt8 := if b ≤ a then ok (a - b) else panicked

/-- `a - b` on a `usize`. -/
def subUsize (a b : Nat) : Checked ε Nat := if b ≤ a then ok (a - b) else panicked

/-- A number that `i64` arithmetic goes on with. -/
def i64 (n : Int) : Checked ε Int := if -2 ^ 63 ≤ n ∧ n < 2 ^ 63 then ok n else panicked

/-- The result of `i64` arithmetic. -/
def toI64 (n : Int) : Checked ε Int64 := if -2 ^ 63 ≤ n ∧ n < 2 ^ 63 then ok (Int64.ofInt n) else panicked

end Checked

/-! ## The calendar -/

/-- `is_leap_year`. -/
def isLeapYear (year : Nat) : Bool := year % 4 = 0 && (year % 100 ≠ 0 || year % 400 = 0)

/-- `days_in_month`: none for a month that does not exist. -/
def daysInMonth (year month : Nat) : Nat :=
  match month with
  | 1 | 3 | 5 | 7 | 8 | 10 | 12 => 31
  | 4 | 6 | 9 | 11 => 30
  | 2 => if isLeapYear year then 29 else 28
  | _ => 0

/-- `days_from_civil`. On years of four digits its `i64` does not overflow. -/
def daysFromCivil (year : Int) (month day : Nat) : Int :=
  let month : Int := month
  let year := if month ≤ 2 then year - 1 else year
  let era := (if year ≥ 0 then year else year - 399).tdiv 400
  let yearOfEra := year - era * 400
  let dayOfYear := (153 * (if month > 2 then month - 3 else month + 9) + 2).tdiv 5 + day - 1
  let dayOfEra := yearOfEra * 365 + yearOfEra.tdiv 4 - yearOfEra.tdiv 100 + dayOfYear
  era * 146097 + dayOfEra - 719468

/-- `days_from_civil` with its `i64` arithmetic, which panics where it overflows. -/
def daysFromCivilI64 {ε : Type} (year : Int64) (month day : UInt32) : Checked ε Int64 := do
  let month : Int := month.toNat
  let year ← Checked.i64 (if month ≤ 2 then year.toInt - 1 else year.toInt)
  let era := (← Checked.i64 (if year ≥ 0 then year else year - 399)).tdiv 400
  let yearOfEra ← Checked.i64 (year - (← Checked.i64 (era * 400)))
  let shifted ← Checked.i64 (if month > 2 then month - 3 else month + 9)
  let monthDays := (← Checked.i64 ((← Checked.i64 (153 * shifted)) + 2)).tdiv 5
  let dayOfYear ← Checked.i64 ((← Checked.i64 (monthDays + day.toNat)) - 1)
  let leapDays ← Checked.i64 ((← Checked.i64 (yearOfEra * 365)) + yearOfEra.tdiv 4)
  let dayOfEra ← Checked.i64 ((← Checked.i64 (leapDays - yearOfEra.tdiv 100)) + dayOfYear)
  Checked.toI64 ((← Checked.i64 ((← Checked.i64 (era * 146097)) + dayOfEra)) - 719468)

/-! ## The parser -/

/-- The digit a byte is: `byte.checked_sub(b'0').filter(|digit| *digit <= 9)`. -/
def digitOf (byte : UInt8) : Option Nat :=
  if byte < '0'.toUInt8 then none
  else if byte - '0'.toUInt8 ≤ 9 then some (byte - '0'.toUInt8).toNat
  else none

/-- `digits`. It is called on four bytes at most, so its `u32` does not overflow. -/
def digits (bytes : List UInt8) : Option Nat :=
  bytes.foldlM (fun value byte => (digitOf byte).map fun digit => value * 10 + digit) 0

/-- `u8::is_ascii_digit`. -/
def isAsciiDigit (byte : UInt8) : Bool := '0'.toUInt8 ≤ byte && byte ≤ '9'.toUInt8

/-- `fraction.get(index).map_or(0, |byte| u32::from(byte - b'0'))`. -/
def fractionDigit (fraction : List UInt8) (index : Nat) : Checked String Nat :=
  match fraction[index]? with
  | none => .ok 0
  | some byte => do return (← Checked.subU8 byte '0'.toUInt8).toNat

/-- `parse_fraction`: the nanoseconds, whose nine digits fit a `u32`, and what follows the fraction. -/
def parseFraction (rest : List UInt8) : Checked String (Nat × List UInt8) :=
  match rest with
  | [] => .ok (0, rest)
  | dot :: tail =>
    if dot ≠ '.'.toUInt8 then .ok (0, rest)
    else
      let digitCount := (tail.takeWhile isAsciiDigit).length
      if digitCount = 0 then .error "a decimal point must be followed by at least one digit"
      else do
        let (fraction, rest) ← Checked.splitAt tail digitCount
        let nanos ← (List.range 9).foldlM (fun nanos index => do return nanos * 10 + (← fractionDigit fraction index)) 0
        return (nanos, rest)

/-- `OFFSET`. -/
def offsetProblem : String := "expected a Z or +hh:mm offset at the end"

/-- `parse_offset`: the seconds to subtract from the local time. -/
def parseOffset (rest : List UInt8) : Checked String Int :=
  match rest with
  | [letter] => if letter = 'Z'.toUInt8 ∨ letter = 'z'.toUInt8 then .ok 0 else .error offsetProblem
  | [sign, hourTens, hourUnits, colon, minuteTens, minuteUnits] =>
    if colon ≠ ':'.toUInt8 then .error offsetProblem
    else do
      let sign ← Checked.okOr offsetProblem
        (if sign = '+'.toUInt8 then some (1 : Int) else if sign = '-'.toUInt8 then some (-1) else none)
      let hours ← Checked.okOr offsetProblem (digits [hourTens, hourUnits])
      let minutes ← Checked.okOr offsetProblem (digits [minuteTens, minuteUnits])
      if hours > 23 then .error "offset hour is out of range"
      else if minutes > 59 then .error "offset minute is out of range"
      else return sign * (hours * 3600 + minutes * 60)
  | _ => .error offsetProblem

/-- `MISSHAPEN`. -/
def misshapen : String := "expected YYYY-MM-DDThh:mm:ss with a Z or +hh:mm offset"

/-- That a byte at an index is the one the layout has there. -/
def expectByte (bytes : List UInt8) (i : Nat) (allowed : List UInt8) : Checked String Unit := do
  let byte ← Checked.index bytes i
  if byte ∈ allowed then return () else .error misshapen

/-- The number at a range of bytes of the layout. -/
def field (bytes : List UInt8) (start stop : Nat) : Checked String Nat := do
  Checked.okOr misshapen (digits (← Checked.slice bytes start stop))

/-- The range checks of `parse_rfc3339` and the seconds since the epoch. -/
def toUnixSeconds (year month day hour minute second : Nat) (offsetSeconds : Int) : Checked String Int64 :=
  if ¬(1 ≤ month ∧ month ≤ 12) then .error "month is out of range"
  else if day < 1 ∨ day > daysInMonth year month then .error "day is out of range for that month"
  else if hour > 23 then .error "hour is out of range"
  else if minute > 59 then .error "minute is out of range"
  else if second > 59 then .error "second is out of range (a leap second is not accepted)"
  else Checked.toI64 (daysFromCivil year month day * 86400 + hour * 3600 + minute * 60 + second - offsetSeconds)

/-- `parse_rfc3339`, on the bytes of the string. -/
def parseRfc3339Bytes (bytes : List UInt8) : Checked String (Int64 × UInt32) :=
  if bytes.length < 19 then .error misshapen
  else do
    expectByte bytes 4 ['-'.toUInt8]
    expectByte bytes 7 ['-'.toUInt8]
    expectByte bytes 13 [':'.toUInt8]
    expectByte bytes 16 [':'.toUInt8]
    expectByte bytes 10 ['T'.toUInt8, 't'.toUInt8, ' '.toUInt8]
    let year ← field bytes 0 4
    let month ← field bytes 5 7
    let day ← field bytes 8 10
    let hour ← field bytes 11 13
    let minute ← field bytes 14 16
    let second ← field bytes 17 19
    let (nanos, rest) ← parseFraction (← Checked.slice bytes 19 bytes.length)
    let offsetSeconds ← parseOffset rest
    let seconds ← toUnixSeconds year month day hour minute second offsetSeconds
    return (seconds, UInt32.ofNat nanos)

/-- `str::as_bytes`. -/
def asBytes (raw : String) : List UInt8 := raw.toUTF8.data.toList

/-- `parse_rfc3339`. -/
def parseRfc3339 (raw : String) : Checked String (Int64 × UInt32) := parseRfc3339Bytes (asBytes raw)

/-! ## Instants -/

/-- `Duration::new`, which panics when the nanoseconds carry the seconds over. -/
def Duration.new (secs : UInt64) (nanos : UInt32) : Option Duration :=
  if h : secs.toNat + nanos.toNat / 10 ^ 9 < 2 ^ 64 then
    some { nanos := secs.toNat * 10 ^ 9 + nanos.toNat, le_max := by unfold durationMax; omega }
  else none

/-- The `SystemTime` of a platform: the instants it can represent, in nanoseconds from the epoch. `checked_add` and `checked_sub` are
exact on these; `std` documents for Windows that an instant is rounded to a multiple of 100 ns. -/
structure Platform where
  representable : Int → Bool

/-- `UNIX_EPOCH.checked_add`. -/
def Platform.checkedAdd (platform : Platform) (d : Duration) : Option Int :=
  if platform.representable d.nanos then some d.nanos else none

/-- `UNIX_EPOCH.checked_sub`. -/
def Platform.checkedSub (platform : Platform) (d : Duration) : Option Int :=
  if platform.representable (-d.nanos) then some (-d.nanos) else none

/-- `u64::try_from`, on an `i64`. -/
def tryU64 (n : Int64) : Option UInt64 := if 0 ≤ n.toInt then some (UInt64.ofNat n.toInt.toNat) else none

/-- `i64::unsigned_abs`. -/
def unsignedAbs (n : Int64) : UInt64 := UInt64.ofNat n.toInt.natAbs

/-- `a - b` on a `u64`, which panics when it underflows. -/
def subU64 (a b : UInt64) : Option UInt64 := if b ≤ a then some (a - b) else none

/-- `a - b` on a `u32`, which panics when it underflows. -/
def subU32 (a b : UInt32) : Option UInt32 := if b ≤ a then some (a - b) else none

/-- `unix_instant_to_system_time`, or nothing if it panics. -/
def unixInstantToSystemTime (platform : Platform) (seconds : Int64) (nanos : UInt32) : Option (Option Int) :=
  if 0 ≤ seconds.toInt then
    match tryU64 seconds with
    | none => some none
    | some secs => (Duration.new secs nanos).map platform.checkedAdd
  else
    let magnitude :=
      if nanos = 0 then Duration.new (unsignedAbs seconds) 0
      else
        (subU64 (unsignedAbs seconds) 1).bind fun secs =>
          (subU32 1000000000 nanos).bind fun nanos => Duration.new secs nanos
    magnitude.map platform.checkedSub

/-! ## The timestamp -/

/-- `FileTimestamp`. -/
structure FileTimestamp where
  raw : String
deriving DecidableEq, Repr

/-- `FILE_TIMESTAMP_CONTEXT`. -/
def fileTimestampContext : String := "file timestamp"

/-- `MAX_QUOTED_TIMESTAMP_CHARS`. -/
def maxQuotedTimestampChars : Nat := 64

namespace FileTimestamp

/-- `decode_error`. A string's `Debug` form is a parameter. -/
def decodeError (debug : String → String) (t : FileTimestamp) (problem : String) : RociaDbError :=
  let quoted := String.ofList (t.raw.toList.take maxQuotedTimestampChars)
  let truncated := if quoted.utf8ByteSize < t.raw.utf8ByteSize then " (truncated)" else ""
  .decode fileTimestampContext (debug quoted ++ truncated ++ ": " ++ problem)

/-- `unix_instant`. -/
def unixInstant (debug : String → String) (t : FileTimestamp) : Checked RociaDbError (Int64 × UInt32) :=
  match parseRfc3339 t.raw with
  | .ok instant => .ok instant
  | .error problem => .error (t.decodeError debug problem)
  | .panicked => .panicked

/-- `unix_nanos`. Its `i128` has room for every `i64` of seconds. -/
def unixNanos (debug : String → String) (t : FileTimestamp) : Checked RociaDbError Int := do
  let (seconds, nanos) ← t.unixInstant debug
  return seconds.toInt * 10 ^ 9 + nanos.toNat

/-- `system_time`. -/
def systemTime (debug : String → String) (platform : Platform) (t : FileTimestamp) : Checked RociaDbError Int := do
  let (seconds, nanos) ← t.unixInstant debug
  match unixInstantToSystemTime platform seconds nanos with
  | some (some instant) => return instant
  | some none => .error (t.decodeError debug "the instant is outside the range SystemTime can represent here")
  | none => .panicked

end FileTimestamp

end RociaSdk

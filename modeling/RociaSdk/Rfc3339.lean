import RociaSdk.Lib.Calendar
import RociaSdk.Lib.Decimals

/-!
# The timestamps that name an instant

What the documentation of `FileTimestamp` says of the format, apart from the parser: a `Rfc3339` has every field in its range,
`Rfc3339.bytes` writes it, and `Rfc3339.Names` is the instant it names, counted in days of the calendar. `Rfc3339.ofInstant`
is a timestamp for an instant.
-/

namespace RociaSdk

/-- The offset of a timestamp from UTC. -/
inductive UtcOffset where
  | utc (letter : UInt8) (hletter : letter = 'Z'.toUInt8 ∨ letter = 'z'.toUInt8)
  | signed (negative : Bool) (hour minute : Nat) (hour_le : hour ≤ 23) (minute_le : minute ≤ 59)

namespace UtcOffset

/-- An offset, written: `Z`, or a sign and `hh:mm`. -/
def bytes : UtcOffset → List UInt8
  | utc letter _ => [letter]
  | signed negative hour minute _ _ =>
    (if negative then '-'.toUInt8 else '+'.toUInt8) :: Decimals.fixed 2 hour ++ ':'.toUInt8 :: Decimals.fixed 2 minute

/-- The seconds the local time is ahead. -/
def seconds : UtcOffset → Int
  | utc _ _ => 0
  | signed negative hour minute _ _ => (if negative then -1 else 1) * (hour * 3600 + minute * 60)

end UtcOffset

/-- A timestamp, its fraction empty if it has none. -/
structure Rfc3339 where
  date : Calendar.Date
  separator : UInt8
  hour : Nat
  minute : Nat
  second : Nat
  fraction : List Nat
  offset : UtcOffset
  year_nonneg : 0 ≤ date.year
  year_le : date.year ≤ 9999
  separator_mem : separator ∈ ['T'.toUInt8, 't'.toUInt8, ' '.toUInt8]
  hour_le : hour ≤ 23
  minute_le : minute ≤ 59
  second_le : second ≤ 59
  fraction_lt : ∀ digit ∈ fraction, digit < 10

/-- The day the epoch begins with. -/
def epochDate : Calendar.Date := .newYear 1970

/-- The first date of the format. -/
def firstDate : Calendar.Date := .newYear 0

namespace Rfc3339

/-- A fraction, written. -/
def fractionBytes : List Nat → List UInt8
  | [] => []
  | digit :: digits => '.'.toUInt8 :: (digit :: digits).map Decimals.digitByte

/-- A timestamp, written. -/
def bytes (t : Rfc3339) : List UInt8 :=
  Decimals.fixed 4 t.date.year.toNat ++ '-'.toUInt8 :: Decimals.fixed 2 t.date.month ++ '-'.toUInt8 :: Decimals.fixed 2 t.date.day ++
    t.separator :: Decimals.fixed 2 t.hour ++ ':'.toUInt8 :: Decimals.fixed 2 t.minute ++ ':'.toUInt8 :: Decimals.fixed 2 t.second ++
    fractionBytes t.fraction ++ t.offset.bytes

/-- The string with these bytes. -/
def text (t : Rfc3339) : String := String.ofList (t.bytes.map fun byte => Char.ofUInt8 byte)

/-- The nanoseconds of its fraction: the first nine digits, with zeros for those it does not have. -/
def nanos (t : Rfc3339) : Nat := Decimals.ofDigits ((t.fraction ++ List.replicate 9 0).take 9)

/-- The instant a timestamp names: the seconds of the local time since the epoch less the offset, and the nanoseconds. -/
def Names (t : Rfc3339) (seconds : Int) (nanos : Nat) : Prop :=
  (∃ days, Calendar.DaysBetween epochDate t.date days ∧
    seconds = days * 86400 + t.hour * 3600 + t.minute * 60 + t.second - t.offset.seconds) ∧
  nanos = t.nanos

/-- The timestamp of an instant at an offset, if its local time is in the years the format has. -/
def ofInstant (seconds : Int) (nanos : Nat) (offset : UtcOffset) : Option Rfc3339 :=
  let time := (seconds + offset.seconds) % 86400
  let days := (seconds + offset.seconds) / 86400 + 719528
  let date := firstDate.after days.toNat
  if h : 0 ≤ days ∧ 0 ≤ date.year ∧ date.year ≤ 9999 then
    some {
      date := date
      separator := 'T'.toUInt8
      hour := (time / 3600).toNat
      minute := (time / 60 % 60).toNat
      second := (time % 60).toNat
      fraction := Decimals.digitsOf 9 nanos
      offset := offset
      year_nonneg := h.2.1
      year_le := h.2.2
      separator_mem := List.mem_cons_self
      hour_le := by omega
      minute_le := by omega
      second_le := by omega
      fraction_lt := fun _ => Decimals.lt_of_mem_digitsOf }
  else none

end Rfc3339

end RociaSdk

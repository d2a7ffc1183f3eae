import RociaSdk.Error

/-!
# Retries

`RetryPolicy` and the loop that runs a closure under it (`retry.rs`). A `Duration` is a number of nanoseconds. The closure is
given by what its calls come to, one after the other, and each jittered delay by the numerator drawn for it.
-/

namespace RociaSdk

/-! ## Durations -/

/-- The nanoseconds of `Duration::MAX`. -/
def durationMax : Nat := (2 ^ 64 - 1) * 10 ^ 9 + 999999999

/-- `Duration`. -/
structure Duration where
  nanos : Nat
  le_max : nanos ≤ durationMax
deriving DecidableEq

namespace Duration

/-- `Duration::MAX`. -/
def maximum : Duration := { nanos := durationMax, le_max := Nat.le_refl _ }

/-- `Duration::checked_mul`. -/
def checkedMul (d : Duration) (factor : UInt32) : Option Duration :=
  if h : d.nanos * factor.toNat ≤ durationMax then some { nanos := d.nanos * factor.toNat, le_max := h } else none

/-- `Ord::min`. -/
def minimum (d e : Duration) : Duration := if d.nanos ≤ e.nanos then d else e

end Duration

/-- `u64::from_be_bytes`. -/
def fromBeBytes (bytes : List UInt8) : UInt64 := UInt64.ofNat (bytes.foldl (fun n byte => n * 256 + byte.toNat) 0)

/-- `jitter_numerator`, on the UUID drawn: its last seven bytes, which hold no version or variant bit. -/
def jitterNumerator (uuid : Vector UInt8 16) : UInt64 := fromBeBytes (0 :: uuid.toList.drop 9)

/-- `full_jitter`, on the 56-bit numerator drawn. -/
def fullJitter (cap numerator : Nat) : Nat :=
  if cap = 0 then 0
  else
    let nanos := min cap (2 ^ 64 - 1)
    min ((nanos + 1) * numerator / 2 ^ 56) nanos

/-- A jittered delay is within its cap. -/
theorem fullJitter_le (cap numerator : Nat) : fullJitter cap numerator ≤ cap := by
  unfold fullJitter
  split
  · exact Nat.zero_le _
  · exact Nat.le_trans (Nat.min_le_right ..) (Nat.min_le_left ..)

/-! ## The policy -/

/-- `RetryPolicy`. -/
structure RetryPolicy where
  maxAttempts : UInt32
  baseDelay : Duration
  maxDelay : Duration
  retryUnavailable : Bool

/-- `u32::checked_shl`. -/
def checkedShl (n shift : UInt32) : Option UInt32 := if shift < 32 then some (n <<< shift) else none

/-- `n + 1` on a `u32`, if it does not overflow. -/
def checkedSucc (n : UInt32) : Option UInt32 := if n.toNat < 2 ^ 32 - 1 then some (n + 1) else none

namespace RetryPolicy

/-- `attempts`: `0` is read as `1`. -/
def attempts (policy : RetryPolicy) : UInt32 := max policy.maxAttempts 1

/-- `delay_ceiling`. -/
def delayCeiling (policy : RetryPolicy) (retry : UInt32) : Duration :=
  let factor := (checkedShl 1 retry).getD 4294967295
  let scaled := (policy.baseDelay.checkedMul factor).getD .maximum
  scaled.minimum policy.maxDelay

/-- `delay`. -/
def delay (policy : RetryPolicy) (retry : UInt32) (numerator : Nat) : Duration where
  nanos := fullJitter (policy.delayCeiling retry).nanos numerator
  le_max := Nat.le_trans (fullJitter_le ..) (policy.delayCeiling retry).le_max

/-- `should_retry`. -/
def shouldRetry (policy : RetryPolicy) (error : RociaDbError) : Bool :=
  error.isAborted || (policy.retryUnavailable && error.code = some .unavailable)

end RetryPolicy

/-! ## The loop -/

/-- What the loop does that is seen from outside. -/
inductive RetryEvent where
  | call
  | sleep (delay : Duration)

variable {T : Type}

/-- How far the loop is. -/
inductive RetryState (T : Type) where
  /-- So many retries have been made. -/
  | running (retry : UInt32)
  | returned (result : Result T)
  /-- The counter has overflowed. -/
  | overflowed

namespace RetryPolicy

/-- One turn of the loop, on what its call of the closure comes to. -/
def turn (policy : RetryPolicy) (outcome : Result T) (numerator : Nat) (retry : UInt32) : RetryState T × List RetryEvent :=
  match outcome with
  | .ok value => (.returned (.ok value), [.call])
  | .error error =>
    match checkedSucc retry with
    | none => (.overflowed, [.call])
    | some attempt =>
      if attempt ≥ policy.attempts || !policy.shouldRetry error then (.returned (.error error), [.call])
      else (.running attempt, [.call, .sleep (policy.delay retry numerator)])

/-- `RociaDbClient::retry`, by how far its loop is after so many turns and what it has done: `outcomes i` is what the call `i`
of the closure comes to, counted from one. -/
def retry (policy : RetryPolicy) (outcomes : Nat → Result T) (numerators : Nat → Nat) : Nat → RetryState T × List RetryEvent
  | 0 => (.running 0, [])
  | turns + 1 =>
    match policy.retry outcomes numerators turns with
    | (.running retry, events) =>
      let (state, more) := policy.turn (outcomes (turns + 1)) (numerators turns) retry
      (state, events ++ more)
    | stopped => stopped

end RetryPolicy

end RociaSdk

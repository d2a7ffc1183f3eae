import Mathlib.Data.Nat.Find
import RociaSdk.Theorems.DelayCeiling

/-!
# The retry loop

`retry` calls the closure until an outcome is final, which the last attempt of the policy is in any case, and sleeps between two
calls and nowhere else.
-/

namespace RociaSdk

variable {T : Type}

namespace RetryPolicy

/-- The outcome of a call is final: it is a value, or an error that is neither `ABORTED` nor, if the policy retries that,
`UNAVAILABLE`, or the call is the last one. -/
def Final (policy : RetryPolicy) (outcomes : Nat → Result T) (call : Nat) : Prop :=
  (∃ value, outcomes call = .ok value) ∨
    (∃ error, outcomes call = .error error ∧ error.code ≠ some .aborted ∧
      ¬(policy.retryUnavailable = true ∧ error.code = some .unavailable)) ∨
    call = max 1 policy.maxAttempts.toNat

/-- What is seen of so many calls that were each followed by a sleep. -/
def retried (policy : RetryPolicy) (numerators : Nat → Nat) (calls : Nat) : List RetryEvent :=
  (List.range calls).flatMap fun retry => [.call, .sleep (policy.delay (UInt32.ofNat retry) (numerators retry))]

namespace RetryAux

variable {policy : RetryPolicy} {outcomes : Nat → Result T} {numerators : Nat → Nat} {turns : Nat}

/-- One call more that was followed by a sleep. -/
theorem retried_succ (policy : RetryPolicy) (numerators : Nat → Nat) (calls : Nat) :
    policy.retried numerators (calls + 1) =
      policy.retried numerators calls ++ [.call, .sleep (policy.delay (UInt32.ofNat calls) (numerators calls))] := by
  unfold retried
  rw [List.range_succ, List.flatMap_append, List.flatMap_singleton]

/-- The attempts of a policy. -/
theorem toNat_attempts (policy : RetryPolicy) : policy.attempts.toNat = max 1 policy.maxAttempts.toNat := by
  unfold attempts
  rw [Nat.max_comm]
  show (if policy.maxAttempts ≤ 1 then (1 : UInt32) else policy.maxAttempts).toNat = max policy.maxAttempts.toNat 1
  split
  · rename_i h
    exact (Nat.max_eq_right (UInt32.le_iff_toNat_le.1 h)).symm
  · rename_i h
    exact (Nat.max_eq_left (Nat.le_of_not_le fun hle => h (UInt32.le_iff_toNat_le.2 hle))).symm

/-- The attempts of a policy fit the counter. -/
theorem attempts_lt (policy : RetryPolicy) : max 1 policy.maxAttempts.toNat < 2 ^ 32 := by
  rw [← toNat_attempts]
  exact policy.attempts.toNat_lt

/-- An error that the policy does not retry. -/
theorem shouldRetry_eq_false {error : RociaDbError} :
    policy.shouldRetry error = false ↔ error.code ≠ some .aborted ∧
      ¬(policy.retryUnavailable = true ∧ error.code = some .unavailable) := by
  simp [shouldRetry, RociaDbError.isAborted]

/-- A number of retries that fits the counter. -/
theorem toNat_retries (h : turns < 2 ^ 32) : (UInt32.ofNat turns).toNat = turns := UInt32.toNat_ofNat_of_lt' h

/-- Counting up from a number of retries that is below the attempts. -/
theorem checkedSucc_ofNat (h : turns + 1 < 2 ^ 32) : checkedSucc (UInt32.ofNat turns) = some (UInt32.ofNat (turns + 1)) := by
  have hturns : (UInt32.ofNat turns).toNat = turns := toNat_retries (by omega)
  unfold checkedSucc
  rw [hturns, if_pos (by omega), Option.some.injEq, ← UInt32.toNat_inj, UInt32.toNat_add, hturns, UInt32.toNat_one,
    toNat_retries h, Nat.mod_eq_of_lt h]

/-- A turn whose outcome is not final sleeps and goes on. -/
theorem turn_retries (hlt : turns + 1 < max 1 policy.maxAttempts.toNat) (hnot : ¬policy.Final outcomes (turns + 1))
    (numerator : Nat) :
    policy.turn (outcomes (turns + 1)) numerator (UInt32.ofNat turns) =
      (.running (UInt32.ofNat (turns + 1)), [.call, .sleep (policy.delay (UInt32.ofNat turns) numerator)]) := by
  have hfits := attempts_lt policy
  have hsucc : (UInt32.ofNat (turns + 1)).toNat = turns + 1 := toNat_retries (by omega)
  have hmore : ¬UInt32.ofNat (turns + 1) ≥ policy.attempts := fun hge => by
    have hle := UInt32.le_iff_toNat_le.1 hge
    rw [hsucc, toNat_attempts] at hle
    omega
  have hcount : checkedSucc (UInt32.ofNat turns) = some (UInt32.ofNat (turns + 1)) := checkedSucc_ofNat (by omega)
  unfold turn
  cases houtcome : outcomes (turns + 1) with
  | ok value => exact absurd (.inl ⟨value, houtcome⟩) hnot
  | error error =>
    have hretry : policy.shouldRetry error = true := by
      rw [← Bool.not_eq_false, shouldRetry_eq_false]
      exact fun hfinal => hnot (.inr (.inl ⟨error, houtcome, hfinal⟩))
    simp only [hcount, hmore, hretry, decide_false, Bool.not_true, Bool.or_self,
      Bool.false_eq_true, if_false]

/-- A turn whose outcome is final returns it. -/
theorem turn_returns (hle : turns + 1 ≤ max 1 policy.maxAttempts.toNat) (hfinal : policy.Final outcomes (turns + 1))
    (numerator : Nat) :
    policy.turn (outcomes (turns + 1)) numerator (UInt32.ofNat turns) = (.returned (outcomes (turns + 1)), [.call]) := by
  have hfits := attempts_lt policy
  have hsucc : (UInt32.ofNat (turns + 1)).toNat = turns + 1 := toNat_retries (by omega)
  have hcount : checkedSucc (UInt32.ofNat turns) = some (UInt32.ofNat (turns + 1)) := checkedSucc_ofNat (by omega)
  unfold turn
  cases houtcome : outcomes (turns + 1) with
  | ok value => rfl
  | error error =>
    have hstop : (decide (UInt32.ofNat (turns + 1) ≥ policy.attempts) || !policy.shouldRetry error) = true := by
      rw [Bool.or_eq_true, decide_eq_true_eq, Bool.not_eq_true']
      rcases hfinal with ⟨value, hvalue⟩ | ⟨error', herror, hcode⟩ | hlast
      · rw [houtcome] at hvalue
        cases hvalue
      · rw [houtcome] at herror
        cases herror
        exact .inr (shouldRetry_eq_false.2 hcode)
      · refine .inl (UInt32.le_iff_toNat_le.2 ?_)
        rw [hsucc, toNat_attempts, hlast]
    simp only [hcount, hstop, if_true]

/-- As long as no outcome was final, the loop has made a retry for each turn. -/
theorem retry_running (numerators : Nat → Nat) (hnot : ∀ call, 1 ≤ call → call ≤ turns → ¬policy.Final outcomes call) :
    turns < max 1 policy.maxAttempts.toNat ∧
      policy.retry outcomes numerators turns = (.running (UInt32.ofNat turns), policy.retried numerators turns) := by
  induction turns with
  | zero => exact ⟨by omega, rfl⟩
  | succ turns ih =>
    obtain ⟨hlt, hloop⟩ := ih fun call hpos hle => hnot call hpos (Nat.le_succ_of_le hle)
    have hlast := hnot (turns + 1) (Nat.succ_pos _) (Nat.le_refl _)
    have hlt' : turns + 1 < max 1 policy.maxAttempts.toNat := by
      refine Nat.lt_of_le_of_ne hlt fun heq => hlast (.inr (.inr heq))
    refine ⟨hlt', ?_⟩
    rw [retried_succ]
    simp only [retry, hloop, turn_retries hlt' hlast]

/-- The first final outcome is returned. -/
theorem retry_returned (hnot : ∀ call, 1 ≤ call → call ≤ turns → ¬policy.Final outcomes call)
    (hfinal : policy.Final outcomes (turns + 1)) :
    policy.retry outcomes numerators (turns + 1) =
      (.returned (outcomes (turns + 1)), policy.retried numerators turns ++ [.call]) := by
  obtain ⟨hlt, hloop⟩ := retry_running numerators hnot
  simp only [retry, hloop, turn_returns hlt hfinal]

/-- A loop that has returned stays as it is. -/
theorem retry_stays {result : Result T} {events : List RetryEvent}
    (h : policy.retry outcomes numerators turns = (.returned result, events)) (later : Nat) :
    policy.retry outcomes numerators (turns + later) = (.returned result, events) := by
  induction later with
  | zero => exact h
  | succ later ih =>
    show policy.retry outcomes numerators (turns + later + 1) = _
    simp only [retry, ih]

/-- The jittered delay before a retry is within its ceiling, and that within the greatest delay. -/
theorem delay_le (policy : RetryPolicy) (retry : UInt32) (numerator : Nat) :
    (policy.delay retry numerator).nanos ≤ (policy.delayCeiling retry).nanos ∧
      (policy.delayCeiling retry).nanos ≤ policy.maxDelay.nanos :=
  ⟨fullJitter_le .., CeilingAux.delayCeiling_le policy retry⟩

end RetryAux

open RetryAux

/-- Whatever the calls of the closure come to, `retry` returns the first final outcome as it is, after as many calls and a sleep
between each two of them. Until then it is running, and its counter never overflows. Each sleep is within the ceiling of its
index, which is within the greatest delay. -/
theorem retry_returns_first_final (policy : RetryPolicy) (outcomes : Nat → Result T) (numerators : Nat → Nat) :
    ∃ calls, 1 ≤ calls ∧ policy.Final outcomes calls ∧ (∀ call, 1 ≤ call → call < calls → ¬policy.Final outcomes call) ∧
      (∀ turns, turns < calls →
        policy.retry outcomes numerators turns = (.running (UInt32.ofNat turns), policy.retried numerators turns)) ∧
      (∀ turns, calls ≤ turns → policy.retry outcomes numerators turns =
        (.returned (outcomes calls), policy.retried numerators (calls - 1) ++ [.call])) ∧
      calls ≤ max 1 policy.maxAttempts.toNat ∧ calls < 2 ^ 32 ∧
      ∀ retry, retry + 1 < calls →
        (policy.delay (UInt32.ofNat retry) (numerators retry)).nanos ≤ (policy.delayCeiling (UInt32.ofNat retry)).nanos ∧
          (policy.delayCeiling (UInt32.ofNat retry)).nanos ≤ policy.maxDelay.nanos := by
  have hsome : ∃ call, 1 ≤ call ∧ policy.Final outcomes call := ⟨_, Nat.le_max_left .., .inr (.inr rfl)⟩
  have hfirst : ∃ calls, (1 ≤ calls ∧ policy.Final outcomes calls) ∧
      ∀ call, call < calls → ¬(1 ≤ call ∧ policy.Final outcomes call) := by
    classical
    exact ⟨Nat.find hsome, Nat.find_spec hsome, fun _ hlt => Nat.find_min hsome hlt⟩
  obtain ⟨calls, ⟨hpos, hfinal⟩, hleast⟩ := hfirst
  have hnot : ∀ call, 1 ≤ call → call < calls → ¬policy.Final outcomes call := fun call hcall hlt h =>
    hleast call hlt ⟨hcall, h⟩
  obtain ⟨turns, rfl⟩ := Nat.exists_eq_add_of_le' hpos
  have hbefore : ∀ call, 1 ≤ call → call ≤ turns → ¬policy.Final outcomes call := fun call hcall hle =>
    hnot call hcall (Nat.lt_succ_of_le hle)
  have hlt := (retry_running numerators hbefore).1
  refine ⟨turns + 1, hpos, hfinal, hnot, ?_, ?_, hlt, Nat.lt_of_le_of_lt hlt (attempts_lt policy),
    fun retry _ => delay_le policy _ _⟩
  · intro earlier hearlier
    exact (retry_running numerators fun call hcall hle => hbefore call hcall (by omega)).2
  · intro later hlater
    obtain ⟨more, rfl⟩ := Nat.exists_eq_add_of_le hlater
    exact retry_stays (retry_returned hbefore hfinal) more

end RetryPolicy

end RociaSdk

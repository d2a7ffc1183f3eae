import RociaSdk.Lemmas.TaskAux

/-!
# The schedule of the background task

How long the task waits after each outcome of its refreshes, over any run: the refresh interval after a success, and after the
failures in a row a backoff that doubles up to 30 seconds. The count of these goes back to zero with a success and with nothing
else, and no period or delay is zero.
-/

namespace RociaSdk

/-- The outcome of the task's refresh that an event settles, be it of its own attempt or of one it shares. -/
def Background.settled? (b : Background) : TaskEvent → Option (Except AuthError Unit)
  | .background (.settle _) =>
    match b.task with
    | .refreshing call _ =>
      match b.manager.phase call with
      | .returned _ answer => some answer
      | _ => none
    | _ => none
  | _ => none

/-- A manager and its task, with the outcomes of the task's refreshes so far. -/
structure Observed where
  background : Background
  outcomes : List (Except AuthError Unit)

namespace Observed

/-- What an event does. -/
def step (o : Observed) (e : TaskEvent) : Option Observed :=
  (o.background.taskStep e).map fun b => { background := b, outcomes := o.outcomes ++ (o.background.settled? e).toList }

/-- A new manager, before `spawn_refresh`. -/
def new (parser : HeaderParser) (now : Nat) (token : TokenResponse) (header : String) : Observed :=
  { background := .new parser now token header, outcomes := [] }

end Observed

/-- How many refreshes have failed since the last one that succeeded, or since the start. -/
def failuresSince (outcomes : List (Except AuthError Unit)) : Nat :=
  outcomes.foldl (fun failures outcome => match outcome with | .ok _ => 0 | .error _ => failures + 1) 0

/-- The greatest delay after so many failures. -/
def backoffCeiling (failures : Nat) : Nat := secs (min (2 ^ (failures - 1)) 30)

/-- A delay is as it is to be after these outcomes: at least a second as long as the last one is not a failure, and otherwise in
the upper half of the range up to the ceiling. -/
def Paced (outcomes : List (Except AuthError Unit)) (delay : Nat) : Prop :=
  match outcomes.getLast? with
  | some (.error _) => backoffCeiling (failuresSince outcomes) ≤ 2 * delay ∧ delay ≤ backoffCeiling (failuresSince outcomes)
  | _ => secs 1 ≤ delay

/-- A counter is the number of failures, as far as it goes. -/
def Counts (outcomes : List (Except AuthError Unit)) (failures : UInt32) : Prop :=
  failures.toNat = min (failuresSince outcomes) (2 ^ 32 - 1)

/-- What holds of the task in every state of a run. -/
def Observed.Scheduled (o : Observed) : Prop :=
  match o.background.task with
  | .unspawned => o.outcomes = []
  | .starting period => o.outcomes = [] ∧ secs 1 ≤ period
  | .select _ delay failures => Counts o.outcomes failures ∧ Paced o.outcomes delay
  | .refreshing _ failures => Counts o.outcomes failures
  | .stopped => True

/-- What the schedule computes for a count of failures, a numerator drawn and a lifetime stays within the types of the source:
the product with the factor and the delays within a `Duration`, and the scaled jitter within 128 bits. -/
structure ScheduleFits (failures : UInt32) (numerator : Nat) (expiresIn : UInt64) : Prop where
  scaled : refreshRetryBaseDelay * (if failures < 32 then 2 ^ failures.toNat else 2 ^ 32 - 1) ≤ durationMax
  jitter : (min (retryBackoff failures - retryBackoff failures / 2) (2 ^ 64 - 1) + 1) * numerator < 2 ^ 128
  delay : jitteredRetryBackoff failures numerator ≤ durationMax
  lifetime : secs expiresIn.toNat ≤ durationMax
  interval : intervalFor expiresIn.toNat ≤ durationMax

namespace ScheduleAux

/-! ## The delays -/

/-- A refresh interval is between a second and a second less than the lifetime, or one if there is none. -/
theorem intervalFor_bounds (expiresIn : Nat) :
    secs 1 ≤ intervalFor expiresIn ∧ intervalFor expiresIn ≤ secs (max 1 (expiresIn - 1)) := by
  simp only [intervalFor, minRefreshInterval, secs]
  omega

/-- A power of two beyond the fourth is more than thirty. -/
theorem min_two_pow {n : Nat} (h : 5 ≤ n) : min (2 ^ n) 30 = 30 := by
  have hpow : 2 ^ 5 ≤ 2 ^ n := Nat.pow_le_pow_right (by decide) h
  omega

/-- The backoff doubles from one second up to thirty. -/
theorem retryBackoff_eq (attempt : UInt32) : retryBackoff attempt = secs (min (2 ^ attempt.toNat) 30) := by
  simp only [retryBackoff, refreshRetryBaseDelay, refreshRetryMaxDelay, secs]
  by_cases h : attempt < 32
  · rw [if_pos h]
    omega
  · have hge : 5 ≤ attempt.toNat :=
      Nat.le_trans (by decide) (Nat.le_of_not_lt fun hlt => h (UInt32.lt_iff_toNat_lt.2 hlt))
    rw [if_neg h, min_two_pow hge]
    decide

/-- The jittered backoff is in the upper half. -/
theorem jittered_bounds (attempt : UInt32) (numerator : Nat) :
    retryBackoff attempt ≤ 2 * jitteredRetryBackoff attempt numerator ∧
      jitteredRetryBackoff attempt numerator ≤ retryBackoff attempt := by
  have hjitter := fullJitter_le (retryBackoff attempt - retryBackoff attempt / 2) numerator
  have heven : 2 * (retryBackoff attempt / 2) = retryBackoff attempt := by
    rw [retryBackoff_eq]
    unfold secs
    omega
  simp only [jitteredRetryBackoff]
  omega

/-- A ceiling is at least a second. -/
theorem backoffCeiling_pos (failures : Nat) : secs 1 ≤ backoffCeiling failures := by
  have hpow : 0 < 2 ^ (failures - 1) := Nat.pow_pos (by decide)
  unfold backoffCeiling secs
  omega

/-- What is computed fits. -/
theorem fits (failures : UInt32) {numerator : Nat} (expiresIn : UInt64) (h : numerator < 2 ^ 56) :
    ScheduleFits failures numerator expiresIn := by
  have hexpires : expiresIn.toNat < 2 ^ 64 := expiresIn.toNat_lt
  refine ⟨?_, ?_, ?_, ?_, ?_⟩
  · have hfactor : (if failures < 32 then 2 ^ failures.toNat else 2 ^ 32 - 1) ≤ 2 ^ 32 := by
      split
      · rename_i hlt
        exact Nat.pow_le_pow_right (by decide) (Nat.le_of_lt (UInt32.lt_iff_toNat_lt.1 hlt))
      · decide
    exact Nat.le_trans (Nat.mul_le_mul_left _ hfactor) (by decide)
  · have hcap : min (retryBackoff failures - retryBackoff failures / 2) (2 ^ 64 - 1) + 1 ≤ 2 ^ 64 := by omega
    have hroom : 2 ^ 64 * 2 ^ 56 < 2 ^ 128 := by decide
    exact Nat.lt_of_le_of_lt (Nat.mul_le_mul hcap (Nat.le_of_lt h)) hroom
  · have hle : retryBackoff failures ≤ refreshRetryMaxDelay := Nat.min_le_right ..
    exact Nat.le_trans (jittered_bounds failures numerator).2 (Nat.le_trans hle (by decide))
  · simp only [secs, durationMax]
    omega
  · refine Nat.le_trans (intervalFor_bounds expiresIn.toNat).2 ?_
    simp only [secs, durationMax]
    omega

/-! ## The count -/

variable {outcomes : List (Except AuthError Unit)} {failures : UInt32}

/-- A success puts the count back. -/
theorem failuresSince_ok (outcomes : List (Except AuthError Unit)) (u : Unit) : failuresSince (outcomes ++ [.ok u]) = 0 := by
  unfold failuresSince
  rw [List.foldl_append]
  rfl

/-- A failure adds one to it. -/
theorem failuresSince_error (outcomes : List (Except AuthError Unit)) (e : AuthError) :
    failuresSince (outcomes ++ [.error e]) = failuresSince outcomes + 1 := by
  unfold failuresSince
  rw [List.foldl_append]
  rfl

/-- The counter goes as far as it can. -/
theorem counts_succ (h : Counts outcomes failures) (e : AuthError) :
    Counts (outcomes ++ [.error e]) (saturatingSucc failures) := by
  unfold Counts at h ⊢
  rw [failuresSince_error]
  unfold saturatingSucc
  split
  · rename_i hlt
    rw [UInt32.toNat_add, UInt32.toNat_one, Nat.mod_eq_of_lt (by omega)]
    omega
  · rename_i hge
    omega

/-- However many failures there are, the counter gives the ceiling for one more. -/
theorem retryBackoff_of_counts (h : Counts outcomes failures) : retryBackoff failures = backoffCeiling (failuresSince outcomes + 1) := by
  rw [retryBackoff_eq, h]
  unfold backoffCeiling
  rw [Nat.add_sub_cancel]
  rcases Nat.le_total (failuresSince outcomes) (2 ^ 32 - 1) with hle | hge
  · rw [Nat.min_eq_left hle]
  · have hmany : 5 ≤ failuresSince outcomes := Nat.le_trans (by decide) hge
    have hcapped : 5 ≤ min (failuresSince outcomes) (2 ^ 32 - 1) := Nat.le_min.2 ⟨hmany, by decide⟩
    rw [min_two_pow hmany, min_two_pow hcapped]

/-! ## Steps -/

variable {o o' : Observed}

/-- What is armed after an outcome. -/
theorem settled_ok (o : Observed) (u : Unit) :
    Paced (o.outcomes ++ [.ok u]) o.background.manager.refreshInterval ∧ Counts (o.outcomes ++ [.ok u]) 0 := by
  refine ⟨?_, ?_⟩
  · unfold Paced
    rw [List.getLast?_concat]
    exact (intervalFor_bounds _).1
  · unfold Counts
    rw [failuresSince_ok]
    rfl

/-- What is armed after a failure. -/
theorem settled_error (h : Counts o.outcomes failures) (e : AuthError) (numerator : Nat) :
    Paced (o.outcomes ++ [.error e]) (jitteredRetryBackoff failures numerator) ∧
      Counts (o.outcomes ++ [.error e]) (saturatingSucc failures) := by
  refine ⟨?_, counts_succ h e⟩
  have hbounds := jittered_bounds failures numerator
  rw [retryBackoff_of_counts h, ← failuresSince_error o.outcomes e] at hbounds
  unfold Paced
  rw [List.getLast?_concat]
  exact hbounds

/-- What the task arms when it settles an outcome. -/
theorem settle_cases {numerator : Nat} (h : o.step (.background (.settle numerator)) = some o') :
    ∃ call failures answer, o.background.task = .refreshing call failures ∧
      o' = { background := o.background.settle answer failures numerator, outcomes := o.outcomes ++ [answer] } := by
  obtain ⟨b, hb, rfl⟩ := Option.map_eq_some_iff.1 h
  cases Background.step_cases hb with
  | spawn _ _ he _ => rcases he with he | he <;> cases he
  | settle _ call failures fetched answer htask hp =>
    exact ⟨call, failures, answer, htask, by simp only [Background.settled?, htask, hp, Option.toList_some]⟩

/-- Only to settle an outcome adds one. -/
theorem settled?_none {b : Background} {e : TaskEvent} (h : ∀ numerator, e ≠ .background (.settle numerator)) :
    b.settled? e = none := by
  unfold Background.settled?
  split
  · rename_i numerator
    exact absurd rfl (h numerator)
  · rfl

/-- A step keeps the schedule. -/
theorem scheduled_step {e : TaskEvent} (h : o.Scheduled) (hs : o.step e = some o') : o'.Scheduled := by
  by_cases hsettle : ∃ numerator, e = .background (.settle numerator)
  · obtain ⟨numerator, rfl⟩ := hsettle
    obtain ⟨call, failures, answer, htask, rfl⟩ := settle_cases hs
    unfold Observed.Scheduled at h
    rw [htask] at h
    cases answer with
    | ok u => exact (settled_ok o u).symm
    | error e => exact (settled_error h e numerator).symm
  · have hnone := settled?_none (b := o.background) fun numerator he => hsettle ⟨numerator, he⟩
    obtain ⟨b, hb, rfl⟩ := Option.map_eq_some_iff.1 hs
    rw [hnone, Option.toList_none, List.append_nil]
    unfold Observed.Scheduled at h
    cases Background.step_cases hb with
    | manager e m hm => exact h
    | spawn e interval he htask =>
      rw [htask] at h
      exact ⟨h, Nat.le_max_right ..⟩
    | start period htask =>
      rw [htask] at h
      obtain ⟨hnil, hperiod⟩ := h
      refine ⟨?_, ?_⟩
      · rw [hnil]
        rfl
      · rw [hnil]
        exact hperiod
    | tick call armedAt delay failures htask hdue hp =>
      rw [htask] at h
      exact h.1
    | notified call armedAt delay failures htask hnotify hp =>
      rw [htask] at h
      exact h.1
    | settle numerator => exact absurd ⟨numerator, rfl⟩ hsettle
    | stopWaiting => trivial
    | stopRefreshing => trivial

/-- Every delay that is kept to is positive. -/
theorem pos_of_paced {delay : Nat} (h : Paced outcomes delay) : 0 < delay := by
  unfold Paced at h
  have hsecond : 0 < secs 1 := by decide
  split at h
  · have := backoffCeiling_pos (failuresSince outcomes)
    omega
  · exact Nat.lt_of_lt_of_le hsecond h

end ScheduleAux

open ScheduleAux

/-- In every run of the task, with any interval to start with and however its refreshes end: its period is at least a second and
no delay is zero. When an outcome is settled, a success arms the refresh interval, which is between a second and a second less
than the lifetime; the k-th failure in a row arms a delay in the upper half of the range up to the smaller of 2^(k-1) and 30
seconds. The counter is the number of failures since the last success, up to the greatest it can hold, and nothing but an outcome
that is settled changes this number. What the schedule computes on the way stays within the types of the source. -/
theorem refresh_schedule (parser : HeaderParser) (now : Nat) (token : TokenResponse) (header : String) (o : Observed)
    (hrun : Transition.Reaches Observed.step (.new parser now token header) o) :
    (∀ period, o.background.task = .starting period → secs 1 ≤ period) ∧
    (∀ armedAt delay failures, o.background.task = .select armedAt delay failures →
      0 < delay ∧ Paced o.outcomes delay ∧ Counts o.outcomes failures) ∧
    (∀ call failures, o.background.task = .refreshing call failures → Counts o.outcomes failures) ∧
    (∀ numerator o', o.step (.background (.settle numerator)) = some o' →
      ∃ answer delay failures, o'.outcomes = o.outcomes ++ [answer] ∧
        o'.background.task = .select o.background.manager.now delay failures ∧ Counts o'.outcomes failures ∧
        match answer with
        | .ok _ => failuresSince o'.outcomes = 0 ∧ delay = o.background.manager.refreshInterval ∧ secs 1 ≤ delay ∧
          delay ≤ secs (max 1 (o.background.manager.lifetime.lifetime.expiresIn.toNat - 1))
        | .error _ => failuresSince o'.outcomes = failuresSince o.outcomes + 1 ∧
          backoffCeiling (failuresSince o'.outcomes) ≤ 2 * delay ∧ delay ≤ backoffCeiling (failuresSince o'.outcomes)) ∧
    (∀ e o', o.step e = some o' → (∀ numerator, e ≠ .background (.settle numerator)) → o'.outcomes = o.outcomes) ∧
    ∀ failures numerator expiresIn, numerator < 2 ^ 56 → ScheduleFits failures numerator expiresIn := by
  have hscheduled : o.Scheduled := hrun.invariant Observed.Scheduled rfl fun _ _ _ h _ hs => scheduled_step h hs
  unfold Observed.Scheduled at hscheduled
  refine ⟨?_, ?_, ?_, ?_, ?_, fun failures numerator expiresIn h => fits failures expiresIn h⟩
  · intro period htask
    rw [htask] at hscheduled
    exact hscheduled.2
  · intro armedAt delay failures htask
    rw [htask] at hscheduled
    exact ⟨pos_of_paced hscheduled.2, hscheduled.2, hscheduled.1⟩
  · intro call failures htask
    rw [htask] at hscheduled
    exact hscheduled
  · intro numerator o' hs
    obtain ⟨call, failures, answer, htask, rfl⟩ := settle_cases hs
    rw [htask] at hscheduled
    cases answer with
    | ok u =>
      obtain ⟨hbounds, hcounts⟩ := settled_ok o u
      exact ⟨_, _, _, rfl, rfl, hcounts, failuresSince_ok o.outcomes u, rfl, intervalFor_bounds _⟩
    | error e =>
      obtain ⟨hpaced, hcounts⟩ := settled_error hscheduled e numerator
      unfold Paced at hpaced
      rw [List.getLast?_concat] at hpaced
      exact ⟨_, _, _, rfl, rfl, hcounts, failuresSince_error o.outcomes e, hpaced⟩
  · intro e o' hs hne
    obtain ⟨b, _, rfl⟩ := Option.map_eq_some_iff.1 hs
    rw [settled?_none hne, Option.toList_none, List.append_nil]

/-- The task is spawned with an interval of zero, a requested refresh is refused, and the task waits for half a second at least. -/
theorem refresh_schedule_refused :
    ∃ o armedAt delay failures, Transition.exec Observed.step (.new .verbatim 0 ⟨"t", 600, "Bearer"⟩ "Bearer t")
        [.spawnRefresh 0, .background .start, .background (.manager .requestRefresh), .background (.notified 0),
          .background (.manager (.acquire 0)), .background (.manager (.fetchEnds 0 (.error ⟨"refused", none⟩))),
          .background (.manager (.record 0)), .background (.manager (.bump 0)), .background (.manager (.release 0)),
          .background (.settle 0)] = some o ∧
      o.background.task = .select armedAt delay failures ∧
      Paced [.error ⟨"refused", none⟩] delay ∧ Counts [.error ⟨"refused", none⟩] failures := by
  obtain ⟨o, armedAt, delay, failures, hexec, htask, houtcomes⟩ : ∃ (o : Observed) (armedAt delay : Nat) (failures : UInt32),
      Transition.exec Observed.step (.new .verbatim 0 ⟨"t", 600, "Bearer"⟩ "Bearer t")
        [.spawnRefresh 0, .background .start, .background (.manager .requestRefresh), .background (.notified 0),
          .background (.manager (.acquire 0)), .background (.manager (.fetchEnds 0 (.error ⟨"refused", none⟩))),
          .background (.manager (.record 0)), .background (.manager (.bump 0)), .background (.manager (.release 0)),
          .background (.settle 0)] = some o ∧
        o.background.task = .select armedAt delay failures ∧ o.outcomes = [.error ⟨"refused", none⟩] :=
    ⟨_, _, _, _, rfl, rfl, rfl⟩
  obtain ⟨_, hselect, _⟩ := refresh_schedule .verbatim 0 ⟨"t", 600, "Bearer"⟩ "Bearer t" o (Transition.reaches_of_exec hexec)
  obtain ⟨_, hpaced, hcounts⟩ := hselect armedAt delay failures htask
  rw [houtcomes] at hpaced hcounts
  exact ⟨o, armedAt, delay, failures, hexec, htask, hpaced, hcounts⟩

end RociaSdk

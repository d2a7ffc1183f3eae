import Mathlib.Data.UInt
import RociaSdk.Retry

/-!
# The ceiling of a retry's delay

`delay_ceiling` doubles the base delay with a 32-bit factor, which stays at its greatest value from the index 32 on. The schedule
is the documented one exactly where this factor is the power of two, or is enough for the greatest delay.
-/

namespace RociaSdk

namespace RetryPolicy

/-- What the documentation gives for the ceiling: the base delay times a power of two, up to the greatest delay. A product beyond
`Duration::MAX` counts as `Duration::MAX`. -/
def documentedCeiling (policy : RetryPolicy) (retry : UInt32) : Nat :=
  min (min (policy.baseDelay.nanos * 2 ^ retry.toNat) durationMax) policy.maxDelay.nanos

namespace CeilingAux

/-- The factor that the base delay is multiplied by. -/
def factor (retry : UInt32) : Nat := if retry.toNat < 32 then 2 ^ retry.toNat else 2 ^ 32 - 1

/-- It is one short of a power of two where a shift is no longer possible. -/
theorem factor_32 : factor 32 = 2 ^ 32 - 1 := rfl

/-- A power of two that a shift makes. -/
theorem factor_eq (retry : UInt32) : ((checkedShl 1 retry).getD 4294967295).toNat = factor retry := by
  unfold checkedShl factor
  by_cases h : retry < 32
  · have hlt : retry.toNat < 32 := UInt32.lt_iff_toNat_lt.1 h
    have hpow : 2 ^ retry.toNat < 2 ^ 32 := Nat.pow_lt_pow_right (by decide) hlt
    rw [if_pos h, if_pos hlt, Option.getD_some, UInt32.toNat_shiftLeft, Nat.mod_eq_of_lt hlt, Nat.shiftLeft_eq,
      UInt32.toNat_one, Nat.one_mul, Nat.mod_eq_of_lt hpow]
  · have hge : ¬retry.toNat < 32 := fun hlt => h (UInt32.lt_iff_toNat_lt.2 hlt)
    rw [if_neg h, if_neg hge]
    rfl

/-- The smaller of two durations. -/
theorem nanos_minimum (d e : Duration) : (d.minimum e).nanos = min d.nanos e.nanos := by
  unfold Duration.minimum
  split
  · rename_i h
    exact (Nat.min_eq_left h).symm
  · rename_i h
    exact (Nat.min_eq_right (Nat.le_of_not_le h)).symm

/-- A product, or `Duration::MAX` if it is beyond that. -/
theorem nanos_checkedMul (d : Duration) (n : UInt32) :
    ((d.checkedMul n).getD .maximum).nanos = min (d.nanos * n.toNat) durationMax := by
  unfold Duration.checkedMul
  split
  · rename_i h
    exact (Nat.min_eq_left h).symm
  · rename_i h
    exact (Nat.min_eq_right (Nat.le_of_not_le h)).symm

variable (policy : RetryPolicy)

/-- What the ceiling is. -/
theorem nanos_delayCeiling (retry : UInt32) :
    (policy.delayCeiling retry).nanos =
      min (min (policy.baseDelay.nanos * factor retry) durationMax) policy.maxDelay.nanos := by
  unfold delayCeiling
  rw [nanos_minimum, nanos_checkedMul, factor_eq]

/-- No ceiling is above the greatest delay. -/
theorem delayCeiling_le (retry : UInt32) : (policy.delayCeiling retry).nanos ≤ policy.maxDelay.nanos := by
  rw [nanos_delayCeiling]
  exact Nat.min_le_right ..

/-- The factor grows with the index. -/
theorem factor_mono {retry later : UInt32} (h : retry ≤ later) : factor retry ≤ factor later := by
  have hle : retry.toNat ≤ later.toNat := UInt32.le_iff_toNat_le.1 h
  unfold factor
  split
  · split
    · exact Nat.pow_le_pow_right (by decide) hle
    · rename_i hlt _
      have hpow : 2 ^ retry.toNat < 2 ^ 32 := Nat.pow_lt_pow_right (by decide) hlt
      omega
  · rename_i hge
    rw [if_neg (fun hlt => hge (Nat.lt_of_le_of_lt hle hlt))]

/-- From the index 32 on, a power of two is above the factor. -/
theorem factor_lt {retry : UInt32} (h : 32 ≤ retry.toNat) : factor retry < 2 ^ retry.toNat := by
  have hpow : 2 ^ 32 ≤ 2 ^ retry.toNat := Nat.pow_le_pow_right (by decide) h
  unfold factor
  rw [if_neg (Nat.not_lt.2 h)]
  omega

/-- A factor that is enough for the greatest delay gives it. -/
theorem min_eq_maxDelay {product : Nat} (h : policy.maxDelay.nanos ≤ product) :
    min (min product durationMax) policy.maxDelay.nanos = policy.maxDelay.nanos :=
  Nat.min_eq_right (Nat.le_min.2 ⟨h, policy.maxDelay.le_max⟩)

/-- One that is not gives the product. -/
theorem min_eq_product {product : Nat} (h : product ≤ policy.maxDelay.nanos) :
    min (min product durationMax) policy.maxDelay.nanos = product := by
  rw [Nat.min_eq_left (Nat.le_trans h policy.maxDelay.le_max), Nat.min_eq_left h]

end CeilingAux

open CeilingAux

/-- The greatest factor is enough for the greatest delay, or the base delay is zero. -/
def FactorSuffices (policy : RetryPolicy) : Prop :=
  policy.baseDelay.nanos = 0 ∨ policy.maxDelay.nanos ≤ policy.baseDelay.nanos * (2 ^ 32 - 1)

/-- The ceilings double until they reach the greatest delay. -/
def Doubles (policy : RetryPolicy) : Prop :=
  ∀ retry : UInt32, retry.toNat + 1 < 2 ^ 32 →
    (policy.delayCeiling (retry + 1)).nanos = min (2 * (policy.delayCeiling retry).nanos) policy.maxDelay.nanos

/-- A base delay that is not zero is doubled up to the greatest delay. -/
def ReachesMax (policy : RetryPolicy) : Prop :=
  0 < policy.baseDelay.nanos → ∃ retry : UInt32, (policy.delayCeiling retry).nanos = policy.maxDelay.nanos

namespace CeilingAux

variable {policy : RetryPolicy}

/-- The ceiling is the documented one exactly below the index 32, or when the factor suffices. -/
theorem exact_iff (policy : RetryPolicy) (retry : UInt32) :
    (policy.delayCeiling retry).nanos = policy.documentedCeiling retry ↔ retry.toNat < 32 ∨ policy.FactorSuffices := by
  rw [nanos_delayCeiling]
  unfold documentedCeiling FactorSuffices
  by_cases hlt : retry.toNat < 32
  · exact ⟨fun _ => .inl hlt, fun _ => by rw [factor, if_pos hlt]⟩
  · have hge : 32 ≤ retry.toNat := Nat.le_of_not_lt hlt
    have hfactor : factor retry = 2 ^ 32 - 1 := if_neg hlt
    have hpow := factor_lt hge
    simp only [hlt, false_or]
    constructor
    · intro heq
      by_cases hzero : policy.baseDelay.nanos = 0
      · exact .inl hzero
      refine .inr (Nat.le_of_not_lt fun hshort => ?_)
      -- The product with the factor is below the greatest delay, and the one with the power is above it.
      rw [hfactor, min_eq_product policy (Nat.le_of_lt hshort)] at heq
      have hmore : policy.baseDelay.nanos * (2 ^ 32 - 1) < policy.baseDelay.nanos * 2 ^ retry.toNat := by
        rw [← hfactor]
        exact Nat.mul_lt_mul_of_pos_left hpow (Nat.pos_of_ne_zero hzero)
      have hmax := policy.maxDelay.le_max
      omega
    · rintro (hzero | hsuffices)
      · rw [hzero, Nat.zero_mul, Nat.zero_mul]
      · have hmore : policy.baseDelay.nanos * factor retry ≤ policy.baseDelay.nanos * 2 ^ retry.toNat :=
          Nat.mul_le_mul_left _ (Nat.le_of_lt hpow)
        rw [hfactor] at hmore ⊢
        rw [min_eq_maxDelay policy hsuffices, min_eq_maxDelay policy (Nat.le_trans hsuffices hmore)]

/-- The next index. -/
theorem toNat_succ {retry : UInt32} (h : retry.toNat + 1 < 2 ^ 32) : (retry + 1).toNat = retry.toNat + 1 := by
  rw [UInt32.toNat_add, UInt32.toNat_one, Nat.mod_eq_of_lt h]

/-- A schedule that is the documented one doubles. -/
theorem doubles_of_suffices (h : policy.FactorSuffices) : policy.Doubles := by
  intro retry hretry
  rw [(exact_iff policy (retry + 1)).2 (.inr h), (exact_iff policy retry).2 (.inr h)]
  unfold documentedCeiling
  rw [toNat_succ hretry, Nat.pow_succ, ← Nat.mul_assoc]
  have hmax := policy.maxDelay.le_max
  omega

/-- One that doubles is the documented one: the last doubling is that from the index 31 to 32. -/
theorem suffices_of_doubles (h : policy.Doubles) : policy.FactorSuffices := by
  have hlast := h 31 (by decide)
  have hnext : (31 : UInt32) + 1 = 32 := by decide
  have hfactor : factor 31 = 2 ^ 31 := rfl
  rw [hnext, nanos_delayCeiling, nanos_delayCeiling, factor_32, hfactor] at hlast
  have hmax := policy.maxDelay.le_max
  unfold FactorSuffices
  omega

/-- The greatest delay is reached exactly when the factor suffices. -/
theorem reaches_iff (policy : RetryPolicy) : policy.ReachesMax ↔ policy.FactorSuffices := by
  unfold ReachesMax FactorSuffices
  constructor
  · intro h
    by_cases hzero : policy.baseDelay.nanos = 0
    · exact .inl hzero
    obtain ⟨retry, hretry⟩ := h (Nat.pos_of_ne_zero hzero)
    have hle : retry ≤ 4294967295 := UInt32.le_iff_toNat_le.2 (Nat.le_of_lt_succ retry.toNat_lt)
    have hmono : policy.baseDelay.nanos * factor retry ≤ policy.baseDelay.nanos * (2 ^ 32 - 1) :=
      Nat.mul_le_mul_left _ (factor_mono hle)
    rw [nanos_delayCeiling] at hretry
    omega
  · intro h hpos
    refine ⟨32, ?_⟩
    rw [nanos_delayCeiling, factor_32]
    exact min_eq_maxDelay policy (h.resolve_left (Nat.ne_of_gt hpos))

end CeilingAux

/-- A ceiling is the documented one exactly if its index is below 32 or the greatest factor suffices for the greatest delay, and
the whole schedule is, doubles and reaches the greatest delay exactly if it does. The ceilings grow with the index and with the
base delay in any case. -/
theorem delayCeiling_documented_iff (policy : RetryPolicy) :
    (∀ retry, (policy.delayCeiling retry).nanos = policy.documentedCeiling retry ↔
      retry.toNat < 32 ∨ policy.FactorSuffices) ∧
    ((∀ retry, (policy.delayCeiling retry).nanos = policy.documentedCeiling retry) ↔ policy.FactorSuffices) ∧
    (policy.Doubles ↔ policy.FactorSuffices) ∧ (policy.ReachesMax ↔ policy.FactorSuffices) ∧
    (∀ retry later, retry ≤ later → (policy.delayCeiling retry).nanos ≤ (policy.delayCeiling later).nanos) ∧
    ∀ base : Duration, policy.baseDelay.nanos ≤ base.nanos → ∀ retry,
      (policy.delayCeiling retry).nanos ≤ ({ policy with baseDelay := base }.delayCeiling retry).nanos := by
  refine ⟨exact_iff policy, ?_, ⟨suffices_of_doubles, doubles_of_suffices⟩, reaches_iff policy, ?_, ?_⟩
  · constructor
    · intro h
      exact ((exact_iff policy 32).1 (h 32)).resolve_left (by decide)
    · intro h retry
      exact (exact_iff policy retry).2 (.inr h)
  · intro retry later hle
    have hmono := Nat.mul_le_mul_left policy.baseDelay.nanos (factor_mono hle)
    rw [nanos_delayCeiling, nanos_delayCeiling]
    omega
  · intro base hle retry
    have hmono := Nat.mul_le_mul_right (factor retry) hle
    rw [nanos_delayCeiling, nanos_delayCeiling]
    show min (min _ durationMax) policy.maxDelay.nanos ≤ min (min (base.nanos * factor retry) durationMax) policy.maxDelay.nanos
    omega

/-- A base delay of one nanosecond under a greatest delay of ten seconds: from the index 32 on the ceiling is 4.3 seconds. -/
def slowStart : RetryPolicy where
  maxAttempts := 100
  baseDelay := { nanos := 1, le_max := by decide }
  maxDelay := { nanos := 10 * 10 ^ 9, le_max := by decide }
  retryUnavailable := false

/-- At the index 40 it is to be ten seconds. -/
theorem slowStart_not_documented :
    (slowStart.delayCeiling 40).nanos = 2 ^ 32 - 1 ∧ slowStart.documentedCeiling 40 = 10 * 10 ^ 9 ∧
      (slowStart.delayCeiling 40).nanos ≠ slowStart.documentedCeiling 40 := by
  decide

end RetryPolicy

end RociaSdk

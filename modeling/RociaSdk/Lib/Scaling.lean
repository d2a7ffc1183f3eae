import Mathlib.Algebra.Order.Floor.Div
import Mathlib.Order.Interval.Finset.Nat

/-!
# Scaling a range of numbers onto a shorter one

`scale k m` maps the numbers below `m` to those below `k` by a product and a division that rounds down. It keeps their order, and
what it maps to a number is an interval whose length is `m / k`, rounded down or up.
-/

namespace Scaling

/-- The number below `k` that a number below `m` is scaled to. -/
def scale (k m x : Nat) : Nat := k * x / m

/-- The first number that is scaled to `v` or beyond. -/
def first (k m v : Nat) : Nat := m * v ⌈/⌉ k

variable {k m : Nat}

/-- Scaling keeps the order. -/
theorem scale_mono (k m : Nat) {x y : Nat} (h : x ≤ y) : scale k m x ≤ scale k m y :=
  Nat.div_le_div_right (Nat.mul_le_mul_left k h)

/-- What is below `m` is scaled to what is below `k`. -/
theorem scale_lt (hk : 0 < k) {x : Nat} (h : x < m) : scale k m x < k :=
  Nat.div_lt_of_lt_mul (by rw [Nat.mul_comm m k]; exact Nat.mul_lt_mul_of_pos_left h hk)

/-- Which numbers are scaled to `v` or beyond. -/
theorem le_scale_iff (hk : 0 < k) (hm : 0 < m) (v x : Nat) : v ≤ scale k m x ↔ first k m v ≤ x := by
  unfold scale first
  rw [Nat.le_div_iff_mul_le hm, ceilDiv_le_iff_le_mul hk, Nat.mul_comm v m]

/-- The first number beyond the last one below `k` is `m`. -/
theorem first_self (hk : 0 < k) (m : Nat) : first k m k = m := by
  apply Nat.le_antisymm
  · exact (ceilDiv_le_iff_le_mul hk).2 (Nat.le_of_eq (Nat.mul_comm m k))
  · have hle : m * k ≤ k * first k m k := (ceilDiv_le_iff_le_mul hk).1 (Nat.le_refl _)
    rw [Nat.mul_comm m k] at hle
    exact Nat.le_of_mul_le_mul_left hle hk

/-- The first numbers follow each other. -/
theorem first_mono (hk : 0 < k) (m : Nat) {v w : Nat} (h : v ≤ w) : first k m v ≤ first k m w :=
  (ceilDiv_le_iff_le_mul hk).2
    (Nat.le_trans (Nat.mul_le_mul_left m h) ((ceilDiv_le_iff_le_mul hk).1 (Nat.le_refl _)))

/-- What is scaled to `v` is an interval. -/
theorem fibre_eq (hk : 0 < k) (hm : 0 < m) {v : Nat} (hv : v < k) :
    (Finset.range m).filter (fun x => scale k m x = v) = Finset.Ico (first k m v) (first k m (v + 1)) := by
  have hlast : first k m (v + 1) ≤ m := Nat.le_trans (first_mono hk m hv) (Nat.le_of_eq (first_self hk m))
  ext x
  have hlow := le_scale_iff hk hm v x
  have hhigh := le_scale_iff hk hm (v + 1) x
  rw [Finset.mem_filter, Finset.mem_range, Finset.mem_Ico]
  constructor
  · rintro ⟨-, heq⟩
    exact ⟨hlow.1 (Nat.le_of_eq heq.symm), Nat.lt_of_not_le fun hle => by have := hhigh.2 hle; omega⟩
  · rintro ⟨hle, hlt⟩
    have hv := hlow.2 hle
    have hnot : ¬v + 1 ≤ scale k m x := fun h => Nat.not_le_of_lt hlt (hhigh.1 h)
    exact ⟨Nat.lt_of_lt_of_le hlt hlast, by omega⟩

/-- The interval has at least `m / k` numbers, rounded down, and at most that, rounded up. -/
theorem first_succ_bounds (hk : 0 < k) (m v : Nat) :
    first k m v + m / k ≤ first k m (v + 1) ∧ first k m (v + 1) ≤ first k m v + (m ⌈/⌉ k) := by
  have hfirst : m * v ≤ k * first k m v := (ceilDiv_le_iff_le_mul hk).1 (Nat.le_refl _)
  have hnext : m * (v + 1) ≤ k * first k m (v + 1) := (ceilDiv_le_iff_le_mul hk).1 (Nat.le_refl _)
  rw [Nat.mul_add, Nat.mul_one] at hnext
  constructor
  · -- The number so far before the first one of the next interval is not before the first one of this.
    have hdiv : k * (m / k) ≤ m := Nat.mul_div_le m k
    have hle : first k m v ≤ first k m (v + 1) - m / k := by
      refine (ceilDiv_le_iff_le_mul hk).2 ?_
      rw [Nat.mul_sub]
      omega
    have hroom : m / k ≤ first k m (v + 1) := Nat.le_of_mul_le_mul_left (by omega) hk
    omega
  · have hceil : m ≤ k * (m ⌈/⌉ k) := (ceilDiv_le_iff_le_mul hk).1 (Nat.le_refl _)
    refine (ceilDiv_le_iff_le_mul hk).2 ?_
    rw [Nat.mul_add, Nat.mul_add, Nat.mul_one]
    exact Nat.add_le_add hfirst hceil

/-- So many numbers below `m` are scaled to a number below `k`: `m / k`, rounded down or up. -/
theorem card_fibre (hk : 0 < k) (hm : 0 < m) {v : Nat} (hv : v < k) :
    ((Finset.range m).filter fun x => scale k m x = v).card = m / k ∨
      ((Finset.range m).filter fun x => scale k m x = v).card = m ⌈/⌉ k := by
  have hnear : m ⌈/⌉ k ≤ m / k + 1 := by
    refine (ceilDiv_le_iff_le_mul hk).2 ?_
    rw [Nat.mul_add, Nat.mul_one]
    exact Nat.le_of_lt (Nat.lt_mul_div_succ m hk)
  have hbounds := first_succ_bounds hk m v
  rw [fibre_eq hk hm hv, Nat.card_Ico]
  omega

end Scaling

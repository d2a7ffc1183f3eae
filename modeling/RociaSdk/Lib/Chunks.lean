import Mathlib.Data.List.Induction
import Mathlib.Tactic.Ring

/-!
# Cutting a list into pieces

`chunksOf k xs` cuts `xs` into consecutive pieces of `k` elements, the last one possibly shorter. Appending a piece to a list
whose length is a multiple of `k` appends it to the pieces, so that full pieces and a last one, put end to end, are cut back
into themselves.
-/

namespace Chunks

variable {α : Type*}

/-- How many pieces of `k` cover `n` elements: `n / k`, rounded up. -/
def count (k n : Nat) : Nat := (n + k - 1) / k

/-- The piece of `k` elements with index `i`. -/
def piece (k : Nat) (xs : List α) (i : Nat) : List α := (xs.drop (i * k)).take k

/-- The consecutive pieces of `k` elements of a list, the last one possibly shorter. -/
def chunksOf (k : Nat) (xs : List α) : List (List α) := (List.range (count k xs.length)).map (piece k xs)

@[simp] theorem count_zero (k : Nat) (hk : 0 < k) : count k 0 = 0 := by
  unfold count
  rw [Nat.div_eq_zero_iff]
  omega

@[simp] theorem chunksOf_nil (k : Nat) (hk : 0 < k) : chunksOf k ([] : List α) = [] := by
  simp [chunksOf, count_zero k hk]

/-- The first so many pieces, put end to end, are the first elements. -/
theorem flatten_pieces (k n : Nat) (xs : List α) : ((List.range n).map (piece k xs)).flatten = xs.take (n * k) := by
  induction n with
  | zero => rw [Nat.zero_mul, List.take_zero, List.range_zero, List.map_nil, List.flatten_nil]
  | succ n ih =>
    rw [List.range_succ, List.map_append, List.flatten_append, ih, List.map_singleton, List.flatten_singleton, piece,
      Nat.add_mul, Nat.one_mul, List.take_add]

/-- There are enough pieces. -/
theorem le_count_mul {k : Nat} (hk : 0 < k) (n : Nat) : n ≤ count k n * k := by
  have hlt := Nat.lt_mul_div_succ (n + k - 1) hk
  rw [Nat.mul_add, Nat.mul_one, Nat.mul_comm] at hlt
  unfold count
  omega

/-- The pieces put end to end are the list. -/
theorem flatten_chunksOf {k : Nat} (hk : 0 < k) (xs : List α) : (chunksOf k xs).flatten = xs := by
  rw [chunksOf, flatten_pieces, List.take_of_length_le (le_count_mul hk xs.length)]

/-- There is none too many. -/
theorem mul_lt_of_lt_count {k n i : Nat} (h : i < count k n) : i * k < n := by
  have hle : (i + 1) * k ≤ n + k - 1 := Nat.le_trans (Nat.mul_le_mul_right k h) (Nat.div_mul_le_self _ _)
  rw [Nat.add_mul, Nat.one_mul] at hle
  have hk : 0 < k := by
    rcases Nat.eq_zero_or_pos k with rfl | hk
    · exact absurd h (by simp [count])
    · exact hk
  omega

/-- The length of a piece. -/
theorem length_piece (k : Nat) (xs : List α) (i : Nat) : (piece k xs i).length = min k (xs.length - i * k) := by
  rw [piece, List.length_take, List.length_drop]

/-- A list whose length is a multiple of `k` has that many pieces. -/
theorem count_of_dvd {k n : Nat} (hk : 0 < k) (h : k ∣ n) : count k n = n / k := by
  obtain ⟨m, rfl⟩ := h
  rw [count, Nat.mul_div_cancel_left m hk, show k * m + k - 1 = (k - 1) + k * m by omega, Nat.add_mul_div_left _ _ hk,
    Nat.div_eq_of_lt (by omega), Nat.zero_add]

/-- A piece of at most `k` more elements after a multiple of `k` makes one more piece. -/
theorem count_add_of_dvd {k n c : Nat} (hk : 0 < k) (h : k ∣ n) (hc : 0 < c) (hck : c ≤ k) :
    count k (n + c) = n / k + 1 := by
  obtain ⟨m, rfl⟩ := h
  rw [count, Nat.mul_div_cancel_left m hk, show k * m + c + k - 1 = (c - 1) + k * (m + 1) by rw [Nat.mul_add]; omega,
    Nat.add_mul_div_left _ _ hk, Nat.div_eq_of_lt (by omega), Nat.zero_add]

/-- Appending a piece to a list whose length is a multiple of `k` appends it to the pieces. -/
theorem chunksOf_append {k : Nat} (hk : 0 < k) {xs c : List α} (h : k ∣ xs.length) (hc : c ≠ []) (hck : c.length ≤ k) :
    chunksOf k (xs ++ c) = chunksOf k xs ++ [c] := by
  have hpos : 0 < c.length := List.length_pos_iff.mpr hc
  obtain ⟨m, hm⟩ := h
  have hmk : xs.length / k = m := by rw [hm, Nat.mul_div_cancel_left m hk]
  rw [chunksOf, chunksOf, List.length_append, count_add_of_dvd hk ⟨m, hm⟩ hpos hck, count_of_dvd hk ⟨m, hm⟩, hmk,
    List.range_succ, List.map_append]
  congr 1
  · apply List.map_congr_left
    intro i hi
    have him : i + 1 ≤ m := List.mem_range.mp hi
    have hle : (i + 1) * k ≤ xs.length := by rw [hm, Nat.mul_comm k m]; exact Nat.mul_le_mul_right k him
    rw [Nat.add_mul, Nat.one_mul] at hle
    rw [piece, piece, List.drop_append_of_le_length (by omega), List.take_append_of_le_length]
    rw [List.length_drop]
    omega
  · rw [List.map_singleton, piece, Nat.mul_comm, ← hm, List.drop_left, List.take_of_length_le hck]

/-- Full pieces put end to end are a multiple of their length. -/
theorem dvd_length_flatten {k : Nat} {cs : List (List α)} (h : ∀ c ∈ cs, c.length = k) : k ∣ cs.flatten.length := by
  rw [List.length_flatten, List.eq_replicate_of_mem (l := cs.map List.length) (a := k) (by simpa using h)]
  simp

/-- Full pieces put end to end are cut back into themselves. -/
theorem chunksOf_flatten_full {k : Nat} (hk : 0 < k) (cs : List (List α)) (h : ∀ c ∈ cs, c.length = k) :
    chunksOf k cs.flatten = cs := by
  induction cs using List.reverseRecOn with
  | nil => exact chunksOf_nil k hk
  | append_singleton cs c ih =>
    have hc : c.length = k := h c (by simp)
    have hcs : ∀ d ∈ cs, d.length = k := fun d hd => h d (by simp [hd])
    rw [List.flatten_append, List.flatten_singleton,
      chunksOf_append hk (dvd_length_flatten hcs) (by rintro rfl; simp at hc; omega) hc.le, ih hcs]

/-- Full pieces and one last piece, neither empty nor too long, are cut back into themselves. -/
theorem chunksOf_flatten_snoc {k : Nat} (hk : 0 < k) (cs : List (List α)) (last : List α) (h : ∀ c ∈ cs, c.length = k)
    (hne : last ≠ []) (hle : last.length ≤ k) : chunksOf k (cs ++ [last]).flatten = cs ++ [last] := by
  rw [List.flatten_append, List.flatten_singleton, chunksOf_append hk (dvd_length_flatten h) hne hle,
    chunksOf_flatten_full hk cs h]

end Chunks

import Mathlib.Logic.Function.Iterate

/-!
# Progress of an iterated step

`count` counts the events of a run. Where every step that neither counts one nor ends the run lowers a measure, the run counts
another one or ends within as many steps as the measure says (`counts_within`); a run whose count is bounded stops counting
(`not_counts_forever`).
-/

namespace Progress

variable {σ : Type} {step : σ → σ} {s : σ}

/-- A run that is not done counts another event, or is done, as soon as the measure is used up. -/
theorem counts_within (count measure : σ → ℕ) (done invariant : σ → Prop)
    (hkeep : ∀ s, invariant s → invariant (step s)) (hmono : ∀ s, invariant s → count s ≤ count (step s))
    (hstep : ∀ s, invariant s → done (step s) ∨ count s < count (step s) ∨ measure (step s) < measure s)
    (hs : invariant s) : ∃ m ≤ measure s, done (step^[m + 1] s) ∨ count s < count (step^[m + 1] s) := by
  induction hm : measure s using Nat.strongRecOn generalizing s with
  | ind n ih =>
    rcases hstep s hs with hdone | hcount | hlt
    · exact ⟨0, Nat.zero_le _, Or.inl hdone⟩
    · exact ⟨0, Nat.zero_le _, Or.inr hcount⟩
    · obtain ⟨m, hle, hnext⟩ := ih (measure (step s)) (hm ▸ hlt) (hkeep s hs) rfl
      exact ⟨m + 1, by omega, hnext.imp id (Nat.lt_of_le_of_lt (hmono s hs))⟩

/-- A run whose count is bounded does not count events forever. -/
theorem not_counts_forever (count : σ → ℕ) (bound : ℕ) (hbound : ∀ n, count (step^[n] s) ≤ bound) :
    ¬∀ n, ∃ m, n < m ∧ count (step^[n] s) < count (step^[m] s) := by
  intro hforever
  have hreach : ∀ j, ∃ n, j ≤ count (step^[n] s) := by
    intro j
    induction j with
    | zero => exact ⟨0, Nat.zero_le _⟩
    | succ j ih =>
      obtain ⟨n, hn⟩ := ih
      obtain ⟨m, _, hm⟩ := hforever n
      exact ⟨m, Nat.lt_of_le_of_lt hn hm⟩
  obtain ⟨n, hn⟩ := hreach (bound + 1)
  exact Nat.not_succ_le_self _ (Nat.le_trans hn (hbound n))

end Progress

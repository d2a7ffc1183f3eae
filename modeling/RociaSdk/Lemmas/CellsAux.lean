import Mathlib.Data.List.Induction
import RociaSdk.Lemmas.AuthAnswers

/-!
# The two cells

What the lifetime and the header cell hold while an attempt runs, and that the header only ever moves to a newer token.
-/

namespace RociaSdk

namespace TokenManager

namespace CellsAux

variable {first : Token} {m m' : TokenManager} {e : Event} {c : Nat} {token : Token}

/-- The last token of a log is the first one, or one of the log's. -/
theorem lastToken_attempt_le (log : List (Except AuthError Token)) (hfirst : first.attempt = 0)
    (hnumbered : ∀ i token, log[i]? = some (.ok token) → token.attempt = i + 1) :
    (lastToken first log).attempt ≤ log.length := by
  induction log using List.reverseRecOn with
  | nil => exact Nat.le_of_eq hfirst
  | append_singleton log outcome ih =>
    rw [List.length_append, List.length_singleton]
    cases outcome with
    | ok token =>
      rw [lastToken_ok]
      exact Nat.le_of_eq (hnumbered log.length token (by simp))
    | error e =>
      rw [lastToken_error]
      refine Nat.le_succ_of_le (ih fun i token ht => hnumbered i token ?_)
      rw [List.getElem?_append_left (List.getElem?_eq_some_iff.1 ht).1, ht]

/-- Between the two writes, the lifetime is that of the new token and the header that of the last one. -/
theorem cells_of_half (h : m.Inv first) (hp : m.phase c = .halfInstalled token) :
    m.lifetime = token ∧ m.header = lastToken first m.log ∧ token.attempt = m.log.length + 1 := by
  have hholder := h.holder_eq (c := c) (by rw [hp]; rfl)
  have hcells := h.cells
  have hfresh := h.fresh token
  rw [hholder, hp] at hcells hfresh
  exact ⟨congrArg Prod.fst hcells, congrArg Prod.snd hcells, hfresh rfl⟩

/-- Outside the two writes, the two cells are of one token. -/
theorem cells_eq (h : m.Inv first) (hnone : ∀ c token, m.phase c ≠ .halfInstalled token) : m.lifetime = m.header := by
  have hcells := h.cells
  cases hl : m.refreshLock with
  | none =>
    rw [holder_of_free hl] at hcells
    exact (congrArg Prod.fst hcells).trans (congrArg Prod.snd hcells).symm
  | some c =>
    have hp := hnone c
    rw [holder_of_lock hl] at hcells
    generalize m.phase c = p at hp hcells
    have hsame : ∀ t, (m.lifetime, m.header) = (t, t) → m.lifetime = m.header := by
      intro t ht
      exact (congrArg Prod.fst ht).trans (congrArg Prod.snd ht).symm
    cases p with
    | halfInstalled token => exact absurd rfl (hp token)
    | recording outcome => cases outcome <;> exact hsame _ hcells
    | bumping outcome => cases outcome <;> exact hsame _ hcells
    | _ => exact hsame _ hcells

/-- Between the two writes, the header is older than the lifetime. -/
theorem header_older (h : m.Inv first) (hfirst : first.attempt = 0) (hp : m.phase c = .halfInstalled token) :
    m.header.attempt < token.attempt := by
  obtain ⟨_, hheader, hattempt⟩ := cells_of_half h hp
  have := lastToken_attempt_le m.log hfirst h.numbered
  rw [hheader]
  omega

/-- A step leaves the header as it is, or writes that of a token in installation. -/
theorem header_cases (h : m.Step e m') :
    m'.header = m.header ∨ ∃ c token, e = .writeHeader c ∧ m.phase c = .halfInstalled token ∧ m'.header = token := by
  cases h with
  | writeHeader c token hp => exact Or.inr ⟨c, token, rfl, hp, rfl⟩
  | _ => exact Or.inl rfl

/-- The header is what it was, or newer. -/
theorem header_newer (hi : m.Inv first) (hfirst : first.attempt = 0) (h : Transition.Reaches step m m') :
    m'.header = m.header ∨ m.header.attempt < m'.header.attempt := by
  refine h.relation (Inv first) (fun s t => t.header = s.header ∨ s.header.attempt < t.header.attempt) hi
    (fun _ _ _ hp _ hs => (step_cases hs).inv hp) (Or.inl rfl) ?_
  rintro s e t hs hst hstep
  rcases header_cases (step_cases hstep) with heq | ⟨c, token, _, hp, heq⟩
  · rw [heq]
    exact hst
  · have := header_older hs hfirst hp
    rw [heq]
    rcases hst with hst | hst
    · rw [hst] at this
      exact Or.inr this
    · exact Or.inr (by omega)

/-- The one step of a call between its two writes is the second. -/
theorem step_of_half (hq : m.phase c = .halfInstalled token) (hcall : e.call? = some c) (hs : m.step e = some m') :
    m' = m.writeHeader c token := by
  cases e <;> simp_all [Event.call?, step]

/-- From between the two writes of a call: the call is still there and the header still the old one, or the header is that of
the token, or newer. -/
theorem after_half (hi : m.Inv first) (hfirst : first.attempt = 0) (hp : m.phase c = .halfInstalled token)
    (h : Transition.Reaches step m m') :
    m'.phase c = .halfInstalled token ∧ m'.header = m.header ∨ m'.header = token ∨
      token.attempt < m'.header.attempt := by
  refine h.relation (Inv first) (fun s t => s.phase c = .halfInstalled token →
      t.phase c = .halfInstalled token ∧ t.header = s.header ∨ t.header = token ∨ token.attempt < t.header.attempt)
    hi (fun _ _ _ hp _ hs => (step_cases hs).inv hp) (fun hp => Or.inl ⟨hp, rfl⟩) ?_ hp
  intro s e t hs hst hstep hp
  have hcases := step_cases hstep
  rcases hst hp with ⟨hq, hheader⟩ | hnewer
  · by_cases hcall : e.call? = some c
    · rw [step_of_half hq hcall hstep]
      exact Or.inr (Or.inl rfl)
    · refine Or.inl ⟨(hcases.frame hcall).1.trans hq, ?_⟩
      rcases header_cases hcases with heq | ⟨c', token', rfl, hp', _⟩
      · exact heq.trans hheader
      · -- Another call between its two writes would hold the lock as well.
        have hl := hs.lock_eq (c := c) (by rw [hq]; rfl)
        rw [hs.lock_eq (c := c') (by rw [hp']; rfl)] at hl
        exact absurd hl hcall
  · refine Or.inr ?_
    rcases header_cases hcases with heq | ⟨c', token', _, hp', heq⟩
    · rw [heq]
      exact hnewer
    · have := header_older hs hfirst hp'
      rw [heq]
      rcases hnewer with hst | hst
      · rw [hst] at this
        exact Or.inr this
      · exact Or.inr (by omega)

end CellsAux

end TokenManager

end RociaSdk

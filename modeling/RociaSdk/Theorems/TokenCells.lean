import RociaSdk.Lemmas.CellsAux

/-!
# The lifetime and the header

A refresh writes the lifetime of its token before its header, under two locks that readers take one at a time. The recorded
lifetime describes the cached header exactly when no call stands between the two writes, and a pre-flight check that passes
there may be followed by the stamp of the token it was meant to replace.
-/

namespace RociaSdk

namespace TokenManager

open CellsAux

/-- In every state any interleaving reaches, the recorded lifetime is that of the cached header's token if and only if no call
stands between its two writes. Consequently, after a check that passes there for a margin, the header stamped at any later
time belongs to a token with that much left at the check, or to a newer one than was checked, if and only if it is not the case
that the check was made between the two writes of a call, the call still stands there, and the old token had less left. -/
theorem lifetime_describes_header_iff (parser : HeaderParser) (now : Nat) (token : TokenResponse) (header : String)
    (m : TokenManager) (h : Transition.Reaches step (new parser now token header) m) :
    (m.lifetime = m.header ↔ ∀ c token, m.phase c ≠ .halfInstalled token) ∧
      ∀ margin m', m.isFresh margin = true → Transition.Reaches step m m' →
        ((margin ≤ m'.header.lifetime.remaining m.now ∨ m.lifetime.attempt < m'.header.attempt) ↔
          ¬∃ c token, m.phase c = .halfInstalled token ∧ m'.phase c = .halfInstalled token ∧
            m.header.lifetime.remaining m.now < margin) := by
  have hi := (inv_new parser now token header).run h
  have hfirst : (new parser now token header).header.attempt = 0 := rfl
  refine ⟨⟨fun heq c token hp => ?_, cells_eq hi⟩, fun margin m' hfresh hrun => ?_⟩
  · have hold := header_older hi hfirst hp
    rw [← heq, (cells_of_half hi hp).1] at hold
    exact Nat.lt_irrefl _ hold
  have hmargin : margin ≤ m.lifetime.lifetime.remaining m.now := by simpa [isFresh] using hfresh
  by_cases hhalf : ∃ c token, m.phase c = .halfInstalled token
  · obtain ⟨c, token, hp⟩ := hhalf
    have hlife := (cells_of_half hi hp).1
    -- Once the header is the new token's or newer, the call no longer stands between its writes.
    have hgone : token.attempt ≤ m'.header.attempt → ¬∃ c' token', m.phase c' = .halfInstalled token' ∧
        m'.phase c' = .halfInstalled token' ∧ m.header.lifetime.remaining m.now < margin := by
      rintro hle ⟨c', token', hp', hq', _⟩
      have hold := header_older (hi.run hrun) hfirst hq'
      rw [← (cells_of_half hi hp').1, hlife] at hold
      omega
    rcases after_half hi hfirst hp hrun with ⟨hq, hheader⟩ | hheader | hnewer
    · rw [hheader]
      constructor
      · rintro (hle | hlt) ⟨_, _, _, _, hless⟩
        · omega
        · have := header_older hi hfirst hp
          rw [hlife] at hlt
          omega
      · intro hnot
        exact Or.inl (Nat.le_of_not_lt fun hless => hnot ⟨c, token, hp, hq, hless⟩)
    · refine ⟨fun _ => hgone (Nat.le_of_eq (by rw [hheader])), fun _ => Or.inl ?_⟩
      rw [hheader, ← hlife]
      exact hmargin
    · refine ⟨fun _ => hgone (Nat.le_of_lt hnewer), fun _ => Or.inr ?_⟩
      rw [hlife]
      exact hnewer
  · have hnone : ∀ c token, m.phase c ≠ .halfInstalled token := fun c token hp => hhalf ⟨c, token, hp⟩
    have hsame := cells_eq hi hnone
    refine ⟨fun _ ⟨c, token, hp, _⟩ => hnone c token hp, ?_⟩
    intro _
    rcases header_newer hi hfirst hrun with heq | hlt
    · rw [heq, ← hsame]
      exact Or.inl hmargin
    · rw [hsame]
      exact Or.inr hlt

/-- A refresh that has come between its two writes, 599 seconds into a token of 600. -/
def betweenWrites : List Event :=
  [.elapse (secs 599), .begin 0, .acquire 0, .fetchEnds 0 (.ok ⟨"u", 600, "Bearer"⟩), .writeLifetime 0]

/-- The state between the two writes, and the stamp right after a check there. -/
theorem lifetime_describes_header_iff_between :
    let start := new .verbatim 0 ⟨"t", 600, "Bearer"⟩ "Bearer t"
    ∃ m, Transition.exec step start betweenWrites = some m ∧
      (m.lifetime = m.header ↔ ∀ c token, m.phase c ≠ .halfInstalled token) ∧
      ∀ margin m', m.isFresh margin = true → Transition.Reaches step m m' →
        ((margin ≤ m'.header.lifetime.remaining m.now ∨ m.lifetime.attempt < m'.header.attempt) ↔
          ¬∃ c token, m.phase c = .halfInstalled token ∧ m'.phase c = .halfInstalled token ∧
            m.header.lifetime.remaining m.now < margin) := by
  intro start
  have hexec : Transition.exec step start betweenWrites = some _ := rfl
  exact ⟨_, hexec, lifetime_describes_header_iff .verbatim 0 ⟨"t", 600, "Bearer"⟩ "Bearer t" _ (Transition.reaches_of_exec hexec)⟩

/-- The recorded lifetime is that of a newer token than the header's: a check for five seconds passes, and the header stamped
next is of the old token, with one second left. -/
theorem check_passes_between_writes :
    ∃ m : TokenManager, m.Reachable ∧ m.header.attempt < m.lifetime.attempt ∧ m.isFresh (secs 5) = true ∧ m.stamp = "Bearer t" ∧
      ¬(secs 5 ≤ m.header.lifetime.remaining m.now ∨ m.lifetime.attempt < m.header.attempt) := by
  have hexec : Transition.exec step (new .verbatim 0 ⟨"t", 600, "Bearer"⟩ "Bearer t") betweenWrites = some _ := rfl
  refine ⟨_, ⟨.verbatim, 0, ⟨"t", 600, "Bearer"⟩, "Bearer t", rfl, Transition.reaches_of_exec hexec⟩, ?_, ?_, ?_, ?_⟩
  · decide
  · decide
  · rfl
  · decide

end TokenManager

end RociaSdk

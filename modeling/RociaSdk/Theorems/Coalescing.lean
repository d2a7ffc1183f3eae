import RociaSdk.Lemmas.AuthAnswers

/-!
# Concurrent refreshes share one attempt

Over every interleaving of calls of `refresh_now`, cancellations included: attempts never overlap, a call repeats no attempt
that completed while it waited and shares the last one's outcome instead, and the header is that of the last attempt that
succeeded. The generation is a `u64`: a call that waits while exactly `2 ^ 64` attempts complete takes it for unchanged.
-/

namespace RociaSdk

namespace TokenManager

/-- What coalescing means in one state. -/
structure Coalesces (first : Token) (m : TokenManager) : Prop where
  /-- At most one attempt is in flight. -/
  one_attempt : ∀ c d, (m.phase c).inFlight = true → (m.phase d).inFlight = true → c = d
  /-- A call that is made now has seen every attempt completed so far. -/
  begins : ∀ c m', m.step (.begin c) = some m' → m'.begun c = m.log.length
  /-- A call that gets the lock fetches exactly when no attempt has completed since it read the generation, counted modulo
  `2 ^ 64`; otherwise it shares an outcome. -/
  fetches_iff : ∀ c m', m.step (.acquire c) = some m' →
    (m'.phase c = .fetching ↔ (m.log.length - m.begun c) % 2 ^ 64 = 0) ∧
      (m'.phase c ≠ .fetching → ∃ answer, m'.phase c = .releasing false answer)
  /-- A call that returns without a fetch answers what the last completed attempt came to, and that attempt completed after
  the call began. -/
  shares : ∀ c m' answer, m.step (.release c) = some m' → m'.phase c = .returned false answer →
    ∃ last, m.log.getLast? = some last ∧ m.begun c < m.log.length ∧
      (answer = .ok () ↔ ∃ token, last = .ok token) ∧ ((∃ e, answer = .error e) ↔ ∃ e, last = .error e)
  /-- With no attempt in flight, the header is that of the last attempt that succeeded, or the first one. -/
  header : (∀ c, (m.phase c).inFlight = false) → m.header = lastToken first m.log

namespace CoalescingAux

variable {first : Token} {m m' : TokenManager} {c : Nat}

/-- Two counts agree as `u64` counters when their difference is a multiple of `2 ^ 64`. -/
theorem ofNat_eq_iff {a b : Nat} (h : a ≤ b) : UInt64.ofNat b = UInt64.ofNat a ↔ (b - a) % 2 ^ 64 = 0 := by
  rw [← UInt64.toNat_inj, UInt64.toNat_ofNat', UInt64.toNat_ofNat']
  omega

/-- A call that gets the lock fetches exactly when the counter is where it was. -/
theorem fetches_iff_of_inv (h : m.Inv first) (hs : m.step (.acquire c) = some m') :
    (m'.phase c = .fetching ↔ (m.log.length - m.begun c) % 2 ^ 64 = 0) ∧
      (m'.phase c ≠ .fetching → ∃ answer, m'.phase c = .releasing false answer) := by
  rw [← ofNat_eq_iff (h.begun_le c), ← h.generation]
  cases step_cases hs with
  | coalesce _ observed hp hfree hgen =>
    rw [← h.observed c observed hp]
    simp only [goTo_self]
    exact ⟨⟨nofun, fun heq => absurd heq hgen⟩, fun _ => ⟨_, rfl⟩⟩
  | fetch _ observed hp hfree hgen =>
    rw [← h.observed c observed hp]
    have hp' : ({ m.goTo c .fetching with
        refreshLock := some c, fetchAttempts := m.fetchAttempts + 1 } : TokenManager).phase c = .fetching := goTo_self m c _
    exact ⟨⟨fun _ => hgen, fun _ => hp'⟩, fun hne => absurd hp' hne⟩

/-- A call that returns without a fetch answers what the last attempt came to. -/
theorem shares_of_answered (h : m.Answered) {answer : Except AuthError Unit} (hs : m.step (.release c) = some m')
    (hp' : m'.phase c = .returned false answer) :
    ∃ last, m.log.getLast? = some last ∧ m.begun c < m.log.length ∧
      (answer = .ok () ↔ ∃ token, last = .ok token) ∧ ((∃ e, answer = .error e) ↔ ∃ e, last = .error e) := by
  cases step_cases hs with
  | release _ fetched answer' hp =>
    simp only [TokenManager.release, goTo_self] at hp'
    cases hp'
    obtain ⟨last, hlt, hlast, ha⟩ := h.releasing c false answer hp
    refine ⟨last, hlast, hlt, ?_, ?_⟩
    · cases last <;> simp [ha, answerOf]
    · cases last <;> simp [ha, answerOf]

/-- With no attempt in flight, the cells are those of the last token. -/
theorem cells_of_quiet (h : m.Inv first) (hquiet : ∀ c, (m.phase c).inFlight = false) :
    (m.lifetime, m.header) = (lastToken first m.log, lastToken first m.log) := by
  have hcells := h.cells
  cases hl : m.refreshLock with
  | none =>
    rw [holder_of_free hl] at hcells
    exact hcells
  | some c =>
    have hp := hquiet c
    rw [holder_of_lock hl] at hcells
    generalize m.phase c = p at hp hcells
    cases p <;> first | exact hcells | (simp [Phase.inFlight] at hp)

end CoalescingAux

open CoalescingAux

/-- In every state that any interleaving of calls reaches, refreshes are coalesced. -/
theorem refreshNow_coalesces (parser : HeaderParser) (now : Nat) (token : TokenResponse) (header : String) (m : TokenManager)
    (h : Transition.Reaches step (new parser now token header) m) : m.Coalesces (new parser now token header).header := by
  have hi := (inv_new parser now token header).run h
  have ha := (answered_new parser now token header).run (inv_new parser now token header) h
  refine ⟨?_, ?_, fun c m' hs => fetches_iff_of_inv hi hs,
    fun c m' answer hs hp => shares_of_answered ha hs hp, fun hquiet => congrArg Prod.snd (cells_of_quiet hi hquiet)⟩
  · intro c d hc hd
    have hlock := hi.lock_eq (Phase.holdsLock_of_inFlight hc)
    rw [hi.lock_eq (Phase.holdsLock_of_inFlight hd), Option.some.injEq] at hlock
    exact hlock.symm
  · intro c m' hs
    cases step_cases hs with
    | begin _ hp => simp [TokenManager.begin]

/-- Two calls that overlap one failing attempt, up to the second getting the lock. -/
def overlap : List Event :=
  [.begin 0, .begin 1, .acquire 0, .fetchEnds 0 (.error ⟨"token request failed", none⟩), .record 0, .bump 0, .release 0,
    .acquire 1]

/-- The second of two overlapping calls shares the failure. -/
theorem refreshNow_coalesces_overlap :
    let start := new .verbatim 0 ⟨"t", 600, "Bearer"⟩ "Bearer t"
    ∃ m, Transition.exec step start overlap = some m ∧ m.Coalesces start.header := by
  intro start
  have hexec : Transition.exec step start overlap = some _ := rfl
  exact ⟨_, hexec, refreshNow_coalesces .verbatim 0 ⟨"t", 600, "Bearer"⟩ "Bearer t" _ (Transition.reaches_of_exec hexec)⟩

/-! ## A generation that wraps -/

namespace CoalescingAux

/-- A failed attempt by call `i`, from a free lock. -/
theorem round (m : TokenManager) (i : Nat) (hfree : m.refreshLock = none) (hi : m.phase i = .idle) :
    ∃ m', Transition.Reaches step m m' ∧ m'.refreshLock = none ∧ m'.refreshGeneration = m.refreshGeneration + 1 ∧
      m'.log.length = m.log.length + 1 ∧ ∀ j, j ≠ i → m'.phase j = m.phase j ∧ m'.begun j = m.begun j := by
  let e : AuthError := ⟨"token request failed", none⟩
  let fetching := (m.begin i).acquire i m.refreshGeneration
  let completed := ((fetching.fetchEnds i (.error e)).record i (.error e)).bump i (.error e)
  have hexec : Transition.exec step m [.begin i, .acquire i, .fetchEnds i (.error e), .record i, .bump i, .release i] =
      some (completed.release i true (.error e)) := by
    simp [Transition.exec, step, hi, hfree, completed, fetching, TokenManager.begin, acquire, TokenManager.fetchEnds,
      TokenManager.record, TokenManager.bump, Except.map]
  refine ⟨_, Transition.reaches_of_exec hexec, rfl, ?_, ?_, ?_⟩
  · simp [completed, fetching, TokenManager.release, TokenManager.bump, TokenManager.record, TokenManager.fetchEnds, acquire,
      TokenManager.begin]
  · simp [completed, fetching, TokenManager.release, TokenManager.bump, TokenManager.record, TokenManager.fetchEnds, acquire,
      TokenManager.begin]
  · intro j hj
    simp [completed, fetching, TokenManager.release, TokenManager.bump, TokenManager.record, TokenManager.fetchEnds, acquire,
      TokenManager.begin, goTo, hj]

/-- Attempts by the calls `1` to `n`, one after the other, while call `0` waits. -/
theorem rounds (m : TokenManager) (hfree : m.refreshLock = none) (hidle : ∀ i, 0 < i → m.phase i = .idle) (n : Nat) :
    ∃ m', Transition.Reaches step m m' ∧ m'.refreshLock = none ∧
      m'.refreshGeneration = m.refreshGeneration + UInt64.ofNat n ∧ m'.log.length = m.log.length + n ∧
      m'.phase 0 = m.phase 0 ∧ m'.begun 0 = m.begun 0 ∧ ∀ i, n < i → m'.phase i = .idle := by
  induction n with
  | zero => exact ⟨m, .refl, hfree, by simp, rfl, rfl, rfl, hidle⟩
  | succ n ih =>
    obtain ⟨m1, hrun1, hfree1, hgen1, hlog1, hphase1, hbegun1, hidle1⟩ := ih
    obtain ⟨m2, hrun2, hfree2, hgen2, hlog2, hother⟩ := round m1 (n + 1) hfree1 (hidle1 _ (Nat.lt_succ_self n))
    have h0 := hother 0 (by omega)
    refine ⟨m2, hrun1.trans hrun2, hfree2, ?_, by omega, h0.1.trans hphase1, h0.2.trans hbegun1, ?_⟩
    · rw [hgen2, hgen1, UInt64.ofNat_add, UInt64.add_assoc]
      rfl
    · intro i hi
      rw [(hother i (by omega)).1]
      exact hidle1 i (by omega)

end CoalescingAux

/-- A call fetches again although `2 ^ 64` attempts have completed since it read the generation. -/
theorem generation_wraps :
    ∃ m m' : TokenManager, m.Reachable ∧ m.step (.acquire 0) = some m' ∧ m.begun 0 + 2 ^ 64 = m.log.length ∧
      m'.phase 0 = .fetching := by
  let start := new .verbatim 0 ⟨"t", 600, "Bearer"⟩ "Bearer t"
  have hqueued : Transition.Reaches step start (start.begin 0) := Transition.Run.refl.tail (.begin 0) trivial rfl
  obtain ⟨m, hrun, hfree, hgen, hlog, hphase, hbegun, _⟩ :=
    rounds (start.begin 0) rfl (fun i hi => goTo_other start _ (by omega)) (2 ^ 64)
  have hp : m.phase 0 = .queued 0 := hphase.trans (goTo_self start 0 _)
  have hgen0 : m.refreshGeneration = 0 := hgen.trans (by decide)
  have hbegun0 : m.begun 0 = 0 := hbegun.trans (by simp [TokenManager.begin, start, new])
  refine ⟨m, m.acquire 0 0, ⟨.verbatim, 0, ⟨"t", 600, "Bearer"⟩, "Bearer t", rfl, hqueued.trans hrun⟩, ?_, ?_, ?_⟩
  · simp only [step, hp, hfree]
  · rw [hbegun0, hlog]
    rfl
  · simp [acquire, hgen0]

end TokenManager

end RociaSdk

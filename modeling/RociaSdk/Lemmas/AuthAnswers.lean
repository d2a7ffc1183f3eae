import RociaSdk.Lemmas.AuthAux

/-!
# What calls of `refresh_now` answer

Every call that returns does so on the outcome of an attempt that completed after it read the generation: its own, or the last
one that completed while it waited.
-/

namespace RociaSdk

namespace TokenManager

/-- The call an event is a step of. -/
def Event.call? : Event → Option Nat
  | .begin c => some c
  | .acquire c => some c
  | .fetchEnds c _ => some c
  | .writeLifetime c => some c
  | .writeHeader c => some c
  | .record c => some c
  | .bump c => some c
  | .release c => some c
  | .cancel c => some c
  | .requestRefresh => none
  | .elapse _ => none

/-- What a call answers on an outcome: its own, or the one it shares. -/
def answerOf (fetched : Bool) (outcome : Except AuthError Token) : Except AuthError Unit :=
  match outcome with
  | .ok _ => .ok ()
  | .error e => .error (if fetched then e else coalescedError e.display)

/-- Whether every answer given is the answer on an outcome of the log that the call has not seen when it began: the last one,
until the call has given the lock back. -/
structure Answered (m : TokenManager) : Prop where
  releasing : ∀ c fetched answer, m.phase c = .releasing fetched answer →
    ∃ outcome, m.begun c < m.log.length ∧ m.log.getLast? = some outcome ∧ answer = answerOf fetched outcome
  returned : ∀ c fetched answer, m.phase c = .returned fetched answer →
    ∃ k outcome, m.begun c ≤ k ∧ m.log[k]? = some outcome ∧ answer = answerOf fetched outcome

variable {first : Token} {m m' : TokenManager} {c d : Nat} {e : Event}

/-- A step of one call leaves the others where they are. -/
theorem Step.frame (h : m.Step e m') (hd : e.call? ≠ some d) : m'.phase d = m.phase d ∧ m'.begun d = m.begun d := by
  have hne : ∀ c, some c ≠ some d → d ≠ c := by
    rintro c hc rfl
    exact hc rfl
  cases h with
  | begin c hp => exact ⟨goTo_other m _ (hne c hd), Function.update_of_ne (hne c hd) _ _⟩
  | coalesce c observed hp hfree hgen => exact ⟨goTo_other m _ (hne c hd), rfl⟩
  | fetch c observed hp hfree hgen => exact ⟨goTo_other m _ (hne c hd), rfl⟩
  | fetchFailed c outcome e hp => exact ⟨goTo_other m _ (hne c hd), rfl⟩
  | fetched c response header hp hheader => exact ⟨goTo_other m _ (hne c hd), rfl⟩
  | writeLifetime c response header hp => exact ⟨goTo_other m _ (hne c hd), rfl⟩
  | writeHeader c token hp => exact ⟨goTo_other m _ (hne c hd), rfl⟩
  | record c outcome hp => exact ⟨goTo_other m _ (hne c hd), rfl⟩
  | bump c outcome hp => exact ⟨goTo_other m _ (hne c hd), rfl⟩
  | release c fetched answer hp => exact ⟨goTo_other m _ (hne c hd), rfl⟩
  | leave c observed hp => exact ⟨goTo_other m _ (hne c hd), rfl⟩
  | abandon c hp => exact ⟨goTo_other m _ (hne c hd), rfl⟩
  | requestRefresh => exact ⟨rfl, rfl⟩
  | elapse d => exact ⟨rfl, rfl⟩

/-- A step leaves the log as it is, or completes an attempt. -/
theorem Step.log_cases (h : m.Step e m') :
    m'.log = m.log ∨ ∃ c outcome, e = .bump c ∧ m.phase c = .bumping outcome ∧ m'.log = m.log ++ [outcome] := by
  cases h with
  | bump c outcome hp => exact Or.inr ⟨c, outcome, rfl, hp, rfl⟩
  | _ => exact Or.inl rfl

/-- The log only grows. -/
theorem Step.log_isPrefix (h : m.Step e m') : m.log <+: m'.log := by
  rcases h.log_cases with heq | ⟨_, _, _, _, heq⟩
  · exact heq ▸ List.prefix_refl _
  · rw [heq]
    exact List.prefix_append _ _

/-- What was in the log stays there. -/
theorem getElem?_of_isPrefix {l l' : List (Except AuthError Token)} (h : l <+: l') {k : Nat}
    {outcome : Except AuthError Token} (hk : l[k]? = some outcome) : l'[k]? = some outcome := by
  obtain ⟨rest, rfl⟩ := h
  have hlt : k < l.length := (List.getElem?_eq_some_iff.1 hk).1
  rw [List.getElem?_append_left hlt, hk]

/-- A call that finds the generation moved has an attempt to share, and what is recorded is that attempt's outcome. -/
theorem Inv.coalesced_eq (h : m.Inv first) {observed : UInt64} (hp : m.phase c = .queued observed)
    (hfree : m.refreshLock = none) (hgen : m.refreshGeneration ≠ observed) :
    ∃ outcome, m.begun c < m.log.length ∧ m.log.getLast? = some outcome ∧ m.coalesced = answerOf false outcome := by
  have hlt : m.begun c < m.log.length := by
    refine Nat.lt_of_le_of_ne (h.begun_le c) fun heq => hgen ?_
    rw [h.generation, h.observed c observed hp, heq]
  cases hlast : m.log.getLast? with
  | none =>
    rw [List.getLast?_eq_none_iff] at hlast
    simp [hlast] at hlt
  | some outcome =>
    have hfailure := h.failure
    rw [holder_of_free hfree, hlast] at hfailure
    refine ⟨outcome, hlt, rfl, ?_⟩
    cases outcome with
    | ok token => simp [coalesced, hfailure, Phase.failure, failureOf, answerOf]
    | error e => simp [coalesced, hfailure, Phase.failure, failureOf, answerOf]

/-- Every step keeps the answers right. -/
theorem Step.answered (hstep : m.Step e m') (hi : m.Inv first) (h : m.Answered) : m'.Answered := by
  -- What another call has answered stays right: its place in the log does.
  have hother : ∀ d, e.call? ≠ some d →
      (∀ fetched answer, m'.phase d = .releasing fetched answer →
        ∃ outcome, m'.begun d < m'.log.length ∧ m'.log.getLast? = some outcome ∧ answer = answerOf fetched outcome) ∧
      (∀ fetched answer, m'.phase d = .returned fetched answer →
        ∃ k outcome, m'.begun d ≤ k ∧ m'.log[k]? = some outcome ∧ answer = answerOf fetched outcome) := by
    intro d hd
    obtain ⟨hphase, hbegun⟩ := hstep.frame hd
    rw [hphase, hbegun]
    refine ⟨?_, ?_⟩
    · intro fetched answer hp
      obtain ⟨outcome, hlt, hlast, ha⟩ := h.releasing d fetched answer hp
      rcases hstep.log_cases with heq | ⟨c, outcome', rfl, hc, _⟩
      · rw [heq]
        exact ⟨outcome, hlt, hlast, ha⟩
      · -- Both would hold the lock.
        have hl := hi.lock_eq (c := d) (by rw [hp]; rfl)
        rw [hi.lock_eq (c := c) (by rw [hc]; rfl)] at hl
        exact absurd hl hd
    · intro fetched answer hp
      obtain ⟨k, outcome, hle, hk, ha⟩ := h.returned d fetched answer hp
      exact ⟨k, outcome, hle, getElem?_of_isPrefix hstep.log_isPrefix hk, ha⟩
  -- It is left to look at the call that moved.
  suffices hself : ∀ c, e.call? = some c →
      (∀ fetched answer, m'.phase c = .releasing fetched answer →
        ∃ outcome, m'.begun c < m'.log.length ∧ m'.log.getLast? = some outcome ∧ answer = answerOf fetched outcome) ∧
      (∀ fetched answer, m'.phase c = .returned fetched answer →
        ∃ k outcome, m'.begun c ≤ k ∧ m'.log[k]? = some outcome ∧ answer = answerOf fetched outcome) by
    constructor
    · intro c
      by_cases hc : e.call? = some c
      · exact (hself c hc).1
      · exact (hother c hc).1
    · intro c
      by_cases hc : e.call? = some c
      · exact (hself c hc).2
      · exact (hother c hc).2
  rintro c hc
  cases hstep with
  | coalesce c' observed hp hfree hgen =>
    cases hc
    obtain ⟨outcome, hlt, hlast, ha⟩ := hi.coalesced_eq hp hfree hgen
    refine ⟨?_, ?_⟩
    · intro fetched answer hq
      simp only [goTo_self] at hq
      cases hq
      exact ⟨outcome, hlt, hlast, ha⟩
    · intro fetched answer hq
      simp only [goTo_self] at hq
      cases hq
  | bump c' outcome hp =>
    cases hc
    refine ⟨?_, ?_⟩
    · intro fetched answer hq
      simp only [TokenManager.bump, goTo_self] at hq
      cases hq
      refine ⟨outcome, ?_, by simp [TokenManager.bump], ?_⟩
      · have := hi.begun_le c
        simp only [TokenManager.bump, goTo_begun, List.length_append, List.length_singleton]
        omega
      · cases outcome <;> rfl
    · intro fetched answer hq
      simp only [TokenManager.bump, goTo_self] at hq
      cases hq
  | release c' fetched answer hp =>
    cases hc
    obtain ⟨outcome, hlt, hlast, ha⟩ := h.releasing c fetched answer hp
    refine ⟨?_, ?_⟩
    · intro fetched' answer' hq
      simp only [TokenManager.release, goTo_self] at hq
      cases hq
    · intro fetched' answer' hq
      simp only [TokenManager.release, goTo_self] at hq
      cases hq
      rw [List.getLast?_eq_getElem?] at hlast
      exact ⟨m.log.length - 1, outcome, Nat.le_sub_one_of_lt hlt, hlast, ha⟩
  | requestRefresh => cases hc
  | elapse d => cases hc
  | _ =>
    cases hc
    refine ⟨fun fetched answer hq => ?_, fun fetched answer hq => ?_⟩ <;>
      simp [TokenManager.begin, TokenManager.writeLifetime, TokenManager.writeHeader, TokenManager.record,
        TokenManager.abandon] at hq

/-- Every state a run reaches has answered right. -/
theorem Answered.run (hi : m.Inv first) (h : m.Answered) (hrun : Transition.Reaches step m m') : m'.Answered :=
  (hrun.invariant (fun m => m.Inv first ∧ m.Answered) ⟨hi, h⟩ fun _ _ _ hp _ hs =>
    ⟨(step_cases hs).inv hp.1, (step_cases hs).answered hp.1 hp.2⟩).2

/-- A new manager has answered nothing. -/
theorem answered_new (parser : HeaderParser) (now : Nat) (token : TokenResponse) (header : String) :
    (new parser now token header).Answered :=
  ⟨fun _ _ _ h => (nomatch h), fun _ _ _ h => (nomatch h)⟩

end TokenManager

end RociaSdk

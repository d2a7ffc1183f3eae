import RociaSdk.Lemmas.TaskAux

/-!
# Times of the token manager

What a prompt run in which the refresh lock is given in turn keeps of the times in the manager: a token is made at the present
time, at most one attempt completes while a call waits for the lock, and a call that is still in the queue then has its turn
before the clock moves.
-/

namespace RociaSdk

/-- Whether a call at this phase has begun and has neither returned nor been dropped. -/
def Phase.underWay : Phase → Bool
  | idle => false
  | returned _ _ => false
  | cancelled => false
  | _ => true

namespace TokenManager

namespace TickAux

variable {first : Token} {m m' : TokenManager} {e : Event} {c : Nat} {token : Token}

/-! ## The token that is being installed -/

/-- A phase that is at an await has made no token. -/
theorem token_of_atAwait {p : Phase} (h : p.atAwait = true) : p.token? = none := by
  cases p <;> simp_all [Phase.atAwait, Phase.token?]

/-- A call that has made a token is in flight. -/
theorem inFlight_of_token {p : Phase} (h : p.token? = some token) : p.inFlight = true := by
  cases p <;> simp_all [Phase.inFlight, Phase.token?]

/-- Whoever holds the lock at an await is in flight. -/
theorem inFlight_of_atAwait {p : Phase} (h : p.atAwait = true) (hlock : p.holdsLock = true) : p.inFlight = true := by
  cases p <;> simp_all [Phase.atAwait, Phase.holdsLock, Phase.inFlight]

/-- A call with an outcome to record or to count has made its token. -/
theorem token_bumping (h : m.Inv first) (hp : m.phase c = .bumping (.ok token)) :
    m.holder.token? = some token ∧ m.lifetime = token := by
  have hholder := h.holder_eq (c := c) (by rw [hp]; rfl)
  have hcells := h.cells
  rw [hholder, hp] at hcells ⊢
  exact ⟨rfl, congrArg Prod.fst hcells⟩

/-- Without a token made, the lifetime is that of the last token. -/
theorem lifetime_eq (h : m.Inv first) (hnone : m.holder.token? = none) : m.lifetime = lastToken first m.log := by
  have hcells := congrArg Prod.fst h.cells
  generalize m.holder = p at hnone hcells
  cases p with
  | halfInstalled token => cases hnone
  | recording outcome =>
    cases outcome with
    | ok token => cases hnone
    | error e => exact hcells
  | bumping outcome =>
    cases outcome with
    | ok token => cases hnone
    | error e => exact hcells
  | _ => exact hcells

/-- After a successful attempt, the last token of the log is its token. -/
theorem lastToken_of_getLast {log : List (Except AuthError Token)} (h : log.getLast? = some (.ok token)) :
    lastToken first log = token := by
  obtain ⟨rest, rfl⟩ := List.getLast?_eq_some_iff.1 h
  exact lastToken_ok first rest token

/-- Outside an attempt no token is being installed. -/
theorem token_none_of_quiet (hquiet : ∀ c, (m.phase c).inFlight = false) : m.holder.token? = none := by
  cases hl : m.refreshLock with
  | none =>
    rw [holder_of_free hl]
    rfl
  | some c =>
    rw [holder_of_lock hl]
    cases ht : (m.phase c).token? with
    | none => rfl
    | some token =>
      have hflight := inFlight_of_token ht
      rw [hquiet c] at hflight
      cases hflight

/-! ## What a step does to it -/

/-- The lock holder makes its token when it writes the lifetime, and has made none once it has bumped the generation. -/
theorem token_step (hi : m.Inv first) (h : m.Step e m') :
    m'.holder.token? = m.holder.token? ∨
      (∃ c response header token, e = .writeLifetime c ∧ m.phase c = .installing response header ∧
        m'.holder.token? = some token ∧ token.lifetime = .issuedNow m.now response.expiresIn) ∨
      (m'.holder.token? = none ∧ ∃ c, e = .bump c) := by
  have hmoves : ∀ {c : Nat} {p : Phase}, (m.phase c).holdsLock = true → m'.refreshLock = m.refreshLock →
      m'.phase = (m.goTo c p).phase → m'.holder = p := by
    intro c p hc hlock hphase
    rw [holder_of_lock (hlock.trans (hi.lock_eq hc)), hphase, goTo_self]
  cases h with
  | begin c hp =>
    refine Or.inl (congrArg Phase.token? ?_)
    exact holder_goTo_of_not_holding (p := .queued m.refreshGeneration) hi (by rw [hp]; rfl)
  | coalesce c observed hp hfree hgen =>
    refine Or.inl ?_
    rw [holder_of_free hfree, holder_of_lock (c := c) rfl]
    simp only [goTo_self]
    rfl
  | fetch c observed hp hfree hgen =>
    refine Or.inl ?_
    rw [holder_of_free hfree, holder_of_lock (c := c) rfl]
    simp only [goTo_self]
    rfl
  | fetchFailed c outcome e hp =>
    have hc : (m.phase c).holdsLock = true := by rw [hp]; rfl
    rw [hmoves hc rfl rfl, hi.holder_eq hc, hp]
    exact Or.inl rfl
  | fetched c response header hp hheader =>
    have hc : (m.phase c).holdsLock = true := by rw [hp]; rfl
    rw [hmoves hc rfl rfl, hi.holder_eq hc, hp]
    exact Or.inl rfl
  | writeLifetime c response header hp =>
    have hc : (m.phase c).holdsLock = true := by rw [hp]; rfl
    rw [hmoves hc rfl rfl]
    exact Or.inr (Or.inl ⟨c, response, header, _, rfl, hp, rfl, rfl⟩)
  | writeHeader c token hp =>
    have hc : (m.phase c).holdsLock = true := by rw [hp]; rfl
    rw [hmoves hc rfl rfl, hi.holder_eq hc, hp]
    exact Or.inl rfl
  | record c outcome hp =>
    have hc : (m.phase c).holdsLock = true := by rw [hp]; rfl
    rw [hmoves hc rfl rfl, hi.holder_eq hc, hp]
    refine Or.inl ?_
    cases outcome <;> rfl
  | bump c outcome hp =>
    have hc : (m.phase c).holdsLock = true := by rw [hp]; rfl
    rw [hmoves hc rfl rfl]
    exact Or.inr (Or.inr ⟨rfl, c, rfl⟩)
  | release c fetched answer hp =>
    have hc : (m.phase c).holdsLock = true := by rw [hp]; rfl
    rw [holder_of_free (m := m.release c fetched answer) rfl, hi.holder_eq hc, hp]
    exact Or.inl rfl
  | leave c observed hp =>
    refine Or.inl (congrArg Phase.token? ?_)
    exact holder_goTo_of_not_holding hi (by rw [hp]; rfl)
  | abandon c hp =>
    have hc : (m.phase c).holdsLock = true := by rw [hp]; rfl
    rw [holder_of_free (m := m.abandon c) rfl, hi.holder_eq hc, hp]
    exact Or.inl rfl
  | requestRefresh => exact Or.inl rfl
  | elapse d => exact Or.inl rfl

/-- A step leaves the lifetime as it is, or writes that of a fetched token. -/
theorem lifetime_step (h : m.Step e m') :
    m'.lifetime = m.lifetime ∨ ∃ c response header, e = .writeLifetime c ∧ m.phase c = .installing response header ∧
      m'.lifetime.lifetime.expiresIn = response.expiresIn := by
  cases h with
  | writeLifetime c response header hp => exact Or.inr ⟨c, response, header, rfl, hp, rfl⟩
  | _ => exact Or.inl rfl

/-- Only the clock's own event moves the clock. -/
theorem now_step (h : m.Step e m') : m'.now = m.now ∨ ∃ d, e = .elapse d ∧ m' = { m with now := m.now + d } := by
  cases h with
  | elapse d => exact Or.inr ⟨d, rfl, rfl⟩
  | _ => exact Or.inl rfl

/-- The clock does not go back. -/
theorem now_le (h : m.Step e m') : m.now ≤ m'.now := by
  rcases now_step h with heq | ⟨d, _, rfl⟩
  · exact Nat.le_of_eq heq.symm
  · exact Nat.le_add_right ..

/-! ## The queue -/

/-- A call is put in flight only by the lock, and only if it has seen the present generation. -/
theorem inFlight_step (h : m.Step e m') :
    (∀ d, (m'.phase d).inFlight = true → (m.phase d).inFlight = true) ∨
      ∃ c, e = .acquire c ∧ m.phase c = .queued m.refreshGeneration := by
  have hother : ∀ {c : Nat} {p : Phase}, (p.inFlight = true → (m.phase c).inFlight = true) →
      ∀ d, ((m.goTo c p).phase d).inFlight = true → (m.phase d).inFlight = true := by
    intro c p hp d hd
    by_cases hdc : d = c
    · rw [hdc, goTo_self] at hd
      rw [hdc]
      exact hp hd
    · rwa [goTo_other m p hdc] at hd
  cases h with
  | begin c hp => exact Or.inl (hother (by simp [Phase.inFlight]))
  | coalesce c observed hp hfree hgen => exact Or.inl (hother (by simp [Phase.inFlight]))
  | fetch c observed hp hfree hgen => exact Or.inr ⟨c, rfl, by rw [hp, hgen]⟩
  | fetchFailed c outcome e hp => exact Or.inl (hother (by simp [hp, Phase.inFlight]))
  | fetched c response header hp hheader => exact Or.inl (hother (by simp [hp, Phase.inFlight]))
  | writeLifetime c response header hp => exact Or.inl (hother (by simp [hp, Phase.inFlight]))
  | writeHeader c token hp => exact Or.inl (hother (by simp [hp, Phase.inFlight]))
  | record c outcome hp => exact Or.inl (hother (by simp [hp, Phase.inFlight]))
  | bump c outcome hp => exact Or.inl (hother (by simp [Phase.inFlight]))
  | release c fetched answer hp => exact Or.inl (hother (by simp [Phase.inFlight]))
  | leave c observed hp => exact Or.inl (hother (by simp [Phase.inFlight]))
  | abandon c hp => exact Or.inl (hother (by simp [Phase.inFlight]))
  | requestRefresh => exact Or.inl fun _ hd => hd
  | elapse d => exact Or.inl fun _ hd => hd

/-- A call is under way only once it has begun. -/
theorem underWay_step (h : m.Step e m') (hbegin : e ≠ .begin c) (hway : (m'.phase c).underWay = true) :
    (m.phase c).underWay = true := by
  by_cases hcall : e.call? = some c
  · cases h with
    | begin c' hp =>
      cases hcall
      exact absurd rfl hbegin
    | requestRefresh => cases hcall
    | elapse d => cases hcall
    | _ =>
      cases hcall
      simp [Phase.underWay, *]
  · rwa [(h.frame hcall).1] at hway

/-- A call in the queue was there before, or has just begun. -/
theorem queued_step (h : m.Step e m') {observed : UInt64} (hq : m'.phase c = .queued observed) :
    (m.phase c = .queued observed ∧ m'.begun c = m.begun c) ∨ (m'.begun c = m.log.length ∧ m'.log = m.log) := by
  by_cases hcall : e.call? = some c
  · cases h with
    | begin c' hp =>
      cases hcall
      exact Or.inr ⟨by simp [TokenManager.begin], rfl⟩
    | requestRefresh => cases hcall
    | elapse d => cases hcall
    | _ =>
      cases hcall
      simp [TokenManager.writeLifetime, TokenManager.writeHeader, TokenManager.record, TokenManager.bump,
        TokenManager.release, TokenManager.abandon] at hq
  · obtain ⟨hphase, hbegun⟩ := h.frame hcall
    rw [hphase] at hq
    exact Or.inl ⟨hq, hbegun⟩

/-! ## A call that has its answer -/

/-- A call that has its answer has just counted its own attempt or shared another's, or had it before. -/
theorem answer_step (h : m.Step e m') {fetched : Bool} {answer : Except AuthError Unit}
    (hp : m'.phase c = .releasing fetched answer ∨ m'.phase c = .returned fetched answer) :
    e = .bump c ∨ (∃ observed, e = .acquire c ∧ m.phase c = .queued observed ∧ m.refreshLock = none ∧
      m.refreshGeneration ≠ observed) ∨ m.phase c = .releasing fetched answer ∨ m.phase c = .returned fetched answer := by
  by_cases hcall : e.call? = some c
  · cases h with
    | bump c' outcome hp' =>
      cases hcall
      exact Or.inl rfl
    | coalesce c' observed hp' hfree hgen =>
      cases hcall
      exact Or.inr (Or.inl ⟨observed, rfl, hp', hfree, hgen⟩)
    | release c' fetched' answer' hp' =>
      cases hcall
      simp only [TokenManager.release, goTo_self] at hp
      rcases hp with hp | hp
      · cases hp
      · cases hp
        exact Or.inr (Or.inr (Or.inl hp'))
    | requestRefresh => cases hcall
    | elapse d => cases hcall
    | _ =>
      cases hcall
      simp [TokenManager.begin, TokenManager.writeLifetime, TokenManager.writeHeader, TokenManager.record,
        TokenManager.abandon] at hp
  · rw [(h.frame hcall).1] at hp
    exact Or.inr (Or.inr hp)

end TickAux

open TickAux

/-! ## What a prompt run keeps of the times -/

variable {first : Token} {m m' : TokenManager} {e : Event} {c : Nat} {token : Token}

/-- What a prompt run in turn keeps of the times: a token is made at the present time, at most one attempt has completed since
a call queued, none is in flight then, and the token of that one is of the present time. -/
structure Punctual (first : Token) (m : TokenManager) : Prop where
  inv : m.Inv first
  answered : m.Answered
  made : ∀ token, m.holder.token? = some token → token.lifetime.fetchedAt = m.now
  queue : ∀ c observed, m.phase c = .queued observed →
    m.begun c = m.log.length ∨ (m.log.length = m.begun c + 1 ∧ ∀ d, (m.phase d).inFlight = false)
  waited : ∀ c observed token, m.phase c = .queued observed → m.begun c < m.log.length →
    m.log.getLast? = some (.ok token) → token.lifetime.fetchedAt = m.now

/-- What is asked of an event: the clock waits for the calls, and the lock is given in turn. -/
structure Orderly (m : TokenManager) (e : Event) : Prop where
  atAwait : ∀ d, e = .elapse d → ∀ c, (m.phase c).atAwait = true
  locked : ∀ d, e = .elapse d → ∀ c observed, m.phase c = .queued observed → m.refreshLock ≠ none
  inTurn : ∀ call, e = .acquire call → ∀ c observed, m.phase c = .queued observed → m.begun call ≤ m.begun c

/-- At first there is nothing to look at. -/
theorem punctual_new (parser : HeaderParser) (now : Nat) (token : TokenResponse) (header : String) :
    Punctual (new parser now token header).header (new parser now token header) where
  inv := inv_new parser now token header
  answered := answered_new parser now token header
  made _ h := by cases h
  queue _ _ h := by cases h
  waited _ _ _ h := by cases h

/-- The token of an attempt that completes is of the present time. -/
theorem Punctual.completed (h : m.Punctual first) (hp : m.phase c = .bumping (.ok token)) :
    token.lifetime.fetchedAt = m.now := h.made token (token_bumping h.inv hp).1

/-- A token is made at the present time, and the clock stands still until its attempt has completed. -/
theorem Punctual.made_step (h : m.Punctual first) (hstep : m.Step e m') (ho : m.Orderly e)
    (ht : m'.holder.token? = some token) : token.lifetime.fetchedAt = m'.now := by
  rcases now_step hstep with hnow | ⟨d, rfl, rfl⟩
  · rw [hnow]
    rcases token_step h.inv hstep with heq | ⟨_, _, _, made, _, _, hsome, hissued⟩ | ⟨hnone, _⟩
    · exact h.made token (heq.symm.trans ht)
    · rw [hsome, Option.some.injEq] at ht
      rw [← ht, hissued]
      rfl
    · rw [hnone] at ht
      cases ht
  · cases hl : m.refreshLock with
    | none =>
      rw [holder_of_free (m := { m with now := m.now + d }) hl] at ht
      cases ht
    | some c =>
      rw [holder_of_lock (m := { m with now := m.now + d }) hl] at ht
      exact absurd (ht.symm.trans (token_of_atAwait (ho.atAwait d rfl c))) (by simp)

/-- A call that waits for the lock while another has it sees one attempt complete at most: the next to have the lock has seen
as little as itself, and shares that attempt's outcome. -/
theorem Punctual.queue_step (h : m.Punctual first) (hstep : m.Step e m') (ho : m.Orderly e) {observed : UInt64}
    (hq : m'.phase c = .queued observed) :
    m'.begun c = m'.log.length ∨ (m'.log.length = m'.begun c + 1 ∧ ∀ d, (m'.phase d).inFlight = false) := by
  rcases queued_step hstep hq with ⟨hqueued, hbegun⟩ | ⟨hbegun, hlog⟩
  · rw [hbegun]
    rcases hstep.log_cases with hlog | ⟨c', outcome, rfl, hp, hlog⟩
    · rw [hlog]
      rcases h.queue c observed hqueued with heq | ⟨hone, hnone⟩
      · exact Or.inl heq
      · refine Or.inr ⟨hone, fun d => ?_⟩
        rcases inFlight_step hstep with hflight | ⟨c', rfl, hnext⟩
        · exact Bool.eq_false_iff.2 fun hd => by
            have := hflight d hd
            rw [hnone d] at this
            cases this
        · -- The call would take the generation for unchanged, and has seen one attempt less than there are.
          have hturn := ho.inTurn c' rfl c observed hqueued
          have hbegun' : m.log.length = m.begun c' + 1 := by
            rcases h.queue c' _ hnext with heq | ⟨hone', _⟩
            · omega
            · exact hone'
          have hgen := h.inv.observed c' _ hnext
          rw [h.inv.generation, hbegun', UInt64.ofNat_add] at hgen
          simp at hgen
    · have hflight : (m.phase c').inFlight = true := by rw [hp]; rfl
      rcases h.queue c observed hqueued with heq | ⟨_, hnone⟩
      · refine Or.inr ⟨by rw [hlog, List.length_append, List.length_singleton, heq], fun d => Bool.eq_false_iff.2 fun hd => ?_⟩
        rcases inFlight_step hstep with hbefore | ⟨_, hacquire, _⟩
        · have hc := h.inv.lock_eq (Phase.holdsLock_of_inFlight hflight)
          have hdc : d = c' := by
            rw [h.inv.lock_eq (Phase.holdsLock_of_inFlight (hbefore d hd)), Option.some.injEq] at hc
            exact hc
          cases hstep with
          | bump _ _ _ =>
            rw [hdc] at hd
            simp [TokenManager.bump, Phase.inFlight] at hd
        · cases hacquire
      · rw [hnone c'] at hflight
        cases hflight
  · exact Or.inl (hbegun.trans (by rw [hlog]))

/-- The clock does not move while a call that has seen an attempt complete is in the queue. -/
theorem Punctual.waited_step (h : m.Punctual first) (hstep : m.Step e m') (ho : m.Orderly e) {observed : UInt64}
    (hq : m'.phase c = .queued observed) (hlt : m'.begun c < m'.log.length) (hlast : m'.log.getLast? = some (.ok token)) :
    token.lifetime.fetchedAt = m'.now := by
  rcases now_step hstep with hnow | ⟨d, rfl, rfl⟩
  · rw [hnow]
    rcases hstep.log_cases with hlog | ⟨c', outcome, rfl, hp, hlog⟩
    · rcases queued_step hstep hq with ⟨hqueued, hbegun⟩ | ⟨hbegun, _⟩
      · rw [hbegun, hlog] at hlt
        exact h.waited c observed token hqueued hlt (hlog ▸ hlast)
      · rw [hbegun, hlog] at hlt
        exact absurd hlt (Nat.lt_irrefl _)
    · rw [hlog, List.getLast?_concat, Option.some.injEq] at hlast
      exact h.completed (hp.trans (congrArg Phase.bumping hlast))
  · rcases h.queue c observed hq with heq | ⟨_, hnone⟩
    · exact absurd hlt (Nat.not_lt_of_le (Nat.le_of_eq heq.symm))
    · -- Somebody has the lock and is at an await, so an attempt is in flight.
      obtain ⟨d', hl⟩ := Option.ne_none_iff_exists'.1 (ho.locked d rfl c observed hq)
      have hflight := inFlight_of_atAwait (ho.atAwait d rfl d') ((h.inv.holds d').2 hl)
      rw [hnone d'] at hflight
      cases hflight

/-- An orderly step keeps all of it. -/
theorem Punctual.step (h : m.Punctual first) (hstep : m.Step e m') (ho : m.Orderly e) : m'.Punctual first where
  inv := hstep.inv h.inv
  answered := hstep.answered h.inv h.answered
  made _ ht := h.made_step hstep ho ht
  queue _ _ hq := h.queue_step hstep ho hq
  waited _ _ _ hq hlt hlast := h.waited_step hstep ho hq hlt hlast

end TokenManager

end RociaSdk

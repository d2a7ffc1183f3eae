import RociaSdk.Auth

/-!
# One step of the token manager

`TokenManager.Step` says once what each event can do, and `TokenManager.Inv` is what holds in every reachable state: the lock
is held by the one call that is past acquiring it, the generation counts the completed attempts modulo `2 ^ 64`, and the two
cells, the recorded failure and the tokens are those of the last successful attempt and of what the lock holder has written
since.
-/

namespace RociaSdk

namespace Phase

/-- Whether a call at this phase holds the refresh lock. -/
def holdsLock : Phase → Bool
  | fetching => true
  | installing _ _ => true
  | halfInstalled _ => true
  | recording _ => true
  | bumping _ => true
  | releasing _ _ => true
  | _ => false

/-- Whether a call at this phase is running an attempt. -/
def inFlight : Phase → Bool
  | fetching => true
  | installing _ _ => true
  | halfInstalled _ => true
  | recording _ => true
  | bumping _ => true
  | _ => false

/-- The lifetime and the header cell while the lock holder is at this phase, over the token installed before. -/
def cells (base : Token) : Phase → Token × Token
  | halfInstalled token => (token, base)
  | recording (.ok token) => (token, token)
  | bumping (.ok token) => (token, token)
  | _ => (base, base)

/-- The recorded failure while the lock holder is at this phase, over the one recorded before. -/
def failure (base : Option String) : Phase → Option String
  | bumping outcome => TokenManager.failureOf outcome
  | _ => base

/-- The token the lock holder has made at this phase. -/
def token? : Phase → Option Token
  | halfInstalled token => some token
  | recording (.ok token) => some token
  | bumping (.ok token) => some token
  | _ => none

theorem holdsLock_of_inFlight {p : Phase} (h : p.inFlight = true) : p.holdsLock = true := by
  cases p <;> simp_all [inFlight, holdsLock]

end Phase

/-- The token of the last successful attempt of a log, or the first token. -/
def lastToken (first : Token) (log : List (Except AuthError Token)) : Token :=
  log.foldl (fun token outcome => match outcome with | .ok t => t | .error _ => token) first

theorem lastToken_ok (first : Token) (log : List (Except AuthError Token)) (token : Token) :
    lastToken first (log ++ [.ok token]) = token := by
  simp [lastToken]

theorem lastToken_error (first : Token) (log : List (Except AuthError Token)) (e : AuthError) :
    lastToken first (log ++ [.error e]) = lastToken first log := by
  simp [lastToken]

/-- A header that is built is the text of its token. -/
theorem buildHeader_ok {parser : HeaderParser} {token : TokenResponse} {header : String}
    (h : buildHeader parser token = .ok header) : header = token.tokenType ++ " " ++ token.accessToken := by
  cases hparse : parser.parse (token.tokenType ++ " " ++ token.accessToken) with
  | ok value =>
    simp only [buildHeader, hparse, Except.ok.injEq] at h
    exact h ▸ parser.value_eq hparse
  | error source => simp [buildHeader, hparse] at h

/-- What the outcome of a fetch gives to be installed: a token that makes a header. -/
def installable (parser : HeaderParser) (outcome : Except AuthError TokenResponse) : Except AuthError TokenResponse :=
  match outcome with
  | .error e => .error e
  | .ok response => (buildHeader parser response).map fun _ => response

namespace TokenManager

/-! ## What an event can do -/

/-- What each event can do, and when. -/
inductive Step (m : TokenManager) : Event → TokenManager → Prop where
  | begin (c : Nat) (hp : m.phase c = .idle) : Step m (.begin c) (m.begin c)
  | coalesce (c : Nat) (observed : UInt64) (hp : m.phase c = .queued observed) (hfree : m.refreshLock = none)
      (hgen : m.refreshGeneration ≠ observed) :
      Step m (.acquire c) { m.goTo c (.releasing false m.coalesced) with refreshLock := some c }
  | fetch (c : Nat) (observed : UInt64) (hp : m.phase c = .queued observed) (hfree : m.refreshLock = none)
      (hgen : m.refreshGeneration = observed) :
      Step m (.acquire c)
        { m.goTo c .fetching with refreshLock := some c, fetchAttempts := m.fetchAttempts + 1 }
  | fetchFailed (c : Nat) (outcome : Except AuthError TokenResponse) (e : AuthError) (hp : m.phase c = .fetching)
      (hfailed : installable m.parser outcome = .error e) :
      Step m (.fetchEnds c outcome) (m.goTo c (.recording (.error e)))
  | fetched (c : Nat) (response : TokenResponse) (header : String) (hp : m.phase c = .fetching)
      (hheader : buildHeader m.parser response = .ok header) :
      Step m (.fetchEnds c (.ok response)) (m.goTo c (.installing response header))
  | writeLifetime (c : Nat) (response : TokenResponse) (header : String) (hp : m.phase c = .installing response header) :
      Step m (.writeLifetime c) (m.writeLifetime c response header)
  | writeHeader (c : Nat) (token : Token) (hp : m.phase c = .halfInstalled token) :
      Step m (.writeHeader c) (m.writeHeader c token)
  | record (c : Nat) (outcome : Except AuthError Token) (hp : m.phase c = .recording outcome) :
      Step m (.record c) (m.record c outcome)
  | bump (c : Nat) (outcome : Except AuthError Token) (hp : m.phase c = .bumping outcome) :
      Step m (.bump c) (m.bump c outcome)
  | release (c : Nat) (fetched : Bool) (answer : Except AuthError Unit) (hp : m.phase c = .releasing fetched answer) :
      Step m (.release c) (m.release c fetched answer)
  | leave (c : Nat) (observed : UInt64) (hp : m.phase c = .queued observed) : Step m (.cancel c) (m.goTo c .cancelled)
  | abandon (c : Nat) (hp : m.phase c = .fetching) : Step m (.cancel c) (m.abandon c)
  | requestRefresh : Step m .requestRefresh { m with refreshNotify := true }
  | elapse (d : Nat) : Step m (.elapse d) { m with now := m.now + d }

/-- Every step is one of those. -/
theorem step_cases {m m' : TokenManager} {e : Event} (h : m.step e = some m') : m.Step e m' := by
  cases e with
  | begin c =>
    simp only [step] at h
    split at h
    next hp => cases h; exact .begin c hp
    next => cases h
  | acquire c =>
    simp only [step] at h
    split at h
    next observed hp hfree =>
      cases h
      unfold acquire
      by_cases hgen : m.refreshGeneration = observed
      · rw [if_neg (not_not.2 hgen)]
        exact .fetch c observed hp hfree hgen
      · rw [if_pos hgen]
        exact .coalesce c observed hp hfree hgen
    next => cases h
  | fetchEnds c outcome =>
    simp only [step] at h
    split at h
    next hp =>
      cases h
      cases outcome with
      | error e => exact .fetchFailed c _ e hp rfl
      | ok response =>
        cases hheader : buildHeader m.parser response with
        | error e =>
          simp only [TokenManager.fetchEnds, hheader]
          exact .fetchFailed c _ e hp (by simp only [installable, hheader, Except.map])
        | ok header =>
          simp only [TokenManager.fetchEnds, hheader]
          exact .fetched c response header hp hheader
    next => cases h
  | writeLifetime c =>
    simp only [step] at h
    split at h
    next response header hp => cases h; exact .writeLifetime c response header hp
    next => cases h
  | writeHeader c =>
    simp only [step] at h
    split at h
    next token hp => cases h; exact .writeHeader c token hp
    next => cases h
  | record c =>
    simp only [step] at h
    split at h
    next outcome hp => cases h; exact .record c outcome hp
    next => cases h
  | bump c =>
    simp only [step] at h
    split at h
    next outcome hp => cases h; exact .bump c outcome hp
    next => cases h
  | release c =>
    simp only [step] at h
    split at h
    next fetched answer hp => cases h; exact .release c fetched answer hp
    next => cases h
  | cancel c =>
    simp only [step] at h
    split at h
    next observed hp => cases h; exact .leave c observed hp
    next hp => cases h; exact .abandon c hp
    next => cases h
  | requestRefresh => cases h; exact .requestRefresh
  | elapse d => cases h; exact .elapse d

/-! ## Phases after a step -/

@[simp] theorem goTo_self (m : TokenManager) (c : Nat) (p : Phase) : (m.goTo c p).phase c = p := by
  simp [goTo]

@[simp] theorem goTo_refreshLock (m : TokenManager) (c : Nat) (p : Phase) : (m.goTo c p).refreshLock = m.refreshLock := rfl

@[simp] theorem goTo_refreshGeneration (m : TokenManager) (c : Nat) (p : Phase) :
    (m.goTo c p).refreshGeneration = m.refreshGeneration := rfl

@[simp] theorem goTo_lastAttemptFailure (m : TokenManager) (c : Nat) (p : Phase) :
    (m.goTo c p).lastAttemptFailure = m.lastAttemptFailure := rfl

@[simp] theorem goTo_lifetime (m : TokenManager) (c : Nat) (p : Phase) : (m.goTo c p).lifetime = m.lifetime := rfl

@[simp] theorem goTo_header (m : TokenManager) (c : Nat) (p : Phase) : (m.goTo c p).header = m.header := rfl

@[simp] theorem goTo_begun (m : TokenManager) (c : Nat) (p : Phase) : (m.goTo c p).begun = m.begun := rfl

@[simp] theorem goTo_log (m : TokenManager) (c : Nat) (p : Phase) : (m.goTo c p).log = m.log := rfl

@[simp] theorem goTo_now (m : TokenManager) (c : Nat) (p : Phase) : (m.goTo c p).now = m.now := rfl

theorem goTo_other (m : TokenManager) {c d : Nat} (p : Phase) (h : d ≠ c) : (m.goTo c p).phase d = m.phase d := by
  simp [goTo, h]

/-- The phase of the lock holder. -/
def holder (m : TokenManager) : Phase :=
  match m.refreshLock with
  | none => .idle
  | some c => m.phase c

/-! ## The invariant -/

/-- What holds in every state reached from a manager whose first token is `first`. -/
structure Inv (first : Token) (m : TokenManager) : Prop where
  holds : ∀ c, (m.phase c).holdsLock = true ↔ m.refreshLock = some c
  generation : m.refreshGeneration = UInt64.ofNat m.log.length
  observed : ∀ c observed, m.phase c = .queued observed → observed = UInt64.ofNat (m.begun c)
  begun_le : ∀ c, m.begun c ≤ m.log.length
  failure : m.lastAttemptFailure = m.holder.failure (m.log.getLast?.bind failureOf)
  cells : (m.lifetime, m.header) = m.holder.cells (lastToken first m.log)
  numbered : ∀ i token, m.log[i]? = some (.ok token) → token.attempt = i + 1
  fresh : ∀ token, m.holder.token? = some token → token.attempt = m.log.length + 1

/-! ## The invariant is kept -/

variable {first : Token} {m : TokenManager} {c : Nat}

/-- A new manager satisfies the invariant. -/
theorem inv_new (parser : HeaderParser) (now : Nat) (token : TokenResponse) (header : String) :
    (new parser now token header).Inv (new parser now token header).header where
  holds c := by simp [new, Phase.holdsLock]
  generation := rfl
  observed c observed h := by cases h
  begun_le c := Nat.le_refl _
  failure := rfl
  cells := rfl
  numbered i token h := by simp [new] at h
  fresh token h := by cases h

/-- The lock holder is the call whose phase holds the lock. -/
theorem Inv.lock_eq (h : m.Inv first) (hp : (m.phase c).holdsLock = true) : m.refreshLock = some c := (h.holds c).1 hp

theorem holder_of_lock (h : m.refreshLock = some c) : m.holder = m.phase c := by
  simp only [holder, h]

theorem holder_of_free (h : m.refreshLock = none) : m.holder = .idle := by
  simp only [holder, h]

theorem Inv.holder_eq (h : m.Inv first) (hp : (m.phase c).holdsLock = true) : m.holder = m.phase c :=
  holder_of_lock (h.lock_eq hp)

/-- What the lock holder's phase says of the cells. -/
theorem Inv.at_phase (h : m.Inv first) {p : Phase} (hp : m.phase c = p) (hlock : p.holdsLock = true) :
    (m.phase c).holdsLock = true ∧ m.lastAttemptFailure = p.failure (m.log.getLast?.bind failureOf) ∧
      (m.lifetime, m.header) = p.cells (lastToken first m.log) ∧
      ∀ token, p.token? = some token → token.attempt = m.log.length + 1 := by
  have hc : (m.phase c).holdsLock = true := by rwa [hp]
  have hholder := h.holder_eq hc
  rw [hp] at hholder
  refine ⟨hc, ?_, ?_, ?_⟩
  · rw [← hholder]
    exact h.failure
  · rw [← hholder]
    exact h.cells
  · rw [← hholder]
    exact h.fresh

/-- After a call has moved, the phases hold the lock as the lock says, if they did before and the call's own does. -/
theorem holds_goTo (h : m.Inv first) {p : Phase} {lock : Option Nat} (hp : p.holdsLock = true ↔ lock = some c)
    (hother : ∀ d, d ≠ c → (m.refreshLock = some d ↔ lock = some d)) (d : Nat) :
    ((m.goTo c p).phase d).holdsLock = true ↔ lock = some d := by
  by_cases hd : d = c
  · rw [hd, goTo_self]
    exact hp
  · rw [goTo_other m p hd, h.holds d]
    exact hother d hd

/-- After a call has moved, queued calls have observed what they observed before, unless the call itself queued. -/
theorem observed_goTo (h : m.Inv first) {p : Phase} (hp : ∀ o, p ≠ .queued o) (d : Nat) (o : UInt64)
    (hq : (m.goTo c p).phase d = .queued o) : o = UInt64.ofNat (m.begun d) := by
  by_cases hd : d = c
  · rw [hd, goTo_self] at hq
    exact absurd hq (hp o)
  · rw [goTo_other m p hd] at hq
    exact h.observed d o hq

/-- A call that does not hold the lock moves without it: the lock holder stays where it is. -/
theorem holder_goTo_of_not_holding (h : m.Inv first) {p : Phase} (hc : (m.phase c).holdsLock = false) :
    (m.goTo c p).holder = m.holder := by
  cases hl : m.refreshLock with
  | none => rw [holder_of_free hl, holder_of_free (m := m.goTo c p) hl]
  | some d =>
    have hd : d ≠ c := by
      rintro rfl
      rw [(h.holds d).2 hl] at hc
      cases hc
    rw [holder_of_lock hl, holder_of_lock (m := m.goTo c p) hl, goTo_other m p hd]

/-- A call moves without the lock. -/
theorem Inv.goTo_free (h : m.Inv first) {p : Phase} (hc : (m.phase c).holdsLock = false) (hp : p.holdsLock = false)
    (hq : ∀ o, p ≠ .queued o) : (m.goTo c p).Inv first where
  holds := holds_goTo h (by rw [goTo_refreshLock, hp, ← h.holds c, hc]) fun _ _ => Iff.rfl
  generation := h.generation
  observed := observed_goTo h hq
  begun_le := h.begun_le
  failure := by rw [holder_goTo_of_not_holding h hc]; exact h.failure
  cells := by rw [holder_goTo_of_not_holding h hc]; exact h.cells
  numbered := h.numbered
  fresh := by rw [holder_goTo_of_not_holding h hc]; exact h.fresh

/-- A call that has the lock before or after its move has moved: what is left to look at are the cells, the failure, the log
and the token the new lock holder has made. -/
theorem Inv.moved (h : m.Inv first) (m' : TokenManager) (c : Nat) (p : Phase) (hphase : m'.phase = (m.goTo c p).phase)
    (hp : p.holdsLock = true ↔ m'.refreshLock = some c)
    (hother : ∀ d, d ≠ c → (m.refreshLock = some d ↔ m'.refreshLock = some d)) (hq : ∀ o, p ≠ .queued o)
    (hbegun : m'.begun = m.begun) (hgen : m'.refreshGeneration = UInt64.ofNat m'.log.length)
    (hlog : m.log.length ≤ m'.log.length)
    (hfailure : m'.lastAttemptFailure = m'.holder.failure (m'.log.getLast?.bind failureOf))
    (hcells : (m'.lifetime, m'.header) = m'.holder.cells (lastToken first m'.log))
    (hnumbered : ∀ i token, m'.log[i]? = some (.ok token) → token.attempt = i + 1)
    (hfresh : ∀ token, m'.holder.token? = some token → token.attempt = m'.log.length + 1) : m'.Inv first where
  holds d := by rw [hphase]; exact holds_goTo h hp hother d
  generation := hgen
  observed d o hqd := by
    rw [hphase] at hqd
    rw [hbegun]
    exact observed_goTo h hq d o hqd
  begun_le d := by rw [hbegun]; exact Nat.le_trans (h.begun_le d) hlog
  failure := hfailure
  cells := hcells
  numbered := hnumbered
  fresh := hfresh

/-- Taking the free lock. -/
theorem Inv.taken (h : m.Inv first) (m' : TokenManager) (c : Nat) (p : Phase) (hphase : m'.phase = (m.goTo c p).phase)
    (hfree : m.refreshLock = none) (hlock : m'.refreshLock = some c) (hp : p.holdsLock = true)
    (hcells : p.cells (lastToken first m.log) = (lastToken first m.log, lastToken first m.log))
    (hfailure : ∀ base, p.failure base = base) (htoken : p.token? = none) (hq : ∀ o, p ≠ .queued o)
    (hgen : m'.refreshGeneration = m.refreshGeneration) (hbegun : m'.begun = m.begun) (hlog : m'.log = m.log)
    (hlast : m'.lastAttemptFailure = m.lastAttemptFailure) (hlife : m'.lifetime = m.lifetime)
    (hheader : m'.header = m.header) : m'.Inv first := by
  have hholder : m'.holder = p := by rw [holder_of_lock hlock, hphase, goTo_self]
  have hbase := holder_of_free hfree
  refine h.moved m' c p hphase (by simp [hp, hlock]) (fun d hd => by simp [hfree, hlock, Ne.symm hd]) hq hbegun
    (by rw [hgen, hlog]; exact h.generation) (Nat.le_of_eq (by rw [hlog])) ?_ ?_ (by rw [hlog]; exact h.numbered) ?_
  · rw [hholder, hfailure, hlast, hlog, h.failure, hbase]
    rfl
  · rw [hholder, hlife, hheader, hlog, h.cells, hbase, hcells]
    rfl
  · intro token ht
    rw [hholder, htoken] at ht
    cases ht

/-- Giving the lock back. -/
theorem Inv.given (h : m.Inv first) (m' : TokenManager) (p : Phase) (hphase : m'.phase = (m.goTo c p).phase)
    (hc : (m.phase c).holdsLock = true) (hlock : m'.refreshLock = none) (hp : p.holdsLock = false)
    (hcells : (m.phase c).cells (lastToken first m.log) = (lastToken first m.log, lastToken first m.log))
    (hfailure : ∀ base, (m.phase c).failure base = base) (hq : ∀ o, p ≠ .queued o)
    (hgen : m'.refreshGeneration = m.refreshGeneration) (hbegun : m'.begun = m.begun) (hlog : m'.log = m.log)
    (hlast : m'.lastAttemptFailure = m.lastAttemptFailure) (hlife : m'.lifetime = m.lifetime)
    (hheader : m'.header = m.header) : m'.Inv first := by
  have hholder : m'.holder = .idle := holder_of_free hlock
  have hbase := h.holder_eq hc
  have hl := h.lock_eq hc
  refine h.moved m' c p hphase (by simp [hp, hlock]) (fun d hd => by simp [hl, hlock, Ne.symm hd]) hq hbegun
    (by rw [hgen, hlog]; exact h.generation) (Nat.le_of_eq (by rw [hlog])) ?_ ?_ (by rw [hlog]; exact h.numbered) ?_
  · rw [hholder, hlast, hlog, h.failure, hbase, hfailure]
    rfl
  · rw [hholder, hlife, hheader, hlog, h.cells, hbase, hcells]
    rfl
  · intro token ht
    rw [hholder] at ht
    cases ht

/-- The lock holder moves on within its attempt. -/
theorem Inv.goes_on (h : m.Inv first) (m' : TokenManager) (p : Phase) (hphase : m'.phase = (m.goTo c p).phase)
    (hc : (m.phase c).holdsLock = true) (hlock : m'.refreshLock = m.refreshLock) (hp : p.holdsLock = true)
    (hq : ∀ o, p ≠ .queued o) (hgen : m'.refreshGeneration = m.refreshGeneration) (hbegun : m'.begun = m.begun)
    (hlog : m'.log = m.log) (hfailure : m'.lastAttemptFailure = p.failure (m.log.getLast?.bind failureOf))
    (hcells : (m'.lifetime, m'.header) = p.cells (lastToken first m.log))
    (hfresh : ∀ token, p.token? = some token → token.attempt = m.log.length + 1) : m'.Inv first := by
  have hl := h.lock_eq hc
  have hholder : m'.holder = p := by rw [holder_of_lock (hlock.trans hl), hphase, goTo_self]
  exact h.moved m' c p hphase (by simp [hp, hlock, hl]) (fun d _ => by rw [hlock]) hq hbegun
    (by rw [hgen, hlog]; exact h.generation) (Nat.le_of_eq (by rw [hlog])) (by rw [hholder, hlog]; exact hfailure)
    (by rw [hholder, hlog]; exact hcells) (by rw [hlog]; exact h.numbered) (by rw [hholder, hlog]; exact hfresh)

/-- Every step keeps the invariant. -/
theorem Step.inv {m' : TokenManager} {e : Event} (hstep : m.Step e m') (h : m.Inv first) : m'.Inv first := by
  cases hstep with
  | begin c hp =>
    have hc : (m.phase c).holdsLock = false := by rw [hp]; rfl
    have hholder := holder_goTo_of_not_holding (p := .queued m.refreshGeneration) h hc
    have hl : (Phase.queued m.refreshGeneration).holdsLock = true ↔ m.refreshLock = some c := by
      rw [← h.holds c, hc]
      rfl
    refine ⟨holds_goTo h hl fun _ _ => Iff.rfl, h.generation, ?_, ?_, ?_, ?_, h.numbered, ?_⟩
    · intro d o hq
      by_cases hd : d = c
      · subst hd
        unfold TokenManager.begin at hq ⊢
        simp only [goTo_self] at hq
        cases hq
        simp [h.generation]
      · simp only [TokenManager.begin, Function.update_of_ne hd]
        exact h.observed d o (by rw [← goTo_other m _ hd]; exact hq)
    · intro d
      by_cases hd : d = c
      · simp [TokenManager.begin, hd]
      · simp only [TokenManager.begin, Function.update_of_ne hd]
        exact h.begun_le d
    · exact h.failure.trans (by rw [← hholder]; rfl)
    · exact h.cells.trans (by rw [← hholder]; rfl)
    · intro token ht
      exact h.fresh token (by rw [← hholder]; exact ht)
  | coalesce c observed hp hfree hgen =>
    exact h.taken _ c _ rfl hfree rfl rfl rfl (fun _ => rfl) rfl nofun rfl rfl rfl rfl rfl rfl
  | fetch c observed hp hfree hgen =>
    exact h.taken _ c _ rfl hfree rfl rfl rfl (fun _ => rfl) rfl nofun rfl rfl rfl rfl rfl rfl
  | fetchFailed c outcome e hp =>
    obtain ⟨hc, hfailure, hcells, _⟩ := h.at_phase hp rfl
    exact h.goes_on _ _ rfl hc rfl rfl nofun rfl rfl rfl hfailure hcells nofun
  | fetched c response header hp hheader =>
    obtain ⟨hc, hfailure, hcells, _⟩ := h.at_phase hp rfl
    exact h.goes_on _ _ rfl hc rfl rfl nofun rfl rfl rfl hfailure hcells nofun
  | writeLifetime c response header hp =>
    obtain ⟨hc, hfailure, hcells, _⟩ := h.at_phase hp rfl
    refine h.goes_on _ _ rfl hc rfl rfl nofun rfl rfl rfl hfailure ?_ ?_
    · exact congrArg (Prod.mk _) (congrArg Prod.snd hcells)
    · rintro token ⟨⟩
      rfl
  | writeHeader c token hp =>
    obtain ⟨hc, hfailure, hcells, hfresh⟩ := h.at_phase hp rfl
    refine h.goes_on _ _ rfl hc rfl rfl nofun rfl rfl rfl hfailure ?_ ?_
    · exact congrArg (fun p : Token × Token => (p.1, token)) hcells
    · rintro _ ⟨⟩
      exact hfresh token rfl
  | record c outcome hp =>
    obtain ⟨hc, _, hcells, hfresh⟩ := h.at_phase hp rfl
    refine h.goes_on _ _ rfl hc rfl rfl nofun rfl rfl rfl rfl ?_ ?_
    · cases outcome <;> exact hcells
    · cases outcome with
      | error e => exact nofun
      | ok token => exact hfresh
  | bump c outcome hp =>
    obtain ⟨hc, hfailure, hcells, hfresh⟩ := h.at_phase hp rfl
    have hl := h.lock_eq hc
    have hholder : (m.bump c outcome).holder = .releasing true (outcome.map fun _ => ()) := by
      rw [holder_of_lock (m := m.bump c outcome) hl, TokenManager.bump]
      exact goTo_self m c _
    refine h.moved _ c _ rfl (by simp [TokenManager.bump, Phase.holdsLock, hl]) (fun d _ => Iff.rfl) nofun rfl ?_ ?_ ?_ ?_ ?_ ?_
    · simp only [TokenManager.bump, List.length_append, List.length_singleton, UInt64.ofNat_add, h.generation]
      rfl
    · simp [TokenManager.bump]
    · rw [hholder]
      simpa [TokenManager.bump, Phase.failure] using hfailure
    · rw [hholder]
      cases outcome with
      | error e =>
        simp only [TokenManager.bump, lastToken_error]
        exact hcells
      | ok token =>
        simp only [TokenManager.bump, lastToken_ok]
        exact hcells
    · intro i token ht
      simp only [TokenManager.bump] at ht
      rcases Nat.lt_or_ge i m.log.length with hi | hi
      · rw [List.getElem?_append_left hi] at ht
        exact h.numbered i token ht
      · rw [List.getElem?_append_right hi] at ht
        have hi0 : i - m.log.length = 0 := by
          by_contra hne
          rw [List.getElem?_eq_none (by simp; omega)] at ht
          cases ht
        rw [hi0, List.getElem?_cons_zero, Option.some.injEq] at ht
        subst ht
        have := hfresh token rfl
        omega
    · intro token ht
      rw [hholder] at ht
      cases ht
  | release c fetched answer hp =>
    exact h.given _ _ rfl (by rw [hp]; rfl) rfl rfl (by rw [hp]; rfl) (fun _ => by rw [hp]; rfl) nofun rfl rfl rfl rfl rfl rfl
  | leave c observed hp =>
    have hc : (m.phase c).holdsLock = false := by rw [hp]; rfl
    exact h.goTo_free hc rfl nofun
  | abandon c hp =>
    exact h.given _ _ rfl (by rw [hp]; rfl) rfl rfl (by rw [hp]; rfl) (fun _ => by rw [hp]; rfl) nofun rfl rfl rfl rfl rfl rfl
  | requestRefresh => exact ⟨h.holds, h.generation, h.observed, h.begun_le, h.failure, h.cells, h.numbered, h.fresh⟩
  | elapse d => exact ⟨h.holds, h.generation, h.observed, h.begun_le, h.failure, h.cells, h.numbered, h.fresh⟩

/-- Every state a run reaches satisfies the invariant. -/
theorem Inv.run {m' : TokenManager} (h : m.Inv first) (hrun : Transition.Reaches step m m') : m'.Inv first :=
  hrun.invariant (Inv first) h fun _ _ _ hi _ hs => (step_cases hs).inv hi

end TokenManager

end RociaSdk

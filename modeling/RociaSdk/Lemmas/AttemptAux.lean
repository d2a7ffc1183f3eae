import RociaSdk.Lemmas.CellsAux

/-!
# One attempt

What the shared cells hold while a call runs an attempt, and what the attempt leaves in them when it ends, whatever the other
calls do meanwhile: they have to wait for the lock.
-/

namespace RociaSdk

/-- A token is made of a response: it has the header that the response's type and token spell, and the lifetime that it gives. -/
def Token.Of (token : Token) (response : TokenResponse) : Prop :=
  token.header = response.tokenType ++ " " ++ response.accessToken ∧ token.lifetime.expiresIn = response.expiresIn

namespace TokenManager

/-- The outcome of a call's fetch, if an event is its end. -/
def Event.fetchOf (call : Nat) : Event → Option (Except AuthError TokenResponse)
  | .fetchEnds c outcome => if c = call then some outcome else none
  | _ => none

/-- The outcomes of a call's fetches among some events. -/
def fetchesOf (call : Nat) (events : List Event) : List (Except AuthError TokenResponse) := events.filterMap (Event.fetchOf call)

/-- What an attempt has left in the cells when its outcome is there: what they held before it, or the token of its response in
both. -/
def Settled (before : TokenManager) (answers : List (Except AuthError TokenResponse)) (t : TokenManager) :
    Except AuthError Token → Prop
  | .error e => ∃ outcome, answers = [outcome] ∧ installable t.parser outcome = .error e ∧ t.lifetime = before.lifetime ∧
      t.header = before.header
  | .ok token => ∃ response, answers = [.ok response] ∧ installable t.parser (.ok response) = .ok response ∧
      token.Of response ∧ t.lifetime = token ∧ t.header = token

/-- What holds while a call runs the attempt it began in a state, as long as it does. -/
def Attempt (before : TokenManager) (call : Nat) (answers : List (Except AuthError TokenResponse)) (t : TokenManager) : Prop :=
  match t.phase call with
  | .idle => False
  | .queued _ => False
  | .fetching => answers = [] ∧ t.lifetime = before.lifetime ∧ t.header = before.header ∧
      t.refreshGeneration = before.refreshGeneration ∧ t.lastAttemptFailure = before.lastAttemptFailure
  | .installing response header => answers = [.ok response] ∧ buildHeader t.parser response = .ok header ∧
      t.lifetime = before.lifetime ∧ t.header = before.header
  | .halfInstalled token => ∃ response, answers = [.ok response] ∧ installable t.parser (.ok response) = .ok response ∧
      token.Of response ∧ t.lifetime = token
  | .recording outcome => Settled before answers t outcome
  | .bumping outcome => Settled before answers t outcome
  | .releasing fetched answer => fetched = true ∧ ∃ outcome, answer = outcome.map (fun _ => ()) ∧ Settled before answers t outcome
  | .returned _ _ => True
  | .cancelled => True

namespace AttemptAux

variable {first : Token} {before m m' : TokenManager} {e : Event} {call : Nat} {answers : List (Except AuthError TokenResponse)}

/-- No step changes the parser. -/
theorem parser_eq (h : m.Step e m') : m'.parser = m.parser := by
  cases h <;> rfl

/-- What others do leaves the cells to the call that holds the lock. -/
theorem frame_cells (hi : m.Inv first) (h : m.Step e m') (hlock : m.refreshLock = some call) (hcall : e.call? ≠ some call) :
    m'.lifetime = m.lifetime ∧ m'.header = m.header ∧ m'.refreshGeneration = m.refreshGeneration ∧
      m'.lastAttemptFailure = m.lastAttemptFailure := by
  have hother : ∀ d, (m.phase d).holdsLock = true → d = call := fun d hd =>
    Option.some.inj ((hi.lock_eq hd).symm.trans hlock)
  cases h with
  | writeLifetime d response header hp => exact absurd (congrArg some (hother d (by rw [hp]; rfl))) hcall
  | writeHeader d token hp => exact absurd (congrArg some (hother d (by rw [hp]; rfl))) hcall
  | record d outcome hp => exact absurd (congrArg some (hother d (by rw [hp]; rfl))) hcall
  | bump d outcome hp => exact absurd (congrArg some (hother d (by rw [hp]; rfl))) hcall
  | _ => exact ⟨rfl, rfl, rfl, rfl⟩

/-- The end of a call's fetch is an event of the call. -/
theorem fetchOf_none (hcall : e.call? ≠ some call) : e.fetchOf call = none := by
  cases e with
  | fetchEnds c outcome => exact if_neg fun heq => hcall (congrArg some heq)
  | _ => rfl

/-- What others do keeps what holds of the attempt. -/
theorem attempt_other (hi : m.Inv first) (h : m.Step e m') (hcall : e.call? ≠ some call) (ha : Attempt before call answers m) :
    Attempt before call answers m' := by
  have hphase := (h.frame hcall).1
  unfold Attempt at ha ⊢
  rw [hphase]
  cases hp : m.phase call with
  | returned fetched answer => trivial
  | cancelled => trivial
  | idle => exact (by rw [hp] at ha; exact ha)
  | queued observed => exact (by rw [hp] at ha; exact ha)
  | _ =>
    obtain ⟨hlifetime, hheader, hgeneration, hfailure⟩ := frame_cells hi h (hi.lock_eq (c := call) (by rw [hp]; rfl)) hcall
    rw [hp] at ha
    simp only [Settled, hlifetime, hheader, hgeneration, hfailure, parser_eq h] at ha ⊢
    exact ha

/-- What is settled is settled as long as the cells stay as they are. -/
theorem settled_of_cells {outcome : Except AuthError Token} (h : Settled before answers m outcome)
    (hparser : m'.parser = m.parser) (hlifetime : m'.lifetime = m.lifetime) (hheader : m'.header = m.header) :
    Settled before answers m' outcome := by
  unfold Settled at h ⊢
  rw [hparser, hlifetime, hheader]
  exact h

/-- What the call does keeps what holds of its attempt. -/
theorem attempt_own (h : m.Step e m') (hcall : e.call? = some call) (ha : Attempt before call answers m) :
    Attempt before call (answers ++ (e.fetchOf call).toList) m' := by
  unfold Attempt at ha ⊢
  cases h with
  | begin c hp =>
    cases hcall
    rw [hp] at ha
    exact ha.elim
  | coalesce c observed hp _ _ =>
    cases hcall
    rw [hp] at ha
    exact ha.elim
  | fetch c observed hp _ _ =>
    cases hcall
    rw [hp] at ha
    exact ha.elim
  | fetchFailed c outcome e hp hfailed =>
    cases hcall
    rw [hp] at ha
    obtain ⟨rfl, hlifetime, hheader, _⟩ := ha
    rw [goTo_self]
    exact ⟨outcome, by simp [Event.fetchOf], hfailed, hlifetime, hheader⟩
  | fetched c response header hp hbuilt =>
    cases hcall
    rw [hp] at ha
    obtain ⟨rfl, hlifetime, hheader, _⟩ := ha
    rw [goTo_self]
    exact ⟨by simp [Event.fetchOf], hbuilt, hlifetime, hheader⟩
  | writeLifetime c response header hp =>
    cases hcall
    rw [hp] at ha
    obtain ⟨rfl, hbuilt, _⟩ := ha
    have hphase : (m.writeLifetime call response header).phase call = _ := goTo_self ..
    have hinstallable : installable m.parser (.ok response) = .ok response := by simp only [installable, hbuilt, Except.map]
    rw [hphase]
    exact ⟨response, rfl, hinstallable, ⟨buildHeader_ok hbuilt, rfl⟩, rfl⟩
  | writeHeader c token hp =>
    cases hcall
    rw [hp] at ha
    obtain ⟨response, rfl, hinstallable, hof, hlifetime⟩ := ha
    have hphase : (m.writeHeader call token).phase call = _ := goTo_self ..
    rw [hphase]
    exact ⟨response, rfl, hinstallable, hof, hlifetime, rfl⟩
  | record c outcome hp =>
    cases hcall
    rw [hp] at ha
    have hphase : (m.record call outcome).phase call = _ := goTo_self ..
    have hfetch : Event.fetchOf call (.record call) = none := rfl
    rw [hphase, hfetch, Option.toList_none, List.append_nil]
    exact settled_of_cells ha rfl rfl rfl
  | bump c outcome hp =>
    cases hcall
    rw [hp] at ha
    have hphase : (m.bump call outcome).phase call = _ := goTo_self ..
    have hfetch : Event.fetchOf call (.bump call) = none := rfl
    rw [hphase, hfetch, Option.toList_none, List.append_nil]
    exact ⟨rfl, outcome, rfl, settled_of_cells ha rfl rfl rfl⟩
  | release c fetched answer hp =>
    cases hcall
    have hphase : (m.release call fetched answer).phase call = _ := goTo_self ..
    rw [hphase]
    trivial
  | leave c observed hp =>
    cases hcall
    rw [goTo_self]
    trivial
  | abandon c hp =>
    cases hcall
    have hphase : (m.abandon call).phase call = _ := goTo_self ..
    rw [hphase]
    trivial
  | requestRefresh => cases hcall
  | elapse d => cases hcall

/-- What holds of an attempt holds in every state of a run from there. -/
theorem attempt_run {events : List Event} (hi : m.Inv first) (ha : Attempt before call answers m)
    (h : Transition.exec step m events = some m') :
    m'.parser = m.parser ∧ Attempt before call (answers ++ fetchesOf call events) m' := by
  induction events generalizing m answers with
  | nil =>
    cases h
    have hnone : answers ++ fetchesOf call [] = answers := List.append_nil answers
    rw [hnone]
    exact ⟨rfl, ha⟩
  | cons e events ih =>
    unfold Transition.exec at h
    obtain ⟨u, hstep, hrest⟩ := Option.bind_eq_some_iff.1 h
    have hcases := step_cases hstep
    have hanswers : answers ++ fetchesOf call (e :: events) = (answers ++ (e.fetchOf call).toList) ++ fetchesOf call events := by
      unfold fetchesOf
      cases hfetch : e.fetchOf call with
      | none => simp [hfetch]
      | some outcome => simp [hfetch]
    rw [hanswers, ← parser_eq hcases]
    refine ih (hcases.inv hi) ?_ hrest
    by_cases hcall : e.call? = some call
    · exact attempt_own hcases hcall ha
    · rw [fetchOf_none hcall, Option.toList_none, List.append_nil]
      exact attempt_other hi hcases hcall ha

/-- A call that takes the lock to fetch begins an attempt. -/
theorem attempt_start (h : m.step (.acquire call) = some m') (hp : m'.phase call = .fetching) : Attempt m call [] m' := by
  unfold Attempt
  rw [hp]
  cases step_cases h with
  | coalesce _ observed _ _ _ =>
    have hphase : ({ m.goTo call (.releasing false m.coalesced) with refreshLock := some call } : TokenManager).phase call = _ :=
      goTo_self ..
    rw [hphase] at hp
    cases hp
  | fetch _ observed _ _ _ => exact ⟨rfl, rfl, rfl, rfl, rfl⟩

end AttemptAux

end TokenManager

end RociaSdk

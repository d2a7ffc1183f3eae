import RociaSdk.Lemmas.AttemptAux

/-!
# A refresh attempt is atomic

An attempt that fails or is dropped leaves the header and the lifetime as they were, and one that is dropped leaves no trace at
all, so that the next call in the queue fetches for itself. After an attempt that succeeds both are of its one token response.
-/

namespace RociaSdk

namespace TokenManager

open AttemptAux

/-- Two states agree in all that an attempt writes. -/
def SameCells (m m' : TokenManager) : Prop :=
  m'.header = m.header ∧ m'.lifetime = m.lifetime ∧ m'.refreshGeneration = m.refreshGeneration ∧
    m'.lastAttemptFailure = m.lastAttemptFailure

namespace AttemptAux

variable {before m m' : TokenManager} {call : Nat} {answers : List (Except AuthError TokenResponse)}

/-- A call that is dropped before it has the lock leaves no trace. -/
theorem sameCells_of_queued {observed : UInt64} (hp : m.phase call = .queued observed) (h : m.step (.cancel call) = some m') :
    SameCells m m' := by
  cases step_cases h with
  | leave _ _ _ => exact ⟨rfl, rfl, rfl, rfl⟩
  | abandon _ hp' =>
    rw [hp] at hp'
    cases hp'

/-- An attempt that is dropped leaves no trace, and the lock is free. -/
theorem sameCells_of_dropped (ha : Attempt before call answers m) (h : m.step (.cancel call) = some m') :
    SameCells before m' ∧ m'.refreshLock = none := by
  unfold Attempt at ha
  cases step_cases h with
  | leave _ _ hp =>
    rw [hp] at ha
    exact ha.elim
  | abandon _ hp =>
    rw [hp] at ha
    obtain ⟨_, hlifetime, hheader, hgeneration, hfailure⟩ := ha
    exact ⟨⟨hheader, hlifetime, hgeneration, hfailure⟩, rfl⟩

/-- A call that is queued at the present generation takes the free lock to fetch. -/
theorem fetches_of_queued (hfree : m.refreshLock = none) (hp : m.phase call = .queued m.refreshGeneration) :
    ∃ m', m.step (.acquire call) = some m' ∧ m'.phase call = .fetching ∧ m'.fetchAttempts = m.fetchAttempts + 1 := by
  refine ⟨{ m.goTo call .fetching with refreshLock := some call, fetchAttempts := m.fetchAttempts + 1 }, ?_, goTo_self .., rfl⟩
  simp only [step, hp, hfree, acquire, if_neg (not_not.2 (Eq.refl m.refreshGeneration))]

/-- What an attempt that has run to its end leaves. -/
theorem settled_of_released (ha : Attempt before call answers m) (h : m.step (.release call) = some m') :
    m'.parser = m.parser ∧
      ∃ outcome, m'.phase call = .returned true (outcome.map fun _ => ()) ∧ Settled before answers m' outcome := by
  unfold Attempt at ha
  cases step_cases h with
  | release _ fetched answer hp =>
    rw [hp] at ha
    obtain ⟨rfl, outcome, rfl, hsettled⟩ := ha
    exact ⟨rfl, outcome, goTo_self .., settled_of_cells hsettled rfl rfl rfl⟩

end AttemptAux

/-- An attempt is atomic. A call of `refresh_now` that is dropped while it waits for the lock, or whose attempt is dropped
wherever it waits for the IdP, leaves the header, the lifetime, the generation and the recorded failure as they were, and a call
queued at that generation then fetches for itself. An attempt that runs to its end has fetched once: if this gave nothing to
install, the header and the lifetime are what they were before it; otherwise both are of the one response it gave, the header its
token type, a space and its access token, the lifetime the one it reports. -/
theorem attempt_atomic (m : TokenManager) (hm : m.Reachable) (call : Nat) :
    (∀ observed m', m.phase call = .queued observed → m.step (.cancel call) = some m' → SameCells m m') ∧
    ∀ started events m', m.step (.acquire call) = some started → started.phase call = .fetching →
      Transition.exec step started events = some m' →
      (∀ after, m'.step (.cancel call) = some after → SameCells m after ∧
        ∀ waiter, after.phase waiter = .queued m.refreshGeneration →
          ∃ next, after.step (.acquire waiter) = some next ∧ next.phase waiter = .fetching ∧
            next.fetchAttempts = after.fetchAttempts + 1) ∧
      ∀ after, m'.step (.release call) = some after → ∃ outcome, fetchesOf call events = [outcome] ∧
        match installable m.parser outcome with
        | .error e => after.phase call = .returned true (.error e) ∧ after.header = m.header ∧ after.lifetime = m.lifetime
        | .ok response => outcome = .ok response ∧ after.phase call = .returned true (.ok ()) ∧ after.header = after.lifetime ∧
          after.header.header = response.tokenType ++ " " ++ response.accessToken ∧
          after.lifetime.lifetime.expiresIn = response.expiresIn := by
  refine ⟨fun observed m' hp h => sameCells_of_queued hp h, ?_⟩
  intro started events m' hacquire hfetching hrun
  obtain ⟨parser, now, token, header, _, hreach⟩ := hm
  have hi := (step_cases hacquire).inv ((inv_new parser now token header).run hreach)
  obtain ⟨hparser, ha⟩ := attempt_run hi (attempt_start hacquire hfetching) hrun
  rw [parser_eq (step_cases hacquire)] at hparser
  rw [List.nil_append] at ha
  refine ⟨?_, ?_⟩
  · intro after hdrop
    obtain ⟨hsame, hfree⟩ := sameCells_of_dropped ha hdrop
    refine ⟨hsame, ?_⟩
    intro waiter hqueued
    rw [← hsame.2.2.1] at hqueued
    exact fetches_of_queued hfree hqueued
  · intro after hrelease
    obtain ⟨hsame, outcome, hreturned, hsettled⟩ := settled_of_released ha hrelease
    have hafter : after.parser = m.parser := hsame.trans hparser
    cases outcome with
    | error e =>
      obtain ⟨outcome, hfetched, hfailed, hlifetime, hheader⟩ := hsettled
      refine ⟨outcome, hfetched, ?_⟩
      rw [hafter] at hfailed
      rw [hfailed]
      exact ⟨hreturned, hheader, hlifetime⟩
    | ok token =>
      obtain ⟨response, hfetched, hinstallable, ⟨htext, hexpires⟩, hlifetime, hheader⟩ := hsettled
      refine ⟨.ok response, hfetched, ?_⟩
      rw [hafter] at hinstallable
      rw [hinstallable]
      exact ⟨rfl, hreturned, by rw [hheader, hlifetime], by rw [hheader, htext], by rw [hlifetime, hexpires]⟩

/-- A fetch is dropped while another call waits, which then fetches for itself: refused, it leaves the first header, and given a
token, the header and the lifetime of that one. -/
theorem attempt_atomic_dropped :
    ∃ m started dropped next answered refused fetched installed : TokenManager, m.Reachable ∧
      m.step (.acquire 0) = some started ∧ started.step (.cancel 0) = some dropped ∧ SameCells m dropped ∧
      dropped.step (.acquire 1) = some next ∧ next.phase 1 = .fetching ∧
      Transition.exec step next [.fetchEnds 1 (.error ⟨"refused", none⟩), .record 1, .bump 1] = some answered ∧
      answered.step (.release 1) = some refused ∧ refused.header = m.header ∧
      Transition.exec step next [.fetchEnds 1 (.ok ⟨"u", 300, "Bearer"⟩), .writeLifetime 1, .writeHeader 1, .record 1,
        .bump 1] = some fetched ∧
      fetched.step (.release 1) = some installed ∧ installed.header.header = "Bearer u" ∧
      installed.lifetime.lifetime.expiresIn = 300 := by
  let start := TokenManager.new .verbatim 0 ⟨"t", 600, "Bearer"⟩ "Bearer t"
  obtain ⟨m, started, dropped, next, answered, refused, fetched, installed, hm, hacquire, hfetching, hcancel, hdropped, hnext,
      hnextFetching, hanswered, hrelease, hfetched, hinstalled, hparser⟩ :
      ∃ m started dropped next answered refused fetched installed : TokenManager,
        Transition.exec step start [.begin 0, .begin 1] = some m ∧ m.step (.acquire 0) = some started ∧
        started.phase 0 = .fetching ∧ started.step (.cancel 0) = some dropped ∧
        Transition.exec step start [.begin 0, .begin 1, .acquire 0, .cancel 0] = some dropped ∧
        dropped.step (.acquire 1) = some next ∧ next.phase 1 = .fetching ∧
        Transition.exec step next [.fetchEnds 1 (.error ⟨"refused", none⟩), .record 1, .bump 1] = some answered ∧
        answered.step (.release 1) = some refused ∧
        Transition.exec step next [.fetchEnds 1 (.ok ⟨"u", 300, "Bearer"⟩), .writeLifetime 1, .writeHeader 1, .record 1,
          .bump 1] = some fetched ∧
        fetched.step (.release 1) = some installed ∧ dropped.parser = .verbatim :=
    ⟨_, _, _, _, _, _, _, _, rfl, rfl, rfl, rfl, rfl, rfl, rfl, rfl, rfl, rfl, rfl, rfl⟩
  have hreachable : ∀ {events : List Event} {m : TokenManager}, Transition.exec step start events = some m → m.Reachable :=
    fun h => ⟨.verbatim, 0, ⟨"t", 600, "Bearer"⟩, "Bearer t", rfl, Transition.reaches_of_exec h⟩
  have hsame := (((attempt_atomic m (hreachable hm) 0).2 started [] started hacquire hfetching rfl).1 dropped hcancel).1
  have hends := (attempt_atomic dropped (hreachable hdropped) 1).2 next
  obtain ⟨outcome, hgave, hrefused⟩ := (hends _ answered hnext hnextFetching hanswered).2 refused hrelease
  cases hgave
  obtain ⟨outcome, hgave, hmade⟩ := (hends _ fetched hnext hnextFetching hfetched).2 installed hinstalled
  cases hgave
  rw [hparser] at hmade
  exact ⟨m, started, dropped, next, answered, refused, fetched, installed, hreachable hm, hacquire, hcancel, hsame, hnext,
    hnextFetching, hanswered, hrelease, hrefused.2.1.trans hsame.1, hfetched, hinstalled, hmade.2.2.2.1, hmade.2.2.2.2⟩

end TokenManager

end RociaSdk

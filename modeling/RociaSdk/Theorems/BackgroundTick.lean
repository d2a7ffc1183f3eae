import RociaSdk.Lemmas.TickAux

/-!
# When the background tick is in time

The background task arms its tick from the lifetime it reads after its own refresh, and nothing re-arms it when another call
installs a token. The armed tick is at least a second before the expiry of the last token in every run in which the others keep
its pace: no token they install while the task starts or waits for its regular tick lives shorter than the one before it, and
none while it backs off lives less than a second longer than the longest backoff. The task's own refreshes, and those it shares,
always arm a tick in time.
-/

namespace RociaSdk

/-- Whether a deadline is at least one second before a token expires. -/
def Token.LeavesASecond (token : Token) (deadline : Nat) : Prop :=
  deadline ≤ token.lifetime.fetchedAt + secs (token.lifetime.expiresIn.toNat - 1)

namespace Background

/-- Whether the last completed attempt installed this token, and it lives for two seconds or more. -/
def LastInstalled (b : Background) (token : Token) : Prop :=
  b.manager.log.getLast? = some (.ok token) ∧ 2 ≤ token.lifetime.expiresIn.toNat

/-- With the task in its `select` and no attempt in flight, the armed tick is at least a second before the expiry of the token
the last completed attempt installed. -/
def TickInTime (b : Background) : Prop :=
  ∀ armedAt delay failures token, b.task = .select armedAt delay failures →
    (∀ c, (b.manager.phase c).inFlight = false) → b.LastInstalled token → token.LeavesASecond (armedAt + delay)

/-! ## Keeping pace -/

/-- Whether the task starts, or waits for a tick that it has not armed on a failure. -/
def OnSchedule (b : Background) : Prop :=
  match b.task with
  | .starting _ => True
  | .select _ _ failures => failures = 0
  | _ => False

/-- Whether the task waits for a tick that it has armed on a failure, or is about to. -/
def BacksOff (b : Background) : Prop :=
  match b.task with
  | .select _ _ failures => failures ≠ 0
  | .refreshing call _ => ∃ fetched e, b.manager.phase call = .returned fetched (.error e)
  | _ => False

/-- Whether an event keeps the task's pace. The task has to start before the first refresh or at the very time of the last one. A
response that is installed while the task is on its schedule reports a lifetime no shorter than that of the token before it, and
one that is installed while it backs off, unless it lives for less than two seconds, one of 31 seconds or more. -/
def KeepsPace (b : Background) : Event → Prop
  | .start => ∀ token, b.LastInstalled token → token.lifetime.fetchedAt = b.manager.now
  | .manager (.writeLifetime c) => ∀ response header, b.manager.phase c = .installing response header →
      (b.OnSchedule → b.manager.lifetime.lifetime.expiresIn.toNat ≤ response.expiresIn.toNat) ∧
        (b.BacksOff → 2 ≤ response.expiresIn.toNat → 31 ≤ response.expiresIn.toNat)
  | _ => True

/-- Whether an event is not the beginning of another caller's refresh: the task begins its own when it wakes up. -/
def NoOtherRefresh (e : Event) : Prop := ∀ c, e ≠ .manager (.begin c)

namespace TickAux

open TokenManager.TickAux

/-! ## The delays -/

/-- The longest delay until a refresh of a token: a second less than its lifetime, or one second. -/
def longestDelay (expiresIn : Nat) : Nat := secs (max (expiresIn - 1) 1)

/-- A refresh interval is no longer. -/
theorem intervalFor_le (expiresIn : Nat) : intervalFor expiresIn ≤ longestDelay expiresIn := Nat.min_le_right ..

/-- Nor is the task's first period. -/
theorem refreshTickPeriod_le (expiresIn : Nat) : refreshTickPeriod (intervalFor expiresIn) ≤ longestDelay expiresIn :=
  Nat.max_le.2 ⟨intervalFor_le expiresIn, Nat.mul_le_mul_right _ (Nat.le_max_right ..)⟩

/-- A longer lifetime leaves more time. -/
theorem longestDelay_mono {a b : Nat} (h : a ≤ b) : longestDelay a ≤ longestDelay b :=
  Nat.mul_le_mul_right _ (by omega)

/-- A backoff is at most thirty seconds. -/
theorem jitteredRetryBackoff_le (failures : UInt32) (numerator : Nat) :
    jitteredRetryBackoff failures numerator ≤ refreshRetryMaxDelay := by
  have hjitter := fullJitter_le (retryBackoff failures - retryBackoff failures / 2) numerator
  have hceiling : retryBackoff failures ≤ refreshRetryMaxDelay := Nat.min_le_right ..
  simp only [jitteredRetryBackoff]
  omega

/-- A counter that has counted a failure is not zero. -/
theorem saturatingSucc_ne (failures : UInt32) : saturatingSucc failures ≠ 0 := by
  unfold saturatingSucc
  split
  · rename_i hlt
    intro heq
    have := congrArg UInt32.toNat heq
    rw [UInt32.toNat_add, UInt32.toNat_one, Nat.mod_eq_of_lt (by omega)] at this
    simp at this
  · rename_i hge
    rintro rfl
    exact hge (by decide)

/-- A tick that is armed no later than a token is fetched leaves a second of it, if the delay does. -/
theorem leavesASecond {token : Token} {armedAt delay : Nat} (harmed : armedAt ≤ token.lifetime.fetchedAt)
    (hdelay : delay ≤ secs (token.lifetime.expiresIn.toNat - 1)) : token.LeavesASecond (armedAt + delay) :=
  Nat.add_le_add harmed hdelay

/-- The longest delay leaves a second of a token of two seconds or more. -/
theorem longestDelay_eq {expiresIn : Nat} (h : 2 ≤ expiresIn) : longestDelay expiresIn = secs (expiresIn - 1) :=
  congrArg secs (Nat.max_eq_left (by omega))

/-- The longest backoff leaves a second of a token of 31 seconds or more. -/
theorem maxDelay_le {expiresIn : Nat} (h : 31 ≤ expiresIn) : refreshRetryMaxDelay ≤ secs (expiresIn - 1) :=
  Nat.mul_le_mul_right _ (by omega)

end TickAux

open TickAux TokenManager.TickAux

/-! ## What is kept -/

/-- What the armed tick is bounded by: on schedule by the lifetime that is there, on a failure by the longest backoff. -/
def Armed (b : Background) : Prop :=
  match b.task with
  | .starting period => period ≤ longestDelay b.manager.lifetime.lifetime.expiresIn.toNat
  | .select armedAt delay failures => armedAt ≤ b.manager.now ∧
      delay ≤ if failures = 0 then longestDelay b.manager.lifetime.lifetime.expiresIn.toNat else refreshRetryMaxDelay
  | _ => True

/-- A token that is there or about to be: it is being installed, or the last attempt to complete installed it. -/
def Latest (b : Background) (token : Token) : Prop :=
  b.manager.holder.token? = some token ∨ b.manager.log.getLast? = some (.ok token)

/-- What a prompt run in turn keeps, if the others keep pace: with the times of the manager, what is left in the log when the task
has its answer is of the present time, and the armed tick leaves a second of the last token unless another one is made. -/
structure Timely (first : Token) (b : Background) : Prop where
  punctual : b.manager.Punctual first
  armed : b.Armed
  backed : ∀ token, b.BacksOff → b.Latest token → 2 ≤ token.lifetime.expiresIn.toNat → 31 ≤ token.lifetime.expiresIn.toNat
  answered : ∀ c fetched answer token, b.task.call? = some c →
    (b.manager.phase c = .releasing fetched answer ∨ b.manager.phase c = .returned fetched answer) →
      b.manager.log.getLast? = some (.ok token) → token.lifetime.fetchedAt = b.manager.now
  inTime : ∀ armedAt delay failures token, b.task = .select armedAt delay failures → b.LastInstalled token →
    b.manager.holder.token? = none → token.LeavesASecond (armedAt + delay)

namespace Timely

variable {first : Token} {b b' : Background} {m' : TokenManager} {e : TokenManager.Event}

/-- At first there is no attempt to look at. -/
theorem start (parser : HeaderParser) (now : Nat) (token : TokenResponse) (header : String) :
    Timely (TokenManager.new parser now token header).header (Background.new parser now token header) where
  punctual := TokenManager.punctual_new parser now token header
  armed := trivial
  backed _ h := h.elim
  answered _ _ _ _ h := by cases h
  inTime _ _ _ _ h := by cases h

/-- A prompt event in turn is an orderly one of the manager. -/
theorem orderly (hprompt : b.Prompt (.manager e)) (hturn : b.InTurn (.manager e)) : b.manager.Orderly e where
  atAwait d he := (hprompt d (by rw [he])).atAwait
  locked d he := (hprompt d (by rw [he])).locked
  inTurn call he := hturn call (by rw [he])

/-! ## Steps of the manager -/

/-- The bound of the armed tick moves with the lifetime. -/
theorem armed_step (h : b.Timely first) (hstep : b.manager.Step e m') (hpace : b.KeepsPace (.manager e)) :
    Armed { b with manager := m' } := by
  have harmed := h.armed
  have hlonger : b.OnSchedule → longestDelay b.manager.lifetime.lifetime.expiresIn.toNat ≤
      longestDelay m'.lifetime.lifetime.expiresIn.toNat := by
    intro hon
    rcases lifetime_step hstep with heq | ⟨c, response, header, rfl, hp, heq⟩
    · exact Nat.le_of_eq (by rw [heq])
    · rw [heq]
      exact longestDelay_mono ((hpace response header hp).1 hon)
  unfold Armed at harmed ⊢
  unfold OnSchedule at hlonger
  cases htask : b.task with
  | starting period =>
    rw [htask] at harmed hlonger
    exact Nat.le_trans harmed (hlonger trivial)
  | select armedAt delay failures =>
    rw [htask] at harmed hlonger
    refine ⟨Nat.le_trans harmed.1 (now_le hstep), Nat.le_trans harmed.2 ?_⟩
    split
    · exact hlonger ‹_›
    · exact Nat.le_refl _
  | _ => trivial

/-- A token that is there after a step was there before, or is being written. -/
theorem latest_step (h : b.Timely first) (hstep : b.manager.Step e m') {token : Token}
    (hlatest : Latest { b with manager := m' } token) :
    b.Latest token ∨ ∃ c response header, e = .writeLifetime c ∧ b.manager.phase c = .installing response header ∧
      token.lifetime.expiresIn = response.expiresIn := by
  rcases hlatest with htoken | hlast
  · rcases token_step h.punctual.inv hstep with heq | ⟨c, response, header, token', rfl, hp, hsome, hissued⟩ | ⟨hnone, _⟩
    · exact Or.inl (Or.inl (heq.symm.trans htoken))
    · rw [show m'.holder.token? = _ from htoken, Option.some.injEq] at hsome
      exact Or.inr ⟨c, response, header, rfl, hp, by rw [hsome, hissued]; rfl⟩
    · exact absurd (hnone.symm.trans htoken) (by simp)
  · rcases hstep.log_cases with hlog | ⟨c, outcome, rfl, hp, hlog⟩
    · exact Or.inl (Or.inr (hlog ▸ hlast))
    · simp only [hlog, List.getLast?_concat, Option.some.injEq] at hlast
      exact Or.inl (Or.inl (token_bumping h.punctual.inv (hp.trans (congrArg Phase.bumping hlast))).1)

/-- A task that has just been told of a failure finds no token of an attempt since. -/
theorem latest_none (h : b.Timely first) (hstep : b.manager.Step e m') {c : Nat} {fetched : Bool} {error : AuthError}
    (hp : b.manager.phase c = .releasing fetched (.error error)) (hp' : m'.phase c = .returned fetched (.error error))
    {token : Token} : ¬Latest { b with manager := m' } token := by
  have hcall : e.call? = some c := by
    by_contra hne
    have := (hstep.frame hne).1
    rw [hp, hp'] at this
    cases this
  obtain ⟨outcome, _, hlast, hanswer⟩ := h.punctual.answered.releasing c fetched _ hp
  cases hstep with
  | release c' fetched' answer' hp'' =>
    rintro (htoken | hlast')
    · simp [TokenManager.holder_of_free (m := b.manager.release c' fetched' answer') rfl, Phase.token?] at htoken
    · have hlast' : b.manager.log.getLast? = some (.ok token) := hlast'
      rw [hlast, Option.some.injEq] at hlast'
      rw [hlast'] at hanswer
      cases hanswer
  | requestRefresh => cases hcall
  | elapse d => cases hcall
  | _ =>
    cases hcall
    simp_all

/-- The tokens of those who keep pace outlive the backoff. -/
theorem backed_step (h : b.Timely first) (hstep : b.manager.Step e m') (hpace : b.KeepsPace (.manager e)) {token : Token}
    (hback : BacksOff { b with manager := m' }) (hlatest : Latest { b with manager := m' } token)
    (hlives : 2 ≤ token.lifetime.expiresIn.toNat) : 31 ≤ token.lifetime.expiresIn.toNat := by
  -- If the task backed off before, it is told of every token that is written.
  have hkept : b.BacksOff → 31 ≤ token.lifetime.expiresIn.toNat := by
    intro hbacks
    rcases h.latest_step hstep hlatest with hlatest | ⟨c, response, header, rfl, hp, heq⟩
    · exact h.backed token hbacks hlatest hlives
    · rw [heq] at hlives ⊢
      exact (hpace response header hp).2 hbacks hlives
  unfold BacksOff at hback hkept
  cases htask : b.task with
  | select armedAt delay failures =>
    simp only [htask] at hback hkept
    exact hkept hback
  | refreshing call failures =>
    simp only [htask] at hback hkept
    obtain ⟨fetched, error, hp⟩ := hback
    rcases answer_step hstep (Or.inr hp) with rfl | ⟨_, rfl, _⟩ | hreleasing | hreturned
    · cases hstep with
      | bump _ _ _ => simp [TokenManager.bump] at hp
    · cases hstep with
      | coalesce _ _ _ _ _ => simp at hp
      | fetch _ _ _ _ _ =>
        have hp : (b.manager.goTo call .fetching).phase call = _ := hp
        simp at hp
    · exact absurd hlatest (h.latest_none hstep hreleasing hp)
    · exact hkept ⟨fetched, error, hreturned⟩
  | _ =>
    simp only [htask] at hback

/-- From the answer to the task's refresh until it re-arms, the clock stands still. -/
theorem answered_step (h : b.Timely first) (hstep : b.manager.Step e m') (hprompt : b.Prompt (.manager e)) {c : Nat}
    {fetched : Bool} {answer : Except AuthError Unit} {token : Token} (hc : b.task.call? = some c)
    (hp : m'.phase c = .releasing fetched answer ∨ m'.phase c = .returned fetched answer)
    (hlast : m'.log.getLast? = some (.ok token)) : token.lifetime.fetchedAt = m'.now := by
  rcases now_step hstep with hnow | ⟨d, rfl, rfl⟩
  · rw [hnow]
    rcases hstep.log_cases with hlog | ⟨c', outcome, rfl, hp', hlog⟩
    · rw [hlog] at hlast
      rcases answer_step hstep hp with rfl | ⟨observed, rfl, hqueued, hfree, hgen⟩ | hp
      · cases hstep with
        | bump _ outcome _ => exact absurd (congrArg List.length hlog) (by simp [TokenManager.bump])
      · obtain ⟨_, hlt, _⟩ := h.punctual.inv.coalesced_eq hqueued hfree hgen
        exact h.punctual.waited c observed token hqueued hlt hlast
      · exact h.answered c fetched answer token hc hp hlast
    · rw [hlog, List.getLast?_concat, Option.some.injEq] at hlast
      exact h.punctual.completed (hp'.trans (congrArg Phase.bumping hlast))
  · have hquiet := hprompt d rfl
    rcases hp with hp | hp
    · have hawait := hquiet.atAwait c
      rw [show b.manager.phase c = _ from hp] at hawait
      cases hawait
    · exact absurd hp (hquiet.settled c fetched answer hc)

/-- The armed tick leaves a second of a token that another call installs. -/
theorem inTime_step (h : b.Timely first) (hstep : b.manager.Step e m') {armedAt delay : Nat} {failures : UInt32} {token : Token}
    (htask : b.task = .select armedAt delay failures) (hlast : m'.log.getLast? = some (.ok token))
    (hlives : 2 ≤ token.lifetime.expiresIn.toNat) (hnone : m'.holder.token? = none) :
    token.LeavesASecond (armedAt + delay) := by
  rcases hstep.log_cases with hlog | ⟨c, outcome, rfl, hp, hlog⟩
  · refine h.inTime armedAt delay failures token htask ⟨hlog ▸ hlast, hlives⟩ ?_
    rcases token_step h.punctual.inv hstep with heq | ⟨_, _, _, _, _, _, hsome, _⟩ | ⟨_, c, rfl⟩
    · exact heq.symm.trans hnone
    · exact absurd (hsome.symm.trans hnone) (by simp)
    · cases hstep with
      | bump _ outcome _ => exact absurd (congrArg List.length hlog) (by simp [TokenManager.bump])
  · rw [hlog, List.getLast?_concat, Option.some.injEq] at hlast
    have hp := hp.trans (congrArg Phase.bumping hlast)
    obtain ⟨htoken, hlifetime⟩ := token_bumping h.punctual.inv hp
    have harmed := h.armed
    have hbacked := h.backed token
    simp only [Armed, BacksOff, htask] at harmed hbacked
    refine leavesASecond (Nat.le_trans harmed.1 (Nat.le_of_eq (h.punctual.completed hp).symm)) (Nat.le_trans harmed.2 ?_)
    split
    · exact Nat.le_of_eq (by rw [hlifetime, longestDelay_eq hlives])
    · exact maxDelay_le (hbacked ‹_› (Or.inl htoken) hlives)

/-- A step of the manager keeps all of it. -/
theorem manager (h : b.Timely first) (hstep : b.manager.Step e m') (hprompt : b.Prompt (.manager e))
    (hturn : b.InTurn (.manager e)) (hpace : b.KeepsPace (.manager e)) : Timely first { b with manager := m' } where
  punctual := h.punctual.step hstep (orderly hprompt hturn)
  armed := h.armed_step hstep hpace
  backed _ hback hlatest hlives := h.backed_step hstep hpace hback hlatest hlives
  answered _ _ _ _ hc hp hlast := h.answered_step hstep hprompt hc hp hlast
  inTime _ _ _ _ htask hlast hnone := h.inTime_step hstep htask hlast.1 hlast.2 hnone

/-! ## Steps of the task -/

/-- A task that goes away, or that begins a call, has no tick armed. -/
theorem unarmed (h : b.manager.Punctual first) {task : Task} (htask : task = .stopped ∨ ∃ call failures,
    task = .refreshing call failures ∧ ∀ fetched answer, b.manager.phase call ≠ .releasing fetched answer ∧
      b.manager.phase call ≠ .returned fetched answer) : Timely first { b with task := task } := by
  rcases htask with rfl | ⟨call, failures, rfl, hcall⟩
  · exact ⟨h, trivial, fun _ hback => hback.elim, nofun, nofun⟩
  · refine ⟨h, trivial, ?_, ?_, nofun⟩
    · rintro _ ⟨fetched, error, hp⟩
      exact absurd hp (hcall fetched _).2
    · rintro c fetched answer _ hc (hp | hp)
      · cases hc
        exact absurd hp (hcall fetched answer).1
      · cases hc
        exact absurd hp (hcall fetched answer).2

/-- Waking up: there is no armed tick any more, and the new call has done nothing yet. -/
theorem wake (h : b.manager.Punctual first) {call : Nat} (failures : UInt32) (hp : b.manager.phase call = .idle) :
    Timely first { manager := b.manager.begin call, task := .refreshing call failures } := by
  have hstep : b.manager.Step (.begin call) (b.manager.begin call) := .begin call hp
  have hpunctual := h.step hstep ⟨nofun, nofun, nofun⟩
  refine unarmed (b := { b with manager := b.manager.begin call }) hpunctual (Or.inr ⟨call, failures, rfl, ?_⟩)
  intro fetched answer
  simp [TokenManager.begin]

/-- Re-arming: on a success the task arms the interval of the token that is there, fetched just now, and on a failure a backoff
that the others' tokens outlive. -/
theorem settle (h : b.Timely first) {call : Nat} {failures : UInt32} {numerator : Nat} {fetched : Bool}
    {answer : Except AuthError Unit} (htask : b.task = .refreshing call failures)
    (hp : b.manager.phase call = .returned fetched answer) : (b.settle answer failures numerator).Timely first := by
  have hfetched : ∀ token, b.manager.log.getLast? = some (.ok token) → b.manager.now = token.lifetime.fetchedAt :=
    fun token hlast => (h.answered call fetched answer token (by rw [htask]; rfl) (Or.inr hp) hlast).symm
  have hbacked := h.backed
  simp only [BacksOff, htask] at hbacked
  cases answer with
  | ok u =>
    refine ⟨h.punctual, ⟨Nat.le_refl _, intervalFor_le _⟩, fun _ hback => absurd rfl hback, nofun, ?_⟩
    rintro _ _ _ token ⟨⟩ ⟨hlast, hlives⟩ hnone
    have hlifetime : b.manager.lifetime = token := (lifetime_eq h.punctual.inv hnone).trans (lastToken_of_getLast hlast)
    refine leavesASecond (Nat.le_of_eq (hfetched token hlast)) ?_
    unfold TokenManager.refreshInterval
    rw [hlifetime, ← longestDelay_eq hlives]
    exact intervalFor_le _
  | error e =>
    have hne := saturatingSucc_ne failures
    refine ⟨h.punctual, ⟨Nat.le_refl _, ?_⟩, ?_, nofun, ?_⟩
    · rw [if_neg hne]
      exact jitteredRetryBackoff_le failures numerator
    · exact fun token _ hlatest hlives => hbacked token ⟨fetched, e, hp⟩ hlatest hlives
    · rintro _ _ _ token ⟨⟩ ⟨hlast, hlives⟩ _
      exact leavesASecond (Nat.le_of_eq (hfetched token hlast)) (Nat.le_trans (jitteredRetryBackoff_le failures numerator)
        (maxDelay_le (hbacked token ⟨fetched, e, hp⟩ (Or.inr hlast) hlives)))

/-- Every prompt step in turn that keeps pace keeps all of it. -/
theorem step {e : Event} (h : b.Timely first) (hprompt : b.Prompt e) (hturn : b.InTurn e) (hpace : b.KeepsPace e)
    (hs : b.step e = some b') : b'.Timely first := by
  have hs : b.taskStep (.background e) = some b' := hs
  cases Background.step_cases hs with
  | manager e m hm => exact h.manager hm hprompt hturn hpace
  | spawn _ interval he htask =>
    have hperiod : refreshTickPeriod interval = refreshTickPeriod b.manager.refreshInterval := by
      rcases he with he | he
      · cases he
      · cases he
        simp only [taskStep, Background.step, htask, Option.some.injEq, Background.mk.injEq, Task.starting.injEq, true_and] at hs
        exact hs.symm
    rw [hperiod]
    exact ⟨h.punctual, refreshTickPeriod_le _, fun _ hback => hback.elim, by rintro _ _ _ _ ⟨⟩, by rintro _ _ _ _ ⟨⟩⟩
  | start period htask =>
    have harmed := h.armed
    simp only [Armed, htask] at harmed
    refine ⟨h.punctual, ⟨Nat.le_refl _, harmed⟩, fun _ hback => absurd rfl hback, by rintro _ _ _ _ ⟨⟩, ?_⟩
    rintro _ _ _ token ⟨⟩ hlast hnone
    have hlifetime : b.manager.lifetime = token := (lifetime_eq h.punctual.inv hnone).trans (lastToken_of_getLast hlast.1)
    refine leavesASecond (Nat.le_of_eq (hpace token hlast).symm) ?_
    rw [← longestDelay_eq hlast.2, ← hlifetime]
    exact harmed
  | tick call armedAt delay failures htask hdue hp => exact wake h.punctual failures hp
  | notified call armedAt delay failures htask hnotify hp =>
    have hk := h.punctual
    have hi := hk.inv
    have htaken : ({ b.manager with refreshNotify := false } : TokenManager).Punctual first :=
      ⟨⟨hi.holds, hi.generation, hi.observed, hi.begun_le, hi.failure, hi.cells, hi.numbered, hi.fresh⟩,
        ⟨hk.answered.releasing, hk.answered.returned⟩, hk.made, hk.queue, hk.waited⟩
    exact wake (b := { b with manager := { b.manager with refreshNotify := false } }) htaken failures hp
  | settle numerator call failures fetched answer htask hp => exact h.settle htask hp
  | stopWaiting armedAt delay failures htask => exact unarmed h.punctual (Or.inl rfl)
  | stopRefreshing call failures m htask hm =>
    exact unarmed (b := { b with manager := m }) (h.punctual.step hm ⟨by simp, by simp, by simp⟩) (Or.inl rfl)

/-- With the task in its `select` and no attempt in flight, the armed tick is in time. -/
theorem tickInTime (h : b.Timely first) : b.TickInTime := fun armedAt delay failures token htask hquiet hlast =>
  h.inTime armedAt delay failures token htask hlast (token_none_of_quiet hquiet)

end Timely

/-- Every state of a prompt run in turn in which the others keep pace. -/
theorem timely_of_run {parser : HeaderParser} {now : Nat} {token : TokenResponse} {header : String} {b : Background}
    (h : Transition.Run step (fun b e => b.Prompt e ∧ b.InTurn e ∧ b.KeepsPace e) (new parser now token header) b) :
    b.Timely (TokenManager.new parser now token header).header :=
  h.invariant _ (Timely.start parser now token header) fun _ _ _ ht hg hs => ht.step hg.1 hg.2.1 hg.2.2 hs

/-! ## The task's own refreshes -/

/-- Whether no call but the task's own is under way, and none has completed an attempt before the task waits. -/
structure Alone (b : Background) : Prop where
  own : ∀ c, (b.manager.phase c).underWay = true → b.task.call? = some c
  unseen : (b.task = .unspawned ∨ ∃ period, b.task = .starting period) → b.manager.log = []

namespace Alone

variable {b b' : Background}

/-- At first there is no call. -/
theorem start (parser : HeaderParser) (now : Nat) (token : TokenResponse) (header : String) :
    (Background.new parser now token header).Alone where
  own _ h := by cases h
  unseen _ := rfl

/-- With the task waiting or starting, no call is under way. -/
theorem none_underWay (h : b.Alone) (hcall : b.task.call? = none) (c : Nat) : (b.manager.phase c).underWay = false := by
  refine Bool.eq_false_iff.2 fun hway => ?_
  have := h.own c hway
  rw [hcall] at this
  cases this

/-- With no call under way, the task is alone once it waits or has gone away. -/
theorem of_none (hnone : ∀ c, (b.manager.phase c).underWay = false)
    (hunseen : (b.task = .unspawned ∨ ∃ period, b.task = .starting period) → b.manager.log = []) : b.Alone where
  own c hway := by
    rw [hnone c] at hway
    cases hway
  unseen := hunseen

/-- The task begins a call, and it is the only one. -/
theorem wake (h : b.Alone) {call : Nat} (failures : UInt32) (hcall : b.task.call? = none) :
    Alone { manager := b.manager.begin call, task := .refreshing call failures } where
  own c hway := by
    by_cases hc : c = call
    · exact congrArg some hc.symm
    · have hphase : (b.manager.begin call).phase c = b.manager.phase c := TokenManager.goTo_other b.manager _ hc
      simp only [hphase, h.none_underWay hcall c] at hway
      cases hway
  unseen h := by simp at h

/-- Every step keeps the task alone, unless another call begins. -/
theorem step {e : Event} (h : b.Alone) (hother : NoOtherRefresh e) (hs : b.step e = some b') : b'.Alone := by
  have hs : b.taskStep (.background e) = some b' := hs
  cases Background.step_cases hs with
  | manager e m hm =>
    have hback : ∀ c, (m.phase c).underWay = true → b.task.call? = some c := fun c hway =>
      h.own c (underWay_step hm (fun hbegin => hother c (congrArg Event.manager hbegin)) hway)
    refine ⟨hback, fun htask => ?_⟩
    rcases hm.log_cases with hlog | ⟨c, outcome, _, hp, _⟩
    · rw [hlog]
      exact h.unseen htask
    · have hown := h.own c (by rw [hp]; rfl)
      rcases htask with htask | ⟨period, htask⟩
      · rw [htask] at hown
        cases hown
      · rw [htask] at hown
        cases hown
  | spawn e interval he htask =>
    exact of_none (b := { b with task := _ }) (h.none_underWay (by rw [htask]; rfl)) fun _ => h.unseen (Or.inl htask)
  | start period htask => exact of_none (b := { b with task := _ }) (h.none_underWay (by rw [htask]; rfl)) (by simp)
  | tick call armedAt delay failures htask hdue hp => exact h.wake failures (by rw [htask]; rfl)
  | notified call armedAt delay failures htask hnotify hp =>
    have htaken : Alone { b with manager := { b.manager with refreshNotify := false } } := ⟨h.own, h.unseen⟩
    exact htaken.wake failures (by rw [htask]; rfl)
  | settle numerator call failures fetched answer htask hp =>
    have hnone : ∀ c, (b.manager.phase c).underWay = false := by
      intro c
      refine Bool.eq_false_iff.2 fun hway => ?_
      have hown := h.own c hway
      rw [htask] at hown
      cases hown
      rw [hp] at hway
      cases hway
    cases answer with
    | ok u => exact of_none (b := b.settle (.ok u) failures numerator) hnone (by simp [Background.settle])
    | error e => exact of_none (b := b.settle (.error e) failures numerator) hnone (by simp [Background.settle])
  | stopWaiting armedAt delay failures htask =>
    exact of_none (b := { b with task := _ }) (h.none_underWay (by rw [htask]; rfl)) (by simp)
  | stopRefreshing call failures m htask hm =>
    refine ⟨fun c hway => ?_, by simp⟩
    have hown := h.own c (underWay_step hm nofun hway)
    rw [htask] at hown
    cases hown
    cases hm with
    | leave _ _ _ => simp [Phase.underWay] at hway
    | abandon _ _ =>
      have hway : ((b.manager.goTo call .cancelled).phase call).underWay = true := hway
      simp [Phase.underWay] at hway

/-- A task that is alone has its turn. -/
theorem inTurn {e : Event} (h : b.Alone) (hs : b.step e = some b') : b.InTurn e := by
  rintro call rfl c observed hq
  have hs : b.taskStep (.background (.manager (.acquire call))) = some b' := hs
  have hown := h.own c (by rw [hq]; rfl)
  have hcall : (b.manager.phase call).underWay = true := by
    cases Background.step_cases hs with
    | manager _ _ hm =>
      cases hm with
      | coalesce _ _ hp _ _ => rw [hp]; rfl
      | fetch _ _ hp _ _ => rw [hp]; rfl
    | spawn _ _ he _ => rcases he with he | he <;> cases he
  rw [h.own call hcall, Option.some.injEq] at hown
  exact Nat.le_of_eq (by rw [hown])

/-- A task that is alone keeps its own pace. -/
theorem keepsPace {e : Event} (h : b.Alone) (hs : b.step e = some b') : b.KeepsPace e := by
  have hs : b.taskStep (.background e) = some b' := hs
  cases Background.step_cases hs with
  | manager e m hm =>
    cases hm with
    | writeLifetime c response header hp =>
      intro _ _ _
      have hown := h.own c (by rw [hp]; rfl)
      unfold OnSchedule BacksOff
      cases htask : b.task with
      | refreshing call failures =>
        rw [htask] at hown
        cases hown
        refine ⟨fun hon => hon.elim, ?_⟩
        rintro ⟨fetched, error, hp'⟩
        rw [hp] at hp'
        cases hp'
      | _ =>
        rw [htask] at hown
        cases hown
    | _ => trivial
  | start period htask =>
    rintro token ⟨hlast, _⟩
    rw [h.unseen (Or.inr ⟨period, htask⟩)] at hlast
    cases hlast
  | spawn _ _ he _ =>
    rcases he with he | he
    · cases he
    · cases he
      trivial
  | _ => trivial

end Alone

/-! ## The tick -/

/-- In every prompt run in which the lock is given in turn and the other calls keep the task's pace, the armed tick is always at
least a second before the expiry of the last installed token. In particular it is in every prompt run in which the only
refreshes are the task's own, however they end and whatever lifetimes they report. -/
theorem tick_in_time (parser : HeaderParser) (now : Nat) (token : TokenResponse) (header : String) (b : Background) :
    (Transition.Run step (fun b e => b.Prompt e ∧ b.InTurn e ∧ b.KeepsPace e) (new parser now token header) b → b.TickInTime) ∧
      (Transition.Run step (fun b e => b.Prompt e ∧ NoOtherRefresh e) (new parser now token header) b → b.TickInTime) := by
  refine ⟨fun h => (timely_of_run h).tickInTime, fun h => ?_⟩
  have hrun : Transition.Run step (fun b e => b.Prompt e ∧ b.InTurn e ∧ b.KeepsPace e) (new parser now token header) b :=
    h.strengthen Alone (Alone.start parser now token header) (fun _ _ _ ha hg hs => ha.step hg.2 hs)
      fun _ _ _ ha hg hs => ⟨hg.1, ha.inTurn hs, ha.keepsPace hs⟩
  exact (timely_of_run hrun).tickInTime

/-- Only the clock has to wait. -/
theorem prompt_of_ne {b : Background} {e : Event} (h : ∀ d, e ≠ .manager (.elapse d)) : b.Prompt e := by
  intro d he
  exact absurd he (h d)

/-- Only the lock has to be given in turn. -/
theorem inTurn_of_ne {b : Background} {e : Event} (h : ∀ c, e ≠ .manager (.acquire c)) : b.InTurn e := by
  intro c he
  exact absurd he (h c)

/-- From the lifetime a call has written to its answer. -/
def completes : List Event := [.manager (.writeHeader 0), .manager (.record 0), .manager (.bump 0), .manager (.release 0)]

/-- A call that queues alone has its turn. -/
theorem inTurn_alone {b : Background} (h : ∀ c, c ≠ 0 → b.manager.phase c = .idle) : b.InTurn (.manager (.acquire 0)) := by
  rintro call ⟨⟩ c observed hq
  by_cases hc : c = 0
  · exact Nat.le_of_eq (by rw [hc])
  · rw [h c hc] at hq
    cases hq

/-- Another call installs a token that lives as long as the first one, and the tick armed for four hundred seconds is in time.
Without other calls, the task's own refresh brings a token of ten seconds, and the tick it arms is in time as well. -/
theorem tick_in_time_same_lifetime :
    (∃ b : Background, b.LastInstalled ⟨1, "Bearer u", ⟨0, 600⟩⟩ ∧ b.task = .select 0 (secs 400) 0 ∧ b.TickInTime) ∧
      ∃ b : Background, b.LastInstalled ⟨1, "Bearer u", ⟨secs 400, 10⟩⟩ ∧ b.task = .select (secs 400) (secs 6) 0 ∧
        b.TickInTime := by
  let start : Background := new .verbatim 0 ⟨"t", 600, "Bearer"⟩ "Bearer t"
  have htick := tick_in_time .verbatim 0 ⟨"t", 600, "Bearer"⟩ "Bearer t"
  have hperiod : refreshTickPeriod (intervalFor 600) = secs 400 := by decide
  refine ⟨?_, ?_⟩
  · obtain ⟨spawned, waiting, queued, locked, fetched, written, b, hspawn, hstart, hbegin, hacquire, hfetch, hwrite, hcomplete,
        hnolog, hidle, hlifetime, hphase, hlast, htask⟩ : ∃ spawned waiting queued locked fetched written b,
          start.step .spawn = some spawned ∧ spawned.step .start = some waiting ∧
          waiting.step (.manager (.begin 0)) = some queued ∧
          queued.step (.manager (.acquire 0)) = some locked ∧
          locked.step (.manager (.fetchEnds 0 (.ok ⟨"u", 600, "Bearer"⟩))) = some fetched ∧
          fetched.step (.manager (.writeLifetime 0)) = some written ∧ Transition.exec step written completes = some b ∧
          spawned.manager.log = [] ∧ (∀ c, c ≠ 0 → queued.manager.phase c = .idle) ∧
          fetched.manager.lifetime.lifetime.expiresIn = 600 ∧
          fetched.manager.phase 0 = .installing ⟨"u", 600, "Bearer"⟩ "Bearer u" ∧
          b.LastInstalled ⟨1, "Bearer u", ⟨0, 600⟩⟩ ∧ b.task = .select 0 (refreshTickPeriod (intervalFor 600)) 0 :=
      ⟨_, _, _, _, _, _, _, rfl, rfl, rfl, rfl, rfl, rfl, rfl, rfl, fun c hc => Function.update_of_ne hc .., rfl, rfl,
        ⟨rfl, by decide⟩, rfl⟩
    rw [hperiod] at htask
    let Guard : Background → Event → Prop := fun b e => b.Prompt e ∧ b.InTurn e ∧ b.KeepsPace e
    have hspawned : Transition.Run step Guard start spawned :=
      Transition.Run.refl.tail .spawn ⟨prompt_of_ne (by simp), inTurn_of_ne (by simp), trivial⟩ hspawn
    have hwaiting : Transition.Run step Guard start waiting := by
      refine hspawned.tail .start ⟨prompt_of_ne (by simp), inTurn_of_ne (by simp), ?_⟩ hstart
      rintro token ⟨hold, _⟩
      rw [hnolog] at hold
      cases hold
    have hqueued : Transition.Run step Guard start queued :=
      hwaiting.tail (.manager (.begin 0)) ⟨prompt_of_ne (by simp), inTurn_of_ne (by simp), trivial⟩ hbegin
    have hlocked : Transition.Run step Guard start locked :=
      hqueued.tail (.manager (.acquire 0)) ⟨prompt_of_ne (by simp), inTurn_alone hidle, trivial⟩ hacquire
    have hfetched : Transition.Run step Guard start fetched :=
      hlocked.tail (.manager (.fetchEnds 0 (.ok ⟨"u", 600, "Bearer"⟩))) ⟨prompt_of_ne (by simp), inTurn_of_ne (by simp), trivial⟩
        hfetch
    have hwritten : Transition.Run step Guard start written := by
      refine hfetched.tail (.manager (.writeLifetime 0)) ⟨prompt_of_ne (by simp), inTurn_of_ne (by simp), ?_⟩ hwrite
      intro response header hp
      rw [hphase] at hp
      cases hp
      exact ⟨fun _ => Nat.le_of_eq (by rw [hlifetime]), fun _ _ => (by decide : 31 ≤ 600)⟩
    have hcompleted : Transition.Run step Guard written b := Transition.run_of_exec hcomplete fun e he u => by
      simp only [completes, List.mem_cons, List.not_mem_nil, or_false] at he
      rcases he with rfl | rfl | rfl | rfl <;> exact ⟨prompt_of_ne (by simp), inTurn_of_ne (by simp), trivial⟩
    exact ⟨b, hlast, htask, (htick b).1 (hwritten.trans hcompleted)⟩
  · let waiting : Background := { start with task := .select 0 (secs 400) 0 }
    let due : Background := { waiting with manager := { start.manager with now := secs 400 } }
    let woken : Background := { manager := due.manager.begin 0, task := .refreshing 0 0 }
    have hwait : Transition.exec step start [.spawn, .start] = some waiting := by
      have hexec : Transition.exec step start [.spawn, .start] =
        some { start with task := .select 0 (refreshTickPeriod (intervalFor 600)) 0 } := rfl
      rw [hexec, hperiod]
    have helapse : waiting.step (.manager (.elapse (secs 400))) = some due := by
      simp [step, TokenManager.step, waiting, due, start, new, TokenManager.new]
    have hwake : due.step (.tick 0) = some woken := by
      simp [step, wake, TokenManager.step, waiting, due, woken, start, new, TokenManager.new]
    obtain ⟨b, hrefresh, hlast, htask⟩ : ∃ b,
        Transition.exec step woken (.manager (.acquire 0) :: .manager (.fetchEnds 0 (.ok ⟨"u", 10, "Bearer"⟩)) ::
          .manager (.writeLifetime 0) :: (completes ++ [.settle 0])) = some b ∧
        b.LastInstalled ⟨1, "Bearer u", ⟨secs 400, 10⟩⟩ ∧ b.task = .select (secs 400) (intervalFor 10) 0 :=
      ⟨_, rfl, ⟨rfl, by decide⟩, rfl⟩
    have hinterval : intervalFor 10 = secs 6 := by decide
    rw [hinterval] at htask
    have hquiet : waiting.Quiet := ⟨fun _ => rfl, by rintro _ _ ⟨⟩, by rintro _ _ _ ⟨⟩⟩
    have hpause : Transition.Run step (fun b e => b.Prompt e ∧ NoOtherRefresh e) start due :=
      (Transition.run_of_exec hwait (by simp [prompt_of_ne, NoOtherRefresh])).tail _
        ⟨fun _ _ => hquiet, by simp [NoOtherRefresh]⟩ helapse
    have hwoken := hpause.tail (.tick 0) ⟨prompt_of_ne (by simp), by simp [NoOtherRefresh]⟩ hwake
    exact ⟨b, hlast, htask, (htick b).2 (hwoken.trans
      (Transition.run_of_exec hrefresh (by simp [completes, prompt_of_ne, NoOtherRefresh])))⟩

/-- A run without a pause, in which another call's refresh installs a token of ten seconds while the tick is armed for four
hundred. -/
theorem late_tick :
    ∃ b, Transition.Run step (fun b e => b.Prompt e ∧ b.InTurn e) (new .verbatim 0 ⟨"t", 600, "Bearer"⟩ "Bearer t") b ∧
      ¬ b.TickInTime := by
  let start : Background := new .verbatim 0 ⟨"t", 600, "Bearer"⟩ "Bearer t"
  obtain ⟨queued, locked, b, hqueued, hacquire, hrest, hidle, hphase, htask, hlast⟩ : ∃ queued locked b,
      Transition.exec step start [.spawn, .start, .manager (.begin 0)] = some queued ∧
      queued.step (.manager (.acquire 0)) = some locked ∧
      Transition.exec step locked
        (.manager (.fetchEnds 0 (.ok ⟨"u", 10, "Bearer"⟩)) :: .manager (.writeLifetime 0) :: completes) = some b ∧
      (∀ c, c ≠ 0 → queued.manager.phase c = .idle) ∧ (∀ c, (b.manager.phase c).inFlight = false) ∧
      b.task = .select 0 (refreshTickPeriod (intervalFor 600)) 0 ∧ b.LastInstalled ⟨1, "Bearer u", ⟨0, 10⟩⟩ :=
    ⟨_, _, _, rfl, rfl, rfl, fun c hc => Function.update_of_ne hc .., fun c => by cases c <;> rfl, rfl, rfl, by decide⟩
  have hrun : Transition.Run step (fun b e => b.Prompt e ∧ b.InTurn e) start queued :=
    Transition.run_of_exec hqueued (by simp [prompt_of_ne, inTurn_of_ne])
  refine ⟨b, (hrun.tail _ ⟨prompt_of_ne (by simp), inTurn_alone hidle⟩ hacquire).trans
    (Transition.run_of_exec hrest (by simp [completes, prompt_of_ne, inTurn_of_ne])), fun h => ?_⟩
  have hlate : (400 : Nat) * 10 ^ 9 ≤ 9 * 10 ^ 9 := h 0 _ 0 _ htask hphase hlast
  omega

end Background

end RociaSdk

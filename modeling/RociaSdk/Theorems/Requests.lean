import RociaSdk.Lemmas.TaskAux

/-!
# No refresh request is lost

The notification of `request_refresh` is there once at most: as a permit, or in the hands of the task that waits for it, which
gives it back when its timer wins. Requests made before it is taken are one request. It is taken when the task begins a refresh,
and by the time the task waits again an attempt has completed, its own or one it shares.
-/

namespace RociaSdk

namespace Background

variable {b b' : Background} {e : TaskEvent} {mark : Nat} {first : Token}

/-- A request that was made when so many attempts had completed is not lost: its notification has not been taken, or the task
refreshes since, or it has been stopped, or an attempt has completed since. -/
def Pending (mark : Nat) (b : Background) : Prop :=
  b.manager.refreshNotify = true ∨ (∃ call failures, b.task = .refreshing call failures ∧ mark ≤ b.manager.begun call) ∨
    b.task = .stopped ∨ mark < b.manager.log.length

namespace RequestAux

/-- No step of a call takes the notification. -/
theorem notify_kept {m m' : TokenManager} {e : TokenManager.Event} (h : m.Step e m') (hnotify : m.refreshNotify = true) :
    m'.refreshNotify = true := by
  cases h with
  | requestRefresh => rfl
  | _ => exact hnotify

/-- A call has begun when it had, or it begins now. -/
theorem begun_step {m m' : TokenManager} {e : TokenManager.Event} (h : m.Step e m') (call : Nat) :
    m'.begun call = m.begun call ∨ m'.begun call = m.log.length := by
  cases h with
  | begin c hp =>
    by_cases hc : call = c
    · exact .inr (by simp [TokenManager.begin, hc])
    · exact .inl (by simp [TokenManager.begin, hc])
  | _ => exact .inl rfl

/-- A step of the manager loses no request. -/
theorem pending_manager {m : TokenManager} {e : TokenManager.Event} (hm : b.manager.Step e m)
    (hle : mark ≤ b.manager.log.length) (h : Pending mark b) : Pending mark { b with manager := m } := by
  rcases h with hnotify | ⟨call, failures, htask, hbegun⟩ | hstopped | hlog
  · exact .inl (notify_kept hm hnotify)
  · refine .inr (.inl ⟨call, failures, htask, ?_⟩)
    rcases begun_step hm call with heq | heq
    · rw [heq]
      exact hbegun
    · rw [heq]
      exact hle
  · exact .inr (.inr (.inl hstopped))
  · exact .inr (.inr (.inr (Nat.lt_of_lt_of_le hlog hm.log_isPrefix.length_le)))

/-- To wake up loses no request, whether the notification is taken or not. -/
theorem pending_wake (m : TokenManager) (call : Nat) (failures : UInt32) (hle : mark ≤ m.log.length) :
    Pending mark { manager := m.begin call, task := .refreshing call failures } := by
  refine .inr (.inl ⟨call, failures, rfl, ?_⟩)
  show mark ≤ (m.begin call).begun call
  simp [TokenManager.begin, hle]

/-- A task that neither waits for a refresh nor has stopped leaves the request to the notification. -/
theorem pending_unwaited (hrefreshing : ∀ call failures, b.task ≠ .refreshing call failures) (hlive : b.task ≠ .stopped)
    (hsame : b'.manager = b.manager) (h : Pending mark b) : Pending mark b' := by
  rcases h with hnotify | ⟨call, failures, htask, _⟩ | hstopped | hlog
  · exact .inl (by rw [hsame]; exact hnotify)
  · exact absurd htask (hrefreshing call failures)
  · exact absurd hstopped hlive
  · exact .inr (.inr (.inr (by rw [hsame]; exact hlog)))

/-- A call that has returned shares an attempt that completed after it began. -/
theorem begun_lt_of_returned (h : b.Sound first) {call : Nat} {fetched : Bool} {answer : Except AuthError Unit}
    (hp : b.manager.phase call = .returned fetched answer) : b.manager.begun call < b.manager.log.length := by
  obtain ⟨k, outcome, hle, hk, _⟩ := h.answered.returned call fetched answer hp
  exact Nat.lt_of_le_of_lt hle (List.getElem?_eq_some_iff.1 hk).1

/-- Every step keeps the log of attempts, or completes one. -/
theorem log_cases (hs : b.Step e b') :
    b'.manager.log = b.manager.log ∨
      ∃ call outcome, e = .background (.manager (.bump call)) ∧ b'.manager.log = b.manager.log ++ [outcome] := by
  cases hs with
  | manager e m hm =>
    rcases hm.log_cases with heq | ⟨call, outcome, rfl, _, heq⟩
    · exact .inl heq
    · exact .inr ⟨call, outcome, rfl, heq⟩
  | settle numerator call failures fetched answer htask hp =>
    cases answer with
    | ok u => exact .inl rfl
    | error e => exact .inl rfl
  | stopRefreshing call failures m htask hm =>
    rcases hm.log_cases with heq | ⟨_, _, hbump, _, _⟩
    · exact .inl heq
    · cases hbump
  | _ => exact .inl rfl

/-- No attempt is taken back. -/
theorem log_length_le (hs : b.Step e b') : b.manager.log.length ≤ b'.manager.log.length := by
  rcases log_cases hs with heq | ⟨_, _, _, heq⟩
  · exact Nat.le_of_eq (by rw [heq])
  · rw [heq, List.length_append]
    exact Nat.le_add_right _ _

/-- Every step loses no request. -/
theorem pending_step (hs : b.Step e b') (hsound : b.Sound first) (hle : mark ≤ b.manager.log.length) (h : Pending mark b) :
    Pending mark b' := by
  cases hs with
  | manager e m hm => exact pending_manager hm hle h
  | spawn e interval he htask => exact pending_unwaited (b := b) (by simp [htask]) (by simp [htask]) rfl h
  | start period htask => exact pending_unwaited (b := b) (by simp [htask]) (by simp [htask]) rfl h
  | tick call armedAt delay failures htask hdue hp => exact pending_wake b.manager call failures hle
  | notified call armedAt delay failures htask hnotify hp =>
    exact pending_wake { b.manager with refreshNotify := false } call failures hle
  | settle numerator call failures fetched answer htask hp =>
    -- The refresh the task waited for has shared an attempt that completed after the request.
    have hsame : (b.settle answer failures numerator).manager = b.manager := by cases answer <;> rfl
    rcases h with hnotify | ⟨call', failures', htask', hbegun⟩ | hstopped | hlog
    · exact .inl (by rw [hsame]; exact hnotify)
    · rw [htask] at htask'
      cases htask'
      have hlt := Nat.lt_of_le_of_lt hbegun (begun_lt_of_returned hsound hp)
      exact .inr (.inr (.inr (by rw [hsame]; exact hlt)))
    · rw [htask] at hstopped
      cases hstopped
    · exact .inr (.inr (.inr (by rw [hsame]; exact hlog)))
  | stopWaiting armedAt delay failures htask => exact .inr (.inr (.inl rfl))
  | stopRefreshing call failures m htask hm => exact .inr (.inr (.inl rfl))

/-- A run loses no request. -/
theorem pending_run (hrun : Transition.Reaches taskStep b b') (hsound : b.Sound first)
    (hle : mark ≤ b.manager.log.length) (h : Pending mark b) : Pending mark b' := by
  have hkept := hrun.invariant (fun t => t.Sound first ∧ mark ≤ t.manager.log.length ∧ Pending mark t) ⟨hsound, hle, h⟩
    fun t e u ht _ hs =>
      ⟨(step_cases hs).sound ht.1, Nat.le_trans ht.2.1 (log_length_le (step_cases hs)), pending_step (step_cases hs) ht.1 ht.2.1 ht.2.2⟩
  exact hkept.2.2

/-- With more attempts completed at the end of a run than at its beginning, one has completed in it. -/
theorem bump_mem {es : List TaskEvent} (h : Transition.exec taskStep b es = some b')
    (hlog : b.manager.log.length < b'.manager.log.length) : ∃ call, .background (.manager (.bump call)) ∈ es := by
  induction es generalizing b with
  | nil =>
    cases h
    exact absurd hlog (Nat.lt_irrefl _)
  | cons e es ih =>
    unfold Transition.exec at h
    obtain ⟨t, hs, h⟩ := Option.bind_eq_some_iff.1 h
    rcases log_cases (step_cases hs) with heq | ⟨call, _, rfl, _⟩
    · rw [← heq] at hlog
      obtain ⟨call, hcall⟩ := ih h hlog
      exact ⟨call, List.mem_cons_of_mem _ hcall⟩
    · exact ⟨call, List.mem_cons_self ..⟩

end RequestAux

open RequestAux

/-- Whenever the task waits in its `select` and there is no notification, an attempt has completed after every request made so
far, wherever the task was when it was made and whatever has happened since. -/
theorem no_request_lost (parser : HeaderParser) (now : Nat) (token : TokenResponse) (header : String)
    (before requested after : Background) (es : List TaskEvent) (armedAt delay : Nat) (failures : UInt32)
    (hreach : Transition.Reaches taskStep (new parser now token header) before)
    (hrequest : before.taskStep (.background (.manager .requestRefresh)) = some requested)
    (hrun : Transition.exec taskStep requested es = some after) (hselect : after.task = .select armedAt delay failures)
    (hnotify : after.manager.refreshNotify = false) :
    (∃ call, .background (.manager (.bump call)) ∈ es) ∧ before.manager.log.length < after.manager.log.length := by
  have hsound : requested.Sound (TokenManager.new parser now token header).header :=
    (step_cases hrequest).sound ((sound_new parser now token header).run hreach)
  have hmade : requested.manager.refreshNotify = true ∧ requested.manager.log = before.manager.log := by
    cases step_cases hrequest with
    | manager e m hm =>
      cases hm with
      | requestRefresh => exact ⟨rfl, rfl⟩
    | spawn e interval he htask => rcases he with he | he <;> cases he
  have hlt : before.manager.log.length < after.manager.log.length := by
    rcases pending_run (Transition.reaches_of_exec hrun) hsound (Nat.le_of_eq (by rw [hmade.2])) (.inl hmade.1) with
      htrue | ⟨call, failures', htask, _⟩ | hstopped | hlog
    · rw [hnotify] at htrue
      cases htrue
    · rw [hselect] at htask
      cases htask
    · rw [hselect] at hstopped
      cases hstopped
    · exact hlog
  exact ⟨bump_mem hrun (by rw [hmade.2]; exact hlt), hlt⟩

/-- A foreground refresh is under way and the task, woken by a first request, queues behind it. -/
def queuedTask : List TaskEvent :=
  [.spawnRefresh 0, .background .start, .background (.manager (.begin 1)), .background (.manager (.acquire 1)),
    .background (.manager .requestRefresh), .background (.notified 0)]

/-- A call's attempt is refused and the call returns. -/
def refusedBy (call : Nat) : List TaskEvent :=
  [.background (.manager (.fetchEnds call (.error ⟨"refused", none⟩))), .background (.manager (.record call)),
    .background (.manager (.bump call)), .background (.manager (.release call))]

/-- The foreground refresh fails, the task shares its failure, and takes the second request when it waits again. -/
def takesSecond : List TaskEvent :=
  refusedBy 1 ++ [.background (.manager (.acquire 0)), .background (.manager (.release 0)), .background (.settle 0),
    .background (.notified 2), .background (.manager (.acquire 2))] ++ refusedBy 2 ++ [.background (.settle 0)]

/-- A second request, made while the task queues behind a foreground refresh. -/
theorem no_request_lost_queued : ∃ call, TaskEvent.background (.manager (.bump call)) ∈ takesSecond := by
  obtain ⟨before, requested, after, hreach, hrequest, hrun, ⟨armedAt, delay, failures, hselect⟩, hnotify⟩ :
      ∃ before requested after,
        Transition.exec taskStep (new .verbatim 0 ⟨"t", 600, "Bearer"⟩ "Bearer t") queuedTask = some before ∧
        before.taskStep (.background (.manager .requestRefresh)) = some requested ∧
        Transition.exec taskStep requested takesSecond = some after ∧
        (∃ armedAt delay failures, after.task = .select armedAt delay failures) ∧ after.manager.refreshNotify = false :=
    ⟨_, _, _, rfl, rfl, rfl, ⟨_, _, _, rfl⟩, rfl⟩
  exact (no_request_lost .verbatim 0 ⟨"t", 600, "Bearer"⟩ "Bearer t" before requested after takesSecond armedAt delay failures
    (Transition.reaches_of_exec hreach) hrequest hrun hselect hnotify).1

end Background

end RociaSdk

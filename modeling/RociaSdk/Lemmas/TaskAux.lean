import RociaSdk.Background
import RociaSdk.Lemmas.AuthAnswers

/-!
# Steps of the background task

What an event can do when the task may have been spawned with any interval, and what its runs keep of the manager.
-/

namespace RociaSdk

namespace Background

variable {b b' : Background} {e : TaskEvent}

/-- What each event does, and when. -/
inductive Step (b : Background) : TaskEvent → Background → Prop where
  | manager (e : TokenManager.Event) (m : TokenManager) (hm : b.manager.Step e m) :
      Step b (.background (.manager e)) { b with manager := m }
  | spawn (e : TaskEvent) (interval : Nat) (he : e = .spawnRefresh interval ∨ e = .background .spawn)
      (htask : b.task = .unspawned) : Step b e { b with task := .starting (refreshTickPeriod interval) }
  | start (period : Nat) (htask : b.task = .starting period) :
      Step b (.background .start) { b with task := .select b.manager.now period 0 }
  | tick (call armedAt delay : Nat) (failures : UInt32) (htask : b.task = .select armedAt delay failures)
      (hdue : armedAt + delay ≤ b.manager.now) (hp : b.manager.phase call = .idle) :
      Step b (.background (.tick call)) { manager := b.manager.begin call, task := .refreshing call failures }
  | notified (call armedAt delay : Nat) (failures : UInt32) (htask : b.task = .select armedAt delay failures)
      (hnotify : b.manager.refreshNotify = true) (hp : b.manager.phase call = .idle) :
      Step b (.background (.notified call))
        { manager := { b.manager with refreshNotify := false }.begin call, task := .refreshing call failures }
  | settle (numerator call : Nat) (failures : UInt32) (fetched : Bool) (answer : Except AuthError Unit)
      (htask : b.task = .refreshing call failures) (hp : b.manager.phase call = .returned fetched answer) :
      Step b (.background (.settle numerator)) (b.settle answer failures numerator)
  | stopWaiting (armedAt delay : Nat) (failures : UInt32) (htask : b.task = .select armedAt delay failures) :
      Step b (.background .stop) { b with task := .stopped }
  | stopRefreshing (call : Nat) (failures : UInt32) (m : TokenManager) (htask : b.task = .refreshing call failures)
      (hm : b.manager.Step (.cancel call) m) : Step b (.background .stop) { manager := m, task := .stopped }

/-- To wake up is to begin a call. -/
theorem wake_cases {call : Nat} {failures : UInt32} (h : b.wake call failures = some b') :
    b.manager.phase call = .idle ∧ b' = { manager := b.manager.begin call, task := .refreshing call failures } := by
  obtain ⟨m, hm, rfl⟩ := Option.map_eq_some_iff.1 h
  cases TokenManager.step_cases hm with
  | begin c hp => exact ⟨hp, rfl⟩

theorem step_cases (h : b.taskStep e = some b') : b.Step e b' := by
  cases e with
  | spawnRefresh interval =>
    simp only [taskStep] at h
    split at h
    · rename_i htask
      cases h
      exact .spawn _ interval (.inl rfl) htask
    · cases h
  | background e =>
    simp only [taskStep] at h
    cases e with
    | manager e =>
      simp only [Background.step] at h
      split at h
      · split at h
        · cases h
        · obtain ⟨m, hm, rfl⟩ := Option.map_eq_some_iff.1 h
          exact .manager _ m (TokenManager.step_cases hm)
      · obtain ⟨m, hm, rfl⟩ := Option.map_eq_some_iff.1 h
        exact .manager _ m (TokenManager.step_cases hm)
    | spawn =>
      simp only [Background.step] at h
      split at h
      · rename_i htask
        cases h
        exact .spawn _ _ (.inr rfl) htask
      · cases h
    | start =>
      simp only [Background.step] at h
      split at h
      · rename_i period htask
        cases h
        exact .start period htask
      · cases h
    | tick call =>
      simp only [Background.step] at h
      split at h
      · rename_i armedAt delay failures htask
        split at h
        · rename_i hdue
          obtain ⟨hp, rfl⟩ := wake_cases h
          exact .tick call armedAt delay failures htask hdue hp
        · cases h
      · cases h
    | notified call =>
      simp only [Background.step] at h
      split at h
      · rename_i armedAt delay failures htask hnotify
        obtain ⟨hp, rfl⟩ := wake_cases h
        exact .notified call armedAt delay failures htask hnotify hp
      · cases h
    | settle numerator =>
      simp only [Background.step] at h
      split at h
      · rename_i call failures htask
        split at h
        · rename_i fetched answer hp
          cases h
          exact .settle numerator call failures fetched answer htask hp
        · cases h
      · cases h
    | stop =>
      simp only [Background.step] at h
      split at h
      · rename_i armedAt delay failures htask
        cases h
        exact .stopWaiting armedAt delay failures htask
      · rename_i call failures htask
        obtain ⟨m, hm, rfl⟩ := Option.map_eq_some_iff.1 h
        exact .stopRefreshing call failures m htask (TokenManager.step_cases hm)
      · cases h

/-- What a run keeps of the manager. -/
structure Sound (first : Token) (b : Background) : Prop where
  inv : b.manager.Inv first
  answered : b.manager.Answered

variable {first : Token}

/-- A step of the manager keeps it sound. -/
theorem Sound.manager (h : b.Sound first) {e : TokenManager.Event} {m : TokenManager} (hm : b.manager.Step e m) (task : Task) :
    Sound first { manager := m, task := task } :=
  ⟨hm.inv h.inv, hm.answered h.inv h.answered⟩

/-- A notification that is taken leaves the manager sound. -/
theorem Sound.taken (h : b.Sound first) : Sound first { b with manager := { b.manager with refreshNotify := false } } where
  inv := ⟨h.inv.holds, h.inv.generation, h.inv.observed, h.inv.begun_le, h.inv.failure, h.inv.cells, h.inv.numbered, h.inv.fresh⟩
  answered := ⟨h.answered.releasing, h.answered.returned⟩

/-- Every step keeps the manager sound. -/
theorem Step.sound (hs : b.Step e b') (h : b.Sound first) : b'.Sound first := by
  cases hs with
  | manager e m hm => exact h.manager hm b.task
  | spawn e interval he htask => exact ⟨h.inv, h.answered⟩
  | start period htask => exact ⟨h.inv, h.answered⟩
  | tick call armedAt delay failures htask hdue hp => exact h.manager (.begin call hp) _
  | notified call armedAt delay failures htask hnotify hp =>
    have hm : ({ b.manager with refreshNotify := false } : TokenManager).Step (.begin call)
        ({ b.manager with refreshNotify := false }.begin call) := .begin call hp
    exact h.taken.manager hm _
  | settle numerator call failures fetched answer htask hp =>
    cases answer with
    | ok u => exact ⟨h.inv, h.answered⟩
    | error e => exact ⟨h.inv, h.answered⟩
  | stopWaiting armedAt delay failures htask => exact ⟨h.inv, h.answered⟩
  | stopRefreshing call failures m htask hm => exact h.manager hm _

/-- A new manager is sound. -/
theorem sound_new (parser : HeaderParser) (now : Nat) (token : TokenResponse) (header : String) :
    Sound (TokenManager.new parser now token header).header (new parser now token header) :=
  ⟨TokenManager.inv_new parser now token header, TokenManager.answered_new parser now token header⟩

/-- A run keeps the manager sound. -/
theorem Sound.run {guard : Background → TaskEvent → Prop} (h : b.Sound first)
    (hrun : Transition.Run taskStep guard b b') : b'.Sound first :=
  hrun.invariant (Sound first) h fun _ _ _ ht _ hs => (step_cases hs).sound ht

end Background

end RociaSdk

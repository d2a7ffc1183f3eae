import RociaSdk.Auth
import RociaSdk.Retry

/-!
# The background refresh task

`Background` is a token manager with the task that `spawn_refresh` spawns (`auth.rs`). The task takes its steps among those of
every other call: it waits in its `select` for its tick or for a requested refresh, calls `refresh_now`, and re-arms the tick on
the outcome. Its ticker is the time it was last armed and the delay it was armed with.
-/

namespace RociaSdk

/-! ## The schedule -/

/-- `refresh_tick_period`: at least one second. -/
def refreshTickPeriod (interval : Nat) : Nat := max interval (secs 1)

/-- `REFRESH_RETRY_BASE_DELAY`. -/
def refreshRetryBaseDelay : Nat := secs 1

/-- `REFRESH_RETRY_MAX_DELAY`. -/
def refreshRetryMaxDelay : Nat := secs 30

/-- `retry_backoff`: the delay doubles with each failure, up to the maximum. -/
def retryBackoff (attempt : UInt32) : Nat :=
  let factor := if attempt < 32 then 2 ^ attempt.toNat else 2 ^ 32 - 1
  min (refreshRetryBaseDelay * factor) refreshRetryMaxDelay

/-- `jittered_retry_backoff`. -/
def jitteredRetryBackoff (attempt : UInt32) (numerator : Nat) : Nat :=
  let ceiling := retryBackoff attempt
  let lowerHalf := ceiling / 2
  lowerHalf + fullJitter (ceiling - lowerHalf) numerator

/-- `u32::saturating_add(1)`. -/
def saturatingSucc (n : UInt32) : UInt32 := if n.toNat < 2 ^ 32 - 1 then n + 1 else n

/-! ## The task -/

/-- Where the background task stands. -/
inductive Task where
  /-- `spawn_refresh` has not been called. -/
  | unspawned
  /-- The task is spawned with a period and has not been polled yet. -/
  | starting (period : Nat)
  /-- It waits in its `select`, with a tick armed at a time for a delay. -/
  | select (armedAt delay : Nat) (consecutiveFailures : UInt32)
  /-- It awaits its call of `refresh_now`. -/
  | refreshing (call : Nat) (consecutiveFailures : UInt32)
  /-- Its guard was dropped. -/
  | stopped

/-- The call of `refresh_now` the task awaits. -/
def Task.call? : Task → Option Nat
  | refreshing call _ => some call
  | _ => none

/-- A token manager with its background task. -/
structure Background where
  manager : TokenManager
  task : Task

namespace Background

/-- What can happen: a step of the manager, or one of the task. -/
inductive Event where
  | manager (e : TokenManager.Event)
  | spawn
  | start
  | tick (call : Nat)
  | notified (call : Nat)
  | settle (numerator : Nat)
  | stop

/-- Wake the task up: it calls `refresh_now`. -/
def wake (b : Background) (call : Nat) (consecutiveFailures : UInt32) : Option Background :=
  (b.manager.step (.begin call)).map fun m => { manager := m, task := .refreshing call consecutiveFailures }

/-- Re-arm the tick on the outcome of the task's refresh. -/
def settle (b : Background) (answer : Except AuthError Unit) (consecutiveFailures : UInt32) (numerator : Nat) : Background :=
  match answer with
  | .ok () => { b with task := .select b.manager.now b.manager.refreshInterval 0 }
  | .error _ =>
    { b with
      task := .select b.manager.now (jitteredRetryBackoff consecutiveFailures numerator)
        (saturatingSucc consecutiveFailures) }

/-- What an event does, if it can happen. The task's own call is cancelled with the task only. -/
def step (b : Background) : Event → Option Background
  | .manager e =>
    match e, b.task.call? with
    | .cancel call, some own => if call = own then none else (b.manager.step e).map fun m => { b with manager := m }
    | _, _ => (b.manager.step e).map fun m => { b with manager := m }
  | .spawn =>
    match b.task with
    | .unspawned => some { b with task := .starting (refreshTickPeriod b.manager.refreshInterval) }
    | _ => none
  | .start =>
    -- The first tick of an interval completes at once, and the next is due one period later.
    match b.task with
    | .starting period => some { b with task := .select b.manager.now period 0 }
    | _ => none
  | .tick call =>
    match b.task with
    | .select armedAt delay failures => if armedAt + delay ≤ b.manager.now then b.wake call failures else none
    | _ => none
  | .notified call =>
    match b.task, b.manager.refreshNotify with
    | .select _ _ failures, true =>
      { b with manager := { b.manager with refreshNotify := false } }.wake call failures
    | _, _ => none
  | .settle numerator =>
    match b.task with
    | .refreshing call failures =>
      match b.manager.phase call with
      | .returned _ answer => some (b.settle answer failures numerator)
      | _ => none
    | _ => none
  | .stop =>
    match b.task with
    | .select _ _ _ => some { b with task := .stopped }
    | .refreshing call _ => (b.manager.step (.cancel call)).map fun m => { manager := m, task := .stopped }
    | _ => none

/-- A new manager, before `spawn_refresh`. -/
def new (parser : HeaderParser) (now : Nat) (token : TokenResponse) (header : String) : Background :=
  { manager := .new parser now token header, task := .unspawned }

end Background

/-! ## Any interval -/

/-- What can happen when `spawn_refresh` may be called with any interval. -/
inductive TaskEvent where
  | spawnRefresh (interval : Nat)
  | background (e : Background.Event)

/-- What such an event does. -/
def Background.taskStep (b : Background) : TaskEvent → Option Background
  | .spawnRefresh interval =>
    match b.task with
    | .unspawned => some { b with task := .starting (refreshTickPeriod interval) }
    | _ => none
  | .background e => b.step e

/-! ## Promptness and turns -/

/-- Whether a call at this phase is at an await, or not under way. -/
def Phase.atAwait : Phase → Bool
  | idle => true
  | queued _ => true
  | fetching => true
  | returned _ _ => true
  | cancelled => true
  | _ => false

namespace Background

/-- Whether nothing is left to do but wait: every call is at an await, none awaits a free lock, and the task does not await a
call that has returned. -/
structure Quiet (b : Background) : Prop where
  atAwait : ∀ c, (b.manager.phase c).atAwait = true
  locked : ∀ c observed, b.manager.phase c = .queued observed → b.manager.refreshLock ≠ none
  settled : ∀ c fetched answer, b.task.call? = some c → b.manager.phase c ≠ .returned fetched answer

/-- What lies between two awaits takes no time: the clock moves only when there is nothing left to do but wait. -/
def Prompt (b : Background) (e : Event) : Prop := ∀ d, e = .manager (.elapse d) → b.Quiet

/-- The refresh lock is given in turn, as `tokio`'s mutex gives it: to none of the calls in its queue before another that began
when fewer attempts had completed. -/
def InTurn (b : Background) (e : Event) : Prop :=
  ∀ call, e = .manager (.acquire call) → ∀ c observed, b.manager.phase c = .queued observed →
    b.manager.begun call ≤ b.manager.begun c

end Background

end RociaSdk

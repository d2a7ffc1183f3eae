import Mathlib.Logic.Function.Basic
import RociaSdk.Error
import RociaSdk.Lib.Transition

/-!
# The token manager

`TokenManager` is the state that every call of `refresh_now`, `ensure_fresh` and the interceptor shares (`auth.rs`). A call of
`refresh_now` is a number with a `Phase`, the place of its code it has come to; `TokenManager.step` says what one event does:
one lock-protected access, one atomic operation, or one end of an await. Calls take their steps in any order. Two fields are
not in the source and read by no step: `log`, the outcomes of the attempts that have run to completion, and `begun`, how many
had when a call read the generation. Times and durations are in nanoseconds.
-/

namespace RociaSdk

/-! ## Tokens -/

/-- A `Duration` of whole seconds. -/
def secs (n : Nat) : Nat := n * 10 ^ 9

/-- `TokenResponse`. -/
structure TokenResponse where
  accessToken : String
  expiresIn : UInt64
  tokenType : String
deriving DecidableEq, Repr

/-- `tonic`'s parser of metadata values: which texts it takes is up to it, and a value it gives is the text it was given. -/
structure HeaderParser where
  parse : String → Except String String
  value_eq : ∀ {text value}, parse text = .ok value → value = text

/-- A parser that takes every text, as `tonic`'s takes every text of printable ASCII characters. -/
def HeaderParser.verbatim : HeaderParser where
  parse := .ok
  value_eq h := (Except.ok.inj h).symm

/-- `build_header`: the `authorization` value, unless the token cannot stand in one. -/
def buildHeader (parser : HeaderParser) (token : TokenResponse) : Except AuthError String :=
  let bearer := token.tokenType ++ " " ++ token.accessToken
  match parser.parse bearer with
  | .ok value => .ok value
  | .error source => .error ⟨"invalid access token metadata value", some source⟩

/-- `TokenLifetime`. -/
structure TokenLifetime where
  fetchedAt : Nat
  expiresIn : UInt64
deriving DecidableEq, Repr

/-- `TokenLifetime::issued_now`. -/
def TokenLifetime.issuedNow (now : Nat) (expiresIn : UInt64) : TokenLifetime :=
  { fetchedAt := now, expiresIn := expiresIn }

/-- `TokenLifetime::remaining`. -/
def TokenLifetime.remaining (l : TokenLifetime) (now : Nat) : Nat := secs l.expiresIn.toNat - (now - l.fetchedAt)

/-- A token as the manager installs it, with the number of the attempt that fetched it: the token of `new` has number 0. -/
structure Token where
  attempt : Nat
  header : String
  lifetime : TokenLifetime
deriving DecidableEq, Repr

/-! ## The shared state -/

/-- Where a call of `refresh_now` has come to. -/
inductive Phase where
  /-- The call has not been made. -/
  | idle
  /-- It has read the generation and awaits the lock. -/
  | queued (observed : UInt64)
  /-- It holds the lock and awaits the IdP. -/
  | fetching
  /-- The fetch gave a token that makes a header. -/
  | installing (token : TokenResponse) (header : String)
  /-- The lifetime is written and the header is not. -/
  | halfInstalled (token : Token)
  /-- `fetch_and_install` has returned. -/
  | recording (outcome : Except AuthError Token)
  /-- The outcome is recorded and the generation is not bumped. -/
  | bumping (outcome : Except AuthError Token)
  /-- The call is about to return and still holds the lock. -/
  | releasing (fetched : Bool) (answer : Except AuthError Unit)
  /-- The call has returned. -/
  | returned (fetched : Bool) (answer : Except AuthError Unit)
  /-- The call was dropped at an await. -/
  | cancelled

/-- `TokenManagerInner`, with the clock, the calls and the parser of `build_header`, which no step changes. The two cells are
written from tokens: the code reads `header.header` and `lifetime.lifetime`. -/
structure TokenManager where
  parser : HeaderParser
  header : Token
  lifetime : Token
  fetchAttempts : UInt64
  refreshLock : Option Nat
  refreshGeneration : UInt64
  lastAttemptFailure : Option String
  refreshNotify : Bool
  now : Nat
  phase : Nat → Phase
  begun : Nat → Nat
  log : List (Except AuthError Token)

/-- `TokenManager::new`, once its first fetch has given a token. -/
def TokenManager.new (parser : HeaderParser) (now : Nat) (token : TokenResponse) (header : String) : TokenManager :=
  let first : Token := { attempt := 0, header := header, lifetime := .issuedNow now token.expiresIn }
  { parser := parser, header := first, lifetime := first, fetchAttempts := 0, refreshLock := none, refreshGeneration := 0,
    lastAttemptFailure := none, refreshNotify := false, now := now, phase := fun _ => .idle, begun := fun _ => 0, log := [] }

/-- `MIN_REFRESH_INTERVAL`. -/
def minRefreshInterval : Nat := secs 5

/-- The interval `refresh_interval` derives from a lifetime in seconds. -/
def intervalFor (expiresIn : Nat) : Nat :=
  let withMargin := min (expiresIn * 2) (2 ^ 64 - 1) / 3
  let floored := max (secs withMargin) minRefreshInterval
  let ceiling := secs (max (expiresIn - 1) 1)
  min floored ceiling

namespace TokenManager

/-- `refresh_interval`. -/
def refreshInterval (m : TokenManager) : Nat := intervalFor m.lifetime.lifetime.expiresIn.toNat

/-- The pre-flight test of `ensure_fresh`: whether it returns without a refresh. -/
def isFresh (m : TokenManager) (margin : Nat) : Bool := margin ≤ m.lifetime.lifetime.remaining m.now

/-- Move a call to a phase. -/
def goTo (m : TokenManager) (call : Nat) (p : Phase) : TokenManager := { m with phase := Function.update m.phase call p }

/-! ## The steps of `refresh_now` -/

/-- The error of a call coalesced into a failed attempt. -/
def coalescedError (message : String) : AuthError :=
  ⟨"a concurrent token refresh failed, so this one did not repeat it: " ++ message, none⟩

/-- What a coalesced call answers. -/
def coalesced (m : TokenManager) : Except AuthError Unit :=
  match m.lastAttemptFailure with
  | none => .ok ()
  | some message => .error (coalescedError message)

/-- Read the generation and queue for the lock. -/
def begin (m : TokenManager) (call : Nat) : TokenManager :=
  { m.goTo call (.queued m.refreshGeneration) with begun := Function.update m.begun call m.log.length }

/-- Take the free lock, and go on to fetch unless an attempt has completed meanwhile. -/
def acquire (m : TokenManager) (call : Nat) (observed : UInt64) : TokenManager :=
  if m.refreshGeneration ≠ observed then
    { m.goTo call (.releasing false m.coalesced) with refreshLock := some call }
  else { m.goTo call .fetching with refreshLock := some call, fetchAttempts := m.fetchAttempts + 1 }

/-- The fetch ends: an error, or a token that does or does not make a header. -/
def fetchEnds (m : TokenManager) (call : Nat) (outcome : Except AuthError TokenResponse) : TokenManager :=
  match outcome with
  | .error e => m.goTo call (.recording (.error e))
  | .ok token =>
    match buildHeader m.parser token with
    | .error e => m.goTo call (.recording (.error e))
    | .ok header => m.goTo call (.installing token header)

/-- Write the lifetime of a fetched token. -/
def writeLifetime (m : TokenManager) (call : Nat) (response : TokenResponse) (header : String) : TokenManager :=
  let token : Token :=
    { attempt := m.log.length + 1, header := header, lifetime := .issuedNow m.now response.expiresIn }
  { m.goTo call (.halfInstalled token) with lifetime := token }

/-- Write the header of a fetched token. -/
def writeHeader (m : TokenManager) (call : Nat) (token : Token) : TokenManager :=
  { m.goTo call (.recording (.ok token)) with header := token }

/-- What `last_attempt_failure` holds after an outcome. -/
def failureOf : Except AuthError Token → Option String
  | .ok _ => none
  | .error e => some e.display

/-- Record the outcome of the attempt. -/
def record (m : TokenManager) (call : Nat) (outcome : Except AuthError Token) : TokenManager :=
  { m.goTo call (.bumping outcome) with lastAttemptFailure := failureOf outcome }

/-- Bump the generation: the attempt has run to completion. -/
def bump (m : TokenManager) (call : Nat) (outcome : Except AuthError Token) : TokenManager :=
  { m.goTo call (.releasing true (outcome.map fun _ => ())) with
    refreshGeneration := m.refreshGeneration + 1
    log := m.log ++ [outcome] }

/-- Return, which gives the lock back. -/
def release (m : TokenManager) (call : Nat) (fetched : Bool) (answer : Except AuthError Unit) : TokenManager :=
  { m.goTo call (.returned fetched answer) with refreshLock := none }

/-- Drop a call that awaits the IdP, which gives the lock back. -/
def abandon (m : TokenManager) (call : Nat) : TokenManager := { m.goTo call .cancelled with refreshLock := none }

/-! ## Events -/

/-- What can happen to the manager. -/
inductive Event where
  | begin (call : Nat)
  | acquire (call : Nat)
  | fetchEnds (call : Nat) (outcome : Except AuthError TokenResponse)
  | writeLifetime (call : Nat)
  | writeHeader (call : Nat)
  | record (call : Nat)
  | bump (call : Nat)
  | release (call : Nat)
  | cancel (call : Nat)
  | requestRefresh
  | elapse (duration : Nat)

/-- What an event does, if it can happen. -/
def step (m : TokenManager) : Event → Option TokenManager
  | .begin call =>
    match m.phase call with
    | .idle => some (m.begin call)
    | _ => none
  | .acquire call =>
    match m.phase call, m.refreshLock with
    | .queued observed, none => some (m.acquire call observed)
    | _, _ => none
  | .fetchEnds call outcome =>
    match m.phase call with
    | .fetching => some (m.fetchEnds call outcome)
    | _ => none
  | .writeLifetime call =>
    match m.phase call with
    | .installing response header => some (m.writeLifetime call response header)
    | _ => none
  | .writeHeader call =>
    match m.phase call with
    | .halfInstalled token => some (m.writeHeader call token)
    | _ => none
  | .record call =>
    match m.phase call with
    | .recording outcome => some (m.record call outcome)
    | _ => none
  | .bump call =>
    match m.phase call with
    | .bumping outcome => some (m.bump call outcome)
    | _ => none
  | .release call =>
    match m.phase call with
    | .releasing fetched answer => some (m.release call fetched answer)
    | _ => none
  | .cancel call =>
    match m.phase call with
    | .queued _ => some (m.goTo call .cancelled)
    | .fetching => some (m.abandon call)
    | _ => none
  | .requestRefresh => some { m with refreshNotify := true }
  | .elapse duration => some { m with now := m.now + duration }

/-- The states the manager reaches from those `new` makes. -/
def Reachable (m : TokenManager) : Prop :=
  ∃ parser now token header, buildHeader parser token = .ok header ∧ Transition.Reaches step (new parser now token header) m

end TokenManager

/-! ## The interceptor -/

/-- `BearerInterceptor::call`: the header it stamps, for a client with auth. -/
def TokenManager.stamp (m : TokenManager) : String := m.header.header

end RociaSdk

import RociaSdk.Hosted

/-!
# What a call comes to

Of a call that may be sent again, only its last attempt counts (`hosted_eq`): a call that is let in comes to what its handler goes on
with, on the server that this attempt reaches, and one that is not is an error. A read answers from the store and leaves the server as
it is.
-/

namespace RociaSdk

namespace Server

namespace HostedAux

open Interleave

variable {Req Resp α β : Type} {rpc : String} {authorization : Option String} {client : Client} {world : World}

/-! ## What every call passes first -/

theorem enter_let_in {s : State} (h : s.LetsIn rpc authorization) : s.enter rpc authorization = (.ok (), s) := by
  unfold State.enter
  rw [if_neg (by simp [h.1]), h.2]

/-- A call that is not let in is refused by the server itself. -/
theorem enter_turned_away {s : State} (h : ¬s.LetsIn rpc authorization) :
    ∃ e t, s.enter rpc authorization = (.error e, t) ∧ e.timeoutExpired = false := by
  unfold State.enter
  split
  · exact ⟨_, _, rfl, rfl⟩
  · rename_i htoken
    split
    · exact ⟨_, _, rfl, rfl⟩
    · rename_i hfailures
      exact absurd ⟨by simpa using htoken, hfailures⟩ h

theorem not_unauthenticated {s : State} (h : s.LetsIn rpc authorization) : s.unauthenticated rpc authorization = false := by
  unfold State.unauthenticated
  rw [enter_let_in h]

/-- What fails this way is no reason to send a call again, nor a deadline that has passed. -/
def Plain (answer : Except Status α) : Prop := ∀ e, answer = .error e → e.code ≠ .unauthenticated ∧ e.timeoutExpired = false

theorem plain_ok (a : α) : Plain (.ok a : Except Status α) := by simp [Plain]

theorem plain_error {e : Status} (hcode : e.code ≠ .unauthenticated) (htimeout : e.timeoutExpired = false) :
    Plain (.error e : Except Status α) := by
  rintro _ ⟨⟩
  exact ⟨hcode, htimeout⟩

theorem Plain.map {answer : Except Status α} (h : Plain answer) (f : α → β) : Plain (answer.map f) := by
  cases answer with
  | ok a => exact plain_ok _
  | error e => exact plain_error (h e rfl).1 (h e rfl).2

theorem Plain.bind {answer : Except Status α} {next : α → Except Status β} (h : Plain answer) (hnext : ∀ a, Plain (next a)) :
    Plain (answer.bind next) := by
  cases answer with
  | ok a => exact hnext a
  | error e => exact plain_error (h e rfl).1 (h e rfl).2

/-- A handler that goes on with `body` where a call is let in. What it fails with itself is no reason to send the call again. -/
structure Enters (handler : Option String → Req → State → Except Status Resp × State) (request : Req) (rpc : String)
    (body : State → Except Status Resp × State) : Prop where
  eq : ∀ authorization, handler authorization request = State.entering rpc authorization body
  plain : ∀ s, Plain (body s).1

/-- A handler that answers from the store where a call is let in. -/
abbrev Reads (handler : Option String → Req → State → Except Status Resp × State) (request : Req) (rpc : String)
    (answer : Store → Except Status Resp) : Prop :=
  Enters handler request rpc fun s => (answer s.store, s)

section Calls

variable {around : Meanwhile} {handler : Option String → Req → State → Except Status Resp × State} {request : Req}
  {body : State → Except Status Resp × State} {now : Conversation Resp} {s : State}

theorem entering_let_in (h : s.LetsIn rpc authorization) : s.entering rpc authorization body = body s := by
  unfold State.entering
  rw [enter_let_in h]

/-- What a call is answered that is not let in. -/
theorem entering_turned_away (body : State → Except Status Resp × State) (h : ¬s.LetsIn rpc authorization) :
    ∃ e, s.entering rpc authorization body = (.error e, s.step (.read rpc authorization)) ∧ e.timeoutExpired = false ∧
      s.unauthenticated rpc authorization = (e.code = .unauthenticated : Bool) := by
  obtain ⟨e, t, henter, htimeout⟩ := enter_turned_away h
  refine ⟨e, ?_, htimeout, ?_⟩
  · simp only [State.entering, State.step, henter]
  · simp only [State.unauthenticated, henter]

/-- No answer of the server says that a deadline of the client has passed. -/
theorem timeoutExpired_of_entering (hhandler : Enters handler request rpc body) {e : Status}
    (h : (s.entering rpc authorization body).1 = .error e) : e.timeoutExpired = false := by
  by_cases hopen : s.LetsIn rpc authorization
  · rw [entering_let_in hopen] at h
    exact (hhandler.plain s e h).2
  · obtain ⟨e', hrefused, htimeout, -⟩ := entering_turned_away body hopen
    rw [hrefused] at h
    cases h
    exact htimeout

/-! ## The operations of a call -/

section Operations

variable {γ : Type} {respond : (op : Op Req) → Conversation Resp → Ans Req Resp op × Conversation Resp}

@[simp] theorem bind_eval (call : Call Req Resp α) (next : α → Call Req Resp γ) :
    (call >>= next).eval respond now = (next (call.eval respond now).1).eval respond (call.eval respond now).2 :=
  Program.eval_bind ..

end Operations

@[simp] theorem send_eval (r : Request Req) :
    (Call.send r : Call Req Resp Unit).eval (around.respond client handler) now =
      ((), { server := (handler (client.authorization (around.header now.sent)) r.message
              (now.server.run (around.others now.sent))).2
             sent := now.sent + 1
             answer := (handler (client.authorization (around.header now.sent)) r.message
              (now.server.run (around.others now.sent))).1 }) :=
  rfl

@[simp] theorem answer_eval :
    (Call.answer : Call Req Resp _).eval (around.respond client handler) now = (now.answer, now) :=
  rfl

@[simp] theorem answerWithin_eval (timeout : Nat) :
    (Call.answerWithin timeout : Call Req Resp _).eval (around.respond client handler) now =
      (if around.inTime (now.sent - 1) then some now.answer else none, now) :=
  rfl

@[simp] theorem isFresh_eval (margin : Nat) :
    (Call.isFresh margin : Call Req Resp Bool).eval (around.respond client handler) now = (around.fresh, now) :=
  rfl

@[simp] theorem refreshNow_eval :
    (Client.refreshNow : Call Req Resp _).eval (around.respond client handler) now = (around.refreshed now.sent, now) :=
  rfl

/-! ## One attempt -/

/-- What an attempt comes to is what the server answers, if it answers in time. -/
def attempted (around : Meanwhile) (client : Client) (operation : String) (attempt : Nat) (answer : Except Status Resp) :
    Result Resp :=
  if around.answers client attempt then statusContext operation answer
  else .error (Client.deadlineExceeded operation (client.requestTimeout.getD 0))

theorem attempt_eval (operation : String) (hhandler : Enters handler request rpc body) :
    let handled := (now.server.run (around.others now.sent)).entering rpc
      (client.authorization (around.header now.sent)) body
    (Client.attempt operation request client.requestTimeout).eval (around.respond client handler) now =
      (attempted around client operation now.sent handled.1,
        { server := handled.2, sent := now.sent + 1, answer := handled.1 }) := by
  intro handled
  have hplain : ∀ e, handled.1 = .error e → e.timeoutExpired = false := fun e he => timeoutExpired_of_entering hhandler he
  have hhandled : handler (client.authorization (around.header now.sent)) request (now.server.run (around.others now.sent)) =
      handled := by rw [hhandler.eq]
  unfold Client.attempt attempted Meanwhile.answers
  cases htimeout : client.requestTimeout with
  | none => simp [hhandled]
  | some timeout =>
    simp only [bind_eval, send_eval, answerWithin_eval, hhandled, Nat.add_sub_cancel]
    cases around.inTime now.sent with
    | false => simp
    | true =>
      cases hanswer : handled.1 with
      | ok response => simp
      | error e => simp [Client.isLocalDeadlineExpired, hplain e hanswer]

/-- Of a refresh for a replay it counts whether there is a reason for it and whether it succeeds. -/
theorem refreshForReplay_eval (error : RociaDbError) :
    (client.refreshForReplay error : Call Req Resp Bool).eval (around.respond client handler) now =
      (error.isUnauthenticated && client.authEnabled && (around.refreshed now.sent).isOk, now) := by
  unfold Client.refreshForReplay
  cases error.isUnauthenticated with
  | false => simp
  | true =>
    cases client.authEnabled with
    | false => simp
    | true =>
      simp only [Bool.not_true, Bool.false_eq_true, if_false, bind_eval, refreshNow_eval, Bool.true_and]
      cases around.refreshed now.sent <;> rfl

/-! ## A call -/

/-- A result is a reason to send a call again. -/
def isUnauthenticated : Result Resp → Bool
  | .ok _ => false
  | .error e => e.isUnauthenticated

/-- An attempt is a reason to send the call again if the server answers in time that it is not authenticated. -/
theorem isUnauthenticated_attempted (operation : String) (hhandler : Enters handler request rpc body) (attempt : Nat) :
    isUnauthenticated (attempted around client operation attempt (s.entering rpc authorization body).1) =
      (around.answers client attempt && s.unauthenticated rpc authorization) := by
  unfold attempted
  cases around.answers client attempt with
  | false => rfl
  | true =>
    by_cases hopen : s.LetsIn rpc authorization
    · rw [not_unauthenticated hopen, entering_let_in hopen]
      cases hbody : (body s).1 with
      | ok response => rfl
      | error e =>
        simp [statusContext, isUnauthenticated, RociaDbError.isUnauthenticated, RociaDbError.code, (hhandler.plain s e hbody).1]
    · obtain ⟨e, hrefused, -, hcode⟩ := entering_turned_away body hopen
      rw [hrefused, hcode]
      simp [statusContext, isUnauthenticated, RociaDbError.isUnauthenticated, RociaDbError.code]

/-- A call is sent again if there is a reason for it and the refresh succeeds. -/
theorem unary_eval (operation : String) (hhandler : Enters handler request rpc body) :
    let handled := (now.server.run (around.others now.sent)).entering rpc
      (client.authorization (around.header now.sent)) body
    let first := attempted around client operation now.sent handled.1
    let after : Conversation Resp := { server := handled.2, sent := now.sent + 1, answer := handled.1 }
    (client.unary operation request).eval (around.respond client handler) now =
      if client.authEnabled && isUnauthenticated first && (around.refreshed (now.sent + 1)).isOk then
        (Client.attempt operation request client.requestTimeout).eval (around.respond client handler) after
      else (first, after) := by
  intro handled first after
  unfold Client.unary Client.attemptWithReplay
  rw [bind_eval, attempt_eval operation hhandler]
  cases hfirst : first with
  | ok response =>
    simp only [first, handled] at hfirst
    simp [hfirst, isUnauthenticated, after, handled]
  | error error =>
    simp only [first, handled] at hfirst
    simp only [hfirst, isUnauthenticated]
    cases hauth : client.authEnabled with
    | false => simp [after, handled]
    | true =>
      simp only [if_true, bind_eval, refreshForReplay_eval, hauth, Bool.true_and, Bool.and_true]
      split <;> rfl

/-- Of a call, the attempt that counts is the last one. -/
theorem hosted_eq (operation : String) (hhandler : Enters handler request rpc body) (world : World) :
    let handled := (world.arrived client rpc).entering rpc (world.authorization client (world.last client rpc)) body
    hosted client handler operation request world =
      (attempted (world.calls 0) client operation (world.last client rpc) handled.1, world.later handled.2) := by
  intro handled
  let first := (world.server.run ((world.calls 0).others 0)).entering rpc (world.authorization client 0) body
  let after : Conversation Resp := { server := first.2, sent := 1, answer := first.1 }
  have hreason : (client.authEnabled && isUnauthenticated (attempted (world.calls 0) client operation 0 first.1) &&
      ((world.calls 0).refreshed 1).isOk) = world.replays client rpc := by
    rw [isUnauthenticated_attempted operation hhandler, ← Bool.and_assoc client.authEnabled]
    rfl
  have hcall : hosted client handler operation request world =
      let came := if world.replays client rpc then
          (Client.attempt operation request client.requestTimeout).eval ((world.calls 0).respond client handler) after
        else (attempted (world.calls 0) client operation 0 first.1, after)
      (came.1, world.later came.2.server) := by
    unfold hosted Meanwhile.converse
    rw [unary_eval operation hhandler, ← hreason]
    rfl
  rw [hcall]
  cases hreplays : world.replays client rpc with
  | true =>
    have hlast : world.last client rpc = 1 := by simp [World.last, hreplays]
    have hturned : ¬(world.server.run ((world.calls 0).others 0)).LetsIn rpc (world.authorization client 0) := by
      intro hopen
      simp [World.replays, not_unauthenticated hopen] at hreplays
    obtain ⟨e, hrefused, -, -⟩ := entering_turned_away body hturned
    have harrived : first.2.run ((world.calls 0).others 1) = world.arrived client rpc := by
      simp only [first, hrefused, World.arrived, World.before, hreplays, if_true, State.run, List.foldl_append, List.foldl_cons]
    rw [if_pos rfl, attempt_eval operation hhandler]
    simp only [handled, hlast, ← harrived]
    rfl
  | false =>
    have hlast : world.last client rpc = 0 := by simp [World.last, hreplays]
    have hhandled : handled = first := by
      simp only [handled, first, hlast, World.arrived, World.before, hreplays, Bool.false_eq_true, if_false]
    rw [if_neg Bool.false_ne_true, hhandled, hlast]

/-- A call that is let in comes to what its handler goes on with. -/
theorem hosted_let_in (operation : String) (hhandler : Enters handler request rpc body) (h : world.Admits client rpc) :
    hosted client handler operation request world =
      (statusContext operation (body (world.arrived client rpc)).1, world.later (body (world.arrived client rpc)).2) := by
  rw [hosted_eq operation hhandler, entering_let_in h.1, attempted, if_pos h.2]

/-- A call that is not let in is an error. -/
theorem hosted_turned_away (operation : String) (hhandler : Enters handler request rpc body) (h : ¬world.Admits client rpc) :
    ∃ e t, hosted client handler operation request world = (.error (.status operation e), world.later t) := by
  rw [hosted_eq operation hhandler]
  unfold attempted
  split
  · rename_i hanswers
    obtain ⟨e, hrefused, -, -⟩ := entering_turned_away body fun hopen => h ⟨hopen, hanswers⟩
    rw [hrefused]
    exact ⟨e, _, rfl⟩
  · exact ⟨_, _, rfl⟩

/-- The test of the token before a download has no say in what comes after it. -/
theorem refreshTokenBeforeStream_eval :
    (client.refreshTokenBeforeStream : Call Req Resp Unit).eval (around.respond client handler) now = ((), now) := by
  have hfresh : ∃ answer, (Client.ensureFresh streamingTokenRefreshMargin : Call Req Resp _).eval
      (around.respond client handler) now = (answer, now) := by
    unfold Client.ensureFresh
    cases hfresh : around.fresh with
    | true => exact ⟨.ok (), by simp [hfresh]⟩
    | false => exact ⟨around.refreshed now.sent, by simp [hfresh]⟩
  obtain ⟨answer, hanswer⟩ := hfresh
  unfold Client.refreshTokenBeforeStream
  cases client.authEnabled with
  | false => simp
  | true =>
    simp only [Bool.not_true, Bool.false_eq_true, if_false, bind_eval, hanswer]
    cases answer <;> rfl

/-- The opening of a download comes to what a call without a deadline comes to. -/
theorem hostedStreaming_eq (operation : String) :
    hostedStreaming client handler operation request world = hosted client.untimed handler operation request world := by
  unfold hostedStreaming hosted Meanwhile.converse
  rw [bind_eval, refreshTokenBeforeStream_eval]
  rfl

/-! ## With nobody else at work -/

/-- With nobody else at work, a call that is let in is let in at its first attempt. -/
theorem alone_let_in {header : String} (h : s.LetsIn rpc (client.authorization header)) :
    (World.alone header s).Admits client rpc ∧ (World.alone header s).arrived client rpc = s := by
  have hreplays : (World.alone header s).replays client rpc = false := by
    have hfirst := not_unauthenticated h
    simp only [World.replays, World.authorization, World.alone, Meanwhile.still, State.run, List.foldl_nil, hfirst, Bool.and_false,
      Bool.false_and]
  have harrived : (World.alone header s).arrived client rpc = s := by
    simp only [World.arrived, World.before, hreplays, Bool.false_eq_true, if_false]
    rfl
  refine ⟨⟨?_, ?_⟩, harrived⟩
  · rw [harrived]
    exact h
  · exact Bool.or_true _

/-! ## One read -/

variable {answer : Store → Except Status Resp} {decode : Resp → Result β}

theorem read_let_in (operation : String) (hhandler : Reads handler request rpc answer) (decode : Resp → Result β)
    (h : world.Admits client rpc) :
    readDecoded (hosted client handler) operation request decode world =
      ((statusContext operation (answer (world.arrived client rpc).store)).bind decode, world.later (world.arrived client rpc)) := by
  unfold readDecoded
  rw [hosted_let_in operation hhandler h]
  cases answer (world.arrived client rpc).store <;> rfl

theorem read_turned_away (operation : String) (hhandler : Reads handler request rpc answer) (decode : Resp → Result β)
    (h : ¬world.Admits client rpc) :
    ∃ e t, readDecoded (hosted client handler) operation request decode world = (.error (.status operation e), world.later t) := by
  obtain ⟨e, t, hanswer⟩ := hosted_turned_away operation hhandler h
  refine ⟨e, t, ?_⟩
  unfold readDecoded
  rw [hanswer]

end Calls

/-! ## Reads of a row -/

/-- What the handler of a read answers of a row that is there or is not. -/
def rowOr {α : Type} (what : String) (row : Option α) : Except Status α := row.elim (.error (notFound (what ++ " not found"))) .ok

theorem plain_rowOr (what : String) (row : Option α) : Plain (rowOr what row) := by
  cases row with
  | none => exact plain_error (by simp [notFound, status]) rfl
  | some row => exact plain_ok row

theorem reads_of_row {Req Resp : Type} {handler : Option String → Req → State → Except Status Resp × State} {request : Req}
    {rpc what : String} {row : Store → Option Resp}
    (h : ∀ authorization, handler authorization request = State.read rpc authorization fun store => rowOr what (row store)) :
    Reads handler request rpc fun store => rowOr what (row store) :=
  ⟨h, fun _ => plain_rowOr _ _⟩

theorem getDoc_reads (r : GetDocRequest) :
    Reads State.getDoc r "GetDoc" fun store =>
      rowOr ("document " ++ r.id) (store.documents.find? (r.tenantId, r.collection) r.id) := by
  refine reads_of_row fun authorization => ?_
  unfold State.getDoc
  refine congrArg (State.read "GetDoc" authorization) (funext fun store => ?_)
  cases store.documents.find? (r.tenantId, r.collection) r.id <;> rfl

theorem getNode_reads (r : GetNodeRequest) :
    Reads State.getNode r "GetNode" fun store =>
      rowOr ("node " ++ r.nodeId) (store.nodes.find? (r.tenantId, r.graph) r.nodeId) := by
  refine reads_of_row fun authorization => ?_
  unfold State.getNode
  refine congrArg (State.read "GetNode" authorization) (funext fun store => ?_)
  cases store.nodes.find? (r.tenantId, r.graph) r.nodeId <;> rfl

theorem getEdge_reads (r : GetEdgeRequest) :
    Reads State.getEdge r "GetEdge" fun store =>
      rowOr ("edge " ++ r.edgeId) (store.edges.find? (r.tenantId, r.graph) r.edgeId) := by
  refine reads_of_row fun authorization => ?_
  unfold State.getEdge
  refine congrArg (State.read "GetEdge" authorization) (funext fun store => ?_)
  cases store.edges.find? (r.tenantId, r.graph) r.edgeId <;> rfl

/-! ## A call that is made twice -/

/-- A client with a token manager. -/
def authenticated : Client := { authEnabled := true, requestTimeout := some 1, maxFileBytes := 0 }

/-- Others are at work before a call, and its token is not accepted any more: its first attempt is rejected, and a refresh brings the
token that is accepted. -/
def replacing (others : List Event) : Meanwhile :=
  { Meanwhile.still "Bearer u" with
    others := fun attempt => if attempt = 0 then others ++ [.acceptOnlyTokens {"u"}] else []
    header := fun attempt => if attempt = 0 then "Bearer t" else "Bearer u" }

end HostedAux

end Server

end RociaSdk

import RociaSdk.Client
import RociaSdk.Reads
import RociaSdk.ServerRun

/-!
# Calls to the server

The calls of the client, answered by the handlers of the server. A call is the program of the client for it, with its replay. Others are
at work on the server as well, and the token of the client changes: a `World` says what happens around each of the calls that are made.
A listing of the client and what the server lists for it are a `Catalog`.
-/

namespace RociaSdk

/-- `BearerInterceptor::call`, by the text of the header: what an attempt carries. -/
def Client.authorization (client : Client) (header : String) : Option String := if client.authEnabled then some header else none

/-- The client, for a call that has no deadline. -/
def Client.untimed (client : Client) : Client := { client with requestTimeout := none }

namespace Server

/-! ## The world of a client -/

/-- What happens around a call, by the number of attempts at it that have been made. -/
structure Meanwhile where
  /-- What others do to the server before the next attempt reaches it. -/
  others : Nat → List Event
  /-- The header that is in the cell when it is stamped. -/
  header : Nat → String
  /-- Whether its answer comes within the timeout of the client. -/
  inTime : Nat → Bool
  /-- What a refresh comes to. -/
  refreshed : Nat → Except AuthError Unit
  /-- What the test before a download finds. -/
  fresh : Bool

/-- Where a call stands: the server, how many attempts have been made, and what the last one was answered. -/
structure Conversation (Resp : Type) where
  server : State
  sent : Nat
  answer : Except Status Resp

namespace Meanwhile

variable {Req Resp : Type}

/-- What an operation of a call comes to. A request is stamped with the header that is in the cell, reaches the server and is handled there,
and what is awaited is the answer to the last one. -/
def respond (around : Meanwhile) (client : Client) (handler : Option String → Req → State → Except Status Resp × State) :
    (op : Op Req) → Conversation Resp → Ans Req Resp op × Conversation Resp
  | .send request, now =>
    let (answer, server) :=
      handler (client.authorization (around.header now.sent)) request.message (now.server.run (around.others now.sent))
    ((), { server := server, sent := now.sent + 1, answer := answer })
  | .answer, now => (now.answer, now)
  | .answerWithin _, now => (if around.inTime (now.sent - 1) then some now.answer else none, now)
  | .isFresh _, now => (around.fresh, now)
  | .begin, now => (now.sent, now)
  | .refreshed _, now => (around.refreshed now.sent, now)
  -- No call that is answered so draws one.
  | .uuid, now => ("", now)

/-- What a call comes to that finds the server so, and the server after it. Nothing is awaited before something is sent. -/
def converse {α : Type} (around : Meanwhile) (client : Client)
    (handler : Option String → Req → State → Except Status Resp × State) (call : Call Req Resp α) (server : State) : α × State :=
  let (result, after) := call.eval (around.respond client handler)
    { server := server, sent := 0, answer := .error (status .unknown "nothing was sent") }
  (result, after.server)

/-- An attempt is answered in time. -/
def answers (around : Meanwhile) (client : Client) (attempt : Nat) : Bool := client.requestTimeout.isNone || around.inTime attempt

/-- Nothing happens: nobody else is at work, the header stays, every answer comes in time and every refresh succeeds. -/
def still (header : String) : Meanwhile :=
  { others := fun _ => [], header := fun _ => header, inTime := fun _ => true, refreshed := fun _ => .ok (), fresh := true }

end Meanwhile

/-- The server, and what happens around each of the calls that will be made. -/
structure World where
  server : State
  calls : Nat → Meanwhile

namespace World

/-- The world after a call that leaves the server so. -/
def later (world : World) (server : State) : World := { server := server, calls := fun call => world.calls (call + 1) }

/-- The server with nobody else at work on it, for a client whose header stays. -/
def alone (header : String) (s : State) : World := { server := s, calls := fun _ => .still header }

end World

/-! ## Calls -/

section Calls

variable {Req Resp : Type}

/-- A unary call that a handler answers. -/
def hosted (client : Client) (handler : Option String → Req → State → Except Status Resp × State) : Unary World Req Resp :=
  fun operation request world =>
    let (result, server) := (world.calls 0).converse client handler (client.unary operation request) world.server
    (result, world.later server)

/-- The opening call of a download that a handler answers, with the test of the token before it. -/
def hostedStreaming (client : Client) (handler : Option String → Req → State → Except Status Resp × State) : Unary World Req Resp :=
  fun operation request world =>
    let (result, server) := (world.calls 0).converse client handler
      (do
        client.refreshTokenBeforeStream
        client.serverStreaming operation request)
      world.server
    (result, world.later server)

end Calls

/-! ## The attempt that counts -/

/-- A call for an RPC is let in: its token is accepted, and no failure is scripted for it. -/
def State.LetsIn (s : State) (rpc : String) (authorization : Option String) : Prop :=
  s.rejectsToken authorization = false ∧ s.failures rpc = []

/-- A call for an RPC is answered that it is not authenticated. -/
def State.unauthenticated (s : State) (rpc : String) (authorization : Option String) : Bool :=
  match (s.enter rpc authorization).1 with
  | .error e => e.code = .unauthenticated
  | .ok () => false

namespace World

variable (world : World) (client : Client) (rpc : String)

/-- What an attempt at the next call carries. -/
def authorization (attempt : Nat) : Option String := client.authorization ((world.calls 0).header attempt)

/-- The next call is sent again: its first attempt is answered, in time, that it is not authenticated, and the refresh succeeds. -/
def replays : Bool :=
  client.authEnabled && (world.calls 0).answers client 0 &&
    (world.server.run ((world.calls 0).others 0)).unauthenticated rpc (world.authorization client 0) &&
      ((world.calls 0).refreshed 1).isOk

/-- The number of its last attempt. -/
def last : Nat := if world.replays client rpc then 1 else 0

/-- What happens at the server before its last attempt. -/
def before : List Event :=
  if world.replays client rpc then
    (world.calls 0).others 0 ++ .read rpc (world.authorization client 0) :: (world.calls 0).others 1
  else (world.calls 0).others 0

/-- The server when its last attempt reaches it. -/
def arrived : State := world.server.run (world.before client rpc)

/-- Its last attempt is let in, and answered in time. -/
def Admits : Prop :=
  (world.arrived client rpc).LetsIn rpc (world.authorization client (world.last client rpc)) ∧
    (world.calls 0).answers client (world.last client rpc) = true

end World

/-! ## Listings -/

/-- What the client can list, by what a listing returns. -/
inductive Catalog : Type → Type where
  | collections (tenantId : String) : Catalog CollectionInfo
  | graphs (tenantId : String) : Catalog String
  | nodes (tenantId graph : String) : Catalog String
  | buckets (tenantId : String) : Catalog String
  | files (tenantId bucket : String) : Catalog String
  | tenants : Catalog String

namespace Catalog

variable {α : Type}

/-- The RPC of a listing. -/
def rpc : Catalog α → String
  | collections _ => "ListCollections"
  | graphs _ => "ListGraphs"
  | nodes _ _ => "ListNodes"
  | buckets _ => "ListBuckets"
  | files _ _ => "ListFiles"
  | tenants => "ListTenants"

/-- What an error of a listing is reported under. -/
def operation : Catalog α → String
  | collections _ => "failed to list collections"
  | graphs _ => "failed to list graphs"
  | nodes _ _ => "failed to list nodes"
  | buckets _ => "failed to list buckets"
  | files _ _ => "failed to list files"
  | tenants => "failed to list tenants"

/-- What there is to be listed, under its names: what holds a row, or what is there as a row. -/
def entries : Catalog α → Store → List (String × α)
  | collections tenantId, store =>
    (store.documents.toList.filter fun (scope, rows) => scope.1 = tenantId && !rows.isEmpty).map
      fun (scope, rows) => (scope.2, { collection := scope.2, count := UInt64.ofNat rows.size })
  | graphs tenantId, store =>
    (store.nodes.toList.filter fun (scope, rows) => scope.1 = tenantId && !rows.isEmpty).map fun (scope, _) => (scope.2, scope.2)
  | nodes tenantId graph, store => (store.nodes.rows (tenantId, graph)).keys.map fun id => (id, id)
  | buckets tenantId, store =>
    (store.files.toList.filter fun (scope, rows) => scope.1 = tenantId && !rows.isEmpty).map fun (scope, _) => (scope.2, scope.2)
  | files tenantId bucket, store => (store.files.rows (tenantId, bucket)).keys.map fun id => (id, id)
  | tenants, store => store.tenants.toList.map fun tenant => (tenant, tenant)

/-- A page of a listing, as the client reads it from the server. -/
def page (debug : String → String) (client : Client) (limit : Option UInt32) :
    Catalog α → Option String → World → Result (Page α) × World
  | collections tenantId => RociaSdk.listCollections (hosted client (State.listCollections debug)) tenantId limit
  | graphs tenantId => RociaSdk.listGraphs (hosted client (State.listGraphs debug)) tenantId limit
  | nodes tenantId graph => RociaSdk.listNodes (hosted client (State.listNodes debug)) tenantId graph limit
  | buckets tenantId => RociaSdk.listBuckets (hosted client (State.listBuckets debug)) tenantId limit
  | files tenantId bucket => RociaSdk.listFiles (hosted client (State.listFiles debug)) tenantId bucket limit
  | tenants => RociaSdk.listTenants (hosted client (State.listTenants debug)) limit

end Catalog

/-- The documents of a collection, under their ids. -/
def documentEntries (tenantId collection : String) (store : Store) : List (String × List UInt8) :=
  (store.documents.rows (tenantId, collection)).toList

/-- A page of the documents of a collection, as the client reads it from the server: what the loop of `docs/pagination.md` uses of it. -/
def documentsPage {T : Type} (debug : String → String) (client : Client) (decode : List UInt8 → Except String T)
    (tenantId collection : String) (limit : Option UInt32) (cursor : Option String) (world : World) : Result (Page T) × World :=
  let (page, world) := RociaSdk.listDocuments (hosted client (State.listDoc debug)) decode tenantId collection limit cursor world
  (page.map DocumentPage.toPage, world)

/-! ## Walks over the server -/

/-- The store a walk finds at one of its calls: what others have made of it until then. -/
def storeAt {α : Type} (client : Client) (rpc : String) (list : Option String → World → Result (Page α) × World) (world : World)
    (turn : Nat) : Store :=
  match walk list world turn with
  | .running walk => (walk.world.arrived client rpc).store
  | .stopped _ world => world.server.store

end Server

end RociaSdk

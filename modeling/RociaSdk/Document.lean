import RociaSdk.Client
import RociaSdk.Graph

/-!
# Documents with a node binding

`put_document` (`document.rs`): it writes a document and then, if it is to be bound to one, a graph node, under one request id.
The type `V` of documents, their JSON encoding and that of a node's properties are parameters. A server that deduplicates both
writes is described at the end, with what happens to it while such a call is made and made again.
-/

namespace RociaSdk

open Interleave

variable {V : Type}

/-- `NodeBinding`. -/
structure NodeBinding where
  label : String
  graph : String
deriving DecidableEq, Repr

/-- `DocumentWriteOptions`. -/
structure DocumentWriteOptions where
  requestId : Option String
  nodeBinding : Option NodeBinding
deriving DecidableEq, Repr

/-- `PutDocRequest`. -/
structure PutDocRequest where
  tenantId : String
  collection : String
  id : String
  json : List UInt8
  requestId : String
deriving DecidableEq, Repr

/-- A request of one of the two writes. -/
inductive Write where
  | putDoc (request : PutDocRequest)
  | putNode (request : PutNodeRequest)
deriving DecidableEq, Repr

/-- The request id a write carries. -/
def Write.requestId : Write → String
  | putDoc request => request.requestId
  | putNode request => request.requestId

/-- `default_document_request_id`, on the UUID drawn. -/
def defaultDocumentRequestId (collection uuid : String) : String := "put_document:" ++ collection ++ ":" ++ uuid

/-- How values are encoded as JSON: a document, and an object of strings. -/
structure Encoder (V : Type) where
  document : V → Except String (List UInt8)
  object : List (String × String) → Except String (List UInt8)

/-- `build_put_doc_request`. -/
def buildPutDocRequest (encoder : Encoder V) (tenantId collection documentId : String) (value : V) (requestId : String) :
    Result PutDocRequest := do
  let json ← encodeContext "document json" (encoder.document value)
  return { tenantId := tenantId, collection := collection, id := documentId, json := json, requestId := requestId }

/-- `build_node_binding_request`. -/
def buildNodeBindingRequest (encoder : Encoder V) (tenantId collection documentId : String) (binding : NodeBinding)
    (requestId : String) : Result PutNodeRequest := do
  let json ← encodeContext "node json" (encoder.object [("collection", collection), ("id", documentId)])
  return {
    tenantId := tenantId
    graph := binding.graph
    nodeId := binding.label ++ ":" ++ documentId
    json := json
    requestId := requestId }

/-- `Option::transpose`. -/
def transpose {α : Type} : Option (Result α) → Result (Option α)
  | none => .ok none
  | some (.ok a) => .ok (some a)
  | some (.error e) => .error e

namespace Client

/-- The request id of a document write: the caller's, or the default one. -/
def documentRequestId (collection : String) (options : DocumentWriteOptions) : Call Write Unit String :=
  match options.requestId with
  | some requestId => return requestId
  | none => do return defaultDocumentRequestId collection (← Call.uuid)

/-- `put_document`. -/
def putDocument (client : Client) (encoder : Encoder V) (tenantId collection documentId : String) (value : V)
    (options : DocumentWriteOptions) : Call Write Unit (Result Unit) := do
  let requestId ← documentRequestId collection options
  match transpose (options.nodeBinding.map fun binding =>
      buildNodeBindingRequest encoder tenantId collection documentId binding requestId) with
  | .error e => return .error e
  | .ok nodeRequest =>
    match buildPutDocRequest encoder tenantId collection documentId value requestId with
    | .error e => return .error e
    | .ok request =>
      match ← client.unary "failed to upsert document" (.putDoc request) with
      | .error e => return .error e
      | .ok () =>
        match nodeRequest with
        | none => return .ok ()
        | some nodeRequest =>
          match ← client.unary "failed to upsert graph node binding" (.putNode nodeRequest) with
          | .error e => return .error e
          | .ok () => return .ok ()

end Client

/-! ## A server that deduplicates -/

/-- What a write is recognised by: tenant, operation, target and request id. -/
abbrev WriteKey := String × String × (String × String) × String

/-- The key of a write. -/
def Write.dedupKey : Write → WriteKey
  | putDoc r => (r.tenantId, "PutDoc", (r.collection, r.id), r.requestId)
  | putNode r => (r.tenantId, "PutNode", (r.graph, r.nodeId), r.requestId)

/-- What the server remembers: the keys it has applied. `applied` lists what it has applied since it was looked at first and is
not read. -/
structure WriteStore where
  seen : List WriteKey
  applied : List Write

/-- It applies a write unless it has applied one with its key. -/
def WriteStore.handle (store : WriteStore) (w : Write) : WriteStore :=
  if w.dedupKey ∈ store.seen then store
  else { seen := w.dedupKey :: store.seen, applied := store.applied ++ [w] }

/-- A write, if its key is known. -/
def WriteStore.known (store : WriteStore) (w : Write) : List Write := if w.dedupKey ∈ store.seen then [w] else []

/-- The write an entry of a record sent. -/
def Entry.write? : Entry Write Unit → Option Write
  | .sent request _ => some request.message
  | _ => none

/-- The writes a record has sent. -/
def writesOf (history : List (Entry Write Unit)) : List Write := history.filterMap Entry.write?

/-- What a call shares with the server: the manager and the record of what it has sent, and the store. -/
structure Served where
  shared : Shared Write Unit
  store : WriteStore

namespace Served

/-- What everything else can do: steps of the manager, and the server handles writes, any number of times and in any order. These
are writes that have been sent, however long ago, or come from others. -/
def env (others : Write → Prop) (s t : Served) : Prop :=
  s.shared.env t.shared ∧
    Transition.Run (fun (store : WriteStore) w => some (store.handle w))
      (fun _ w => w ∈ writesOf s.shared.history ∨ others w) s.store t.store

/-- Whether an operation's answer is the server's acknowledgement. -/
def Acknowledges : (op : Op Write) → Ans Write Unit op → Prop
  | .answer, answer => answer = .ok ()
  | .answerWithin _, answer => answer = some (.ok ())
  | _, _ => False

/-- What an operation of a call can do: the server acknowledges the write sent last only once it knows its key. It may answer
anything else at any time, or nothing. -/
def act (client : Client) (op : Op Write) (s : Served) (answer : Ans Write Unit op) (t : Served) : Prop :=
  client.act op s.shared answer t.shared ∧ t.store = s.store ∧
    (Acknowledges op answer → ∃ w, (writesOf s.shared.history).getLast? = some w ∧ w.dedupKey ∈ s.store.seen)

end Served

end RociaSdk

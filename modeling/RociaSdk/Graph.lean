import RociaSdk.Error
import RociaSdk.Lib.Exchange

/-!
# Batches of nodes and edges

`put_nodes` and `add_edges` (`graph.rs`): a batch is encoded as a whole, its requests are split into groups by the id they write
to, and the groups are dispatched ten at a time. The type `V` of property values and their JSON encoding are parameters, and so
is the order in which the `HashMap` gives its groups. A server that refuses a taken triplet and one that deduplicates on request
ids are described at the end.
-/

namespace RociaSdk

open Dispatching

/-- `CONCURRENT_REQUESTS`. -/
def concurrentRequests : Nat := 10

/-! ## Requests -/

variable {V : Type}

/-- `NodeInput`. -/
structure NodeInput (V : Type) where
  nodeId : String
  value : V
  requestId : Option String

/-- `EdgeInput`: an edge `from` one node `to` another. -/
structure EdgeInput (V : Type) where
  edgeId : String
  fromNode : String
  toNode : String
  label : String
  value : V
  requestId : Option String

/-- `PutNodeRequest`. -/
structure PutNodeRequest where
  tenantId : String
  graph : String
  nodeId : String
  json : List UInt8
  requestId : String
deriving DecidableEq, Repr

/-- `AddEdgeRequest`. -/
structure AddEdgeRequest where
  tenantId : String
  graph : String
  edgeId : String
  fromNode : String
  toNode : String
  label : String
  json : List UInt8
  requestId : String
deriving DecidableEq, Repr

/-- `encode_context`: a failed encoding under what was being encoded. -/
def encodeContext {α : Type} (context : String) : Except String α → Result α
  | .ok a => .ok a
  | .error source => .error (.encode context source)

/-- `default_put_node_request_id`, on the UUID drawn. -/
def defaultPutNodeRequestId (uuid : String) : String := "put_node:" ++ uuid

/-- `default_add_edge_request_id`, on the UUID drawn. -/
def defaultAddEdgeRequestId (uuid : String) : String := "add_edge:" ++ uuid

/-- `build_put_node_request`. -/
def buildPutNodeRequest (encode : V → Except String (List UInt8)) (tenantId graph : String) (uuid : String)
    (node : NodeInput V) : Result PutNodeRequest := do
  let json ← encodeContext "node json" (encode node.value)
  return {
    tenantId := tenantId
    graph := graph
    nodeId := node.nodeId
    json := json
    requestId := node.requestId.getD (defaultPutNodeRequestId uuid) }

/-- `build_add_edge_request`. -/
def buildAddEdgeRequest (encode : V → Except String (List UInt8)) (tenantId graph : String) (uuid : String)
    (edge : EdgeInput V) : Result AddEdgeRequest := do
  let json ← encodeContext "edge json" (encode edge.value)
  return {
    tenantId := tenantId
    graph := graph
    edgeId := edge.edgeId
    fromNode := edge.fromNode
    toNode := edge.toNode
    label := edge.label
    json := json
    requestId := edge.requestId.getD (defaultAddEdgeRequestId uuid) }

/-- Build the requests of a batch in its order, each on a UUID of its own, up to the first that cannot be built. -/
def buildRequests {α β : Type} (build : String → α → Result β) (uuids : Nat → String) : Nat → List α → Result (List β)
  | _, [] => .ok []
  | index, item :: rest => do
    let request ← build (uuids index) item
    let requests ← buildRequests build uuids (index + 1) rest
    return request :: requests

/-- `build_put_node_requests`. -/
def buildPutNodeRequests (encode : V → Except String (List UInt8)) (uuids : Nat → String) (tenantId graph : String)
    (nodes : List (NodeInput V)) : Result (List PutNodeRequest) :=
  buildRequests (buildPutNodeRequest encode tenantId graph) uuids 0 nodes

/-- `build_add_edge_requests`. -/
def buildAddEdgeRequests (encode : V → Except String (List UInt8)) (uuids : Nat → String) (tenantId graph : String)
    (edges : List (EdgeInput V)) : Result (List AddEdgeRequest) :=
  buildRequests (buildAddEdgeRequest encode tenantId graph) uuids 0 edges

/-! ## Groups -/

/-- The `HashMap` of groups: what is under each key that has an entry. -/
abbrev Groups (ι : Type) := String → Option (List ι)

/-- `groups.entry(key).or_default().push(item)`. -/
def Groups.push {ι : Type} (groups : Groups ι) (key : String) (item : ι) : Groups ι :=
  Function.update groups key (some ((groups key).getD [] ++ [item]))

/-- `group_preserving_order`, up to the order in which the map gives its values. -/
def groupPreservingOrder {ι : Type} (items : List ι) (key : ι → String) : Groups ι :=
  items.foldl (fun groups item => groups.push (key item) item) fun _ => none

/-- An order in which the map may give its groups, by their keys: each key that has an entry comes once. -/
structure Groups.IsOrder {ι : Type} (groups : Groups ι) (order : List String) : Prop where
  nodup : order.Nodup
  mem_iff : ∀ key, key ∈ order ↔ (groups key).isSome = true

/-- `groups.into_values().collect()`, in such an order. -/
def Groups.intoValues {ι : Type} (groups : Groups ι) (order : List String) : List (List ι) := order.filterMap groups

/-! ## Batches -/

/-- What both batches do with their requests: refuse to send any if one could not be built, and dispatch the groups of those
that share a key otherwise. -/
def dispatchBatch {ι : Type} (key : ι → String) (order : List String) : Result (List ι) → Dispatch String ι RociaDbError
  | .error e => .refused e
  | .ok requests => .new order fun k => (groupPreservingOrder requests key k).getD []

/-- `put_nodes`. -/
def putNodes (encode : V → Except String (List UInt8)) (uuids : Nat → String) (tenantId graph : String)
    (nodes : List (NodeInput V)) (order : List String) : Dispatch String PutNodeRequest RociaDbError :=
  dispatchBatch PutNodeRequest.nodeId order (buildPutNodeRequests encode uuids tenantId graph nodes)

/-- `add_edges`. -/
def addEdges (encode : V → Except String (List UInt8)) (uuids : Nat → String) (tenantId graph : String)
    (edges : List (EdgeInput V)) (order : List String) : Dispatch String AddEdgeRequest RociaDbError :=
  dispatchBatch AddEdgeRequest.edgeId order (buildAddEdgeRequests encode uuids tenantId graph edges)

/-! ## A server that refuses a taken triplet -/

/-- An edge as the server holds it. -/
structure StoredEdge where
  fromNode : String
  toNode : String
  label : String
  json : List UInt8
deriving DecidableEq, Repr

/-- The triplet of an edge. -/
def StoredEdge.triplet (edge : StoredEdge) : String × String × String := (edge.fromNode, edge.label, edge.toNode)

/-- The triplet an item of a batch is for. -/
def EdgeInput.triplet (edge : EdgeInput V) : String × String × String := (edge.fromNode, edge.label, edge.toNode)

/-- The edge an `AddEdge` is for. -/
def AddEdgeRequest.edge (r : AddEdgeRequest) : StoredEdge := ⟨r.fromNode, r.toNode, r.label, r.json⟩

/-- The edges of a server, by tenant, graph and id. -/
abbrev EdgeStore := String × String × String → Option StoredEdge

/-- The triplet an edge holds. -/
def EdgeStore.tripletAt (store : EdgeStore) (tenantId graph edgeId : String) : Option (String × String × String) :=
  (store (tenantId, graph, edgeId)).map StoredEdge.triplet

/-- Another edge of the graph holds the triplet. -/
def EdgeStore.Taken (store : EdgeStore) (r : AddEdgeRequest) : Prop :=
  ∃ edgeId, edgeId ≠ r.edgeId ∧ store.tripletAt r.tenantId r.graph edgeId = some r.edge.triplet

/-- The edge is set, whatever it was before. -/
def EdgeStore.insert (store : EdgeStore) (r : AddEdgeRequest) : EdgeStore :=
  Function.update store (r.tenantId, r.graph, r.edgeId) (some r.edge)

/-- `ALREADY_EXISTS`, as the client reports it. -/
def alreadyExists (r : AddEdgeRequest) : RociaDbError :=
  .status "failed to add edge"
    ⟨.alreadyExists, "an edge already connects " ++ r.fromNode ++ " -" ++ r.label ++ "-> " ++ r.toNode, false⟩

open Classical in
/-- It refuses a triplet that another edge holds and sets the edge otherwise. The endpoints of every edge exist. -/
noncomputable def uniqueTriplets : Service EdgeStore AddEdgeRequest RociaDbError where
  handle store r := if store.Taken r then (store, .error (alreadyExists r)) else (store.insert r, .ok ())

/-! ## A server that deduplicates -/

/-- The key under which a `PutNode` is recognised as applied: tenant, operation, target and request id. -/
def PutNodeRequest.dedupKey (r : PutNodeRequest) : String × String × String × String :=
  (r.tenantId, "PutNode", r.nodeId, r.requestId)

/-- A store of nodes, by tenant, graph and id, with the keys it has applied. `applied` lists what it has applied since it was
looked at first and is not read. -/
structure NodeStore where
  seen : List (String × String × String × String)
  nodes : String × String × String → Option (List UInt8)
  applied : List PutNodeRequest

/-- It applies a `PutNode` unless it has applied one with its key, and acknowledges it either way. -/
def dedup : Service NodeStore PutNodeRequest RociaDbError where
  handle store r :=
    if r.dedupKey ∈ store.seen then (store, .ok ())
    else
      ({ seen := r.dedupKey :: store.seen
         nodes := Function.update store.nodes (r.tenantId, r.graph, r.nodeId) (some r.json)
         applied := store.applied ++ [r] }, .ok ())

/-- What can happen while a batch of nodes is run and run again. -/
inductive ResumeEvent where
  | exchange (e : Exchange.Event String RociaDbError)
  /-- The batch is run again, on new UUIDs and with its groups in some order. -/
  | replay (uuids : Nat → String) (order : List String)

/-- What such an event does: a batch is run again after a run that failed or was dropped. Requests in flight at that moment are
still on their way. -/
def resumeStep (encode : V → Except String (List UInt8)) (tenantId graph : String) (nodes : List (NodeInput V))
    (x : Exchange String PutNodeRequest RociaDbError NodeStore) :
    ResumeEvent → Option (Exchange String PutNodeRequest RociaDbError NodeStore)
  | .exchange e => x.step concurrentRequests dedup e
  | .replay uuids order =>
    match x.client.status with
    | .live => none
    | .returned (.ok ()) => none
    | _ => some { x with client := putNodes encode uuids tenantId graph nodes order, response := fun _ => none }

end RociaSdk

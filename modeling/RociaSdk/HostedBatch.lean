import RociaSdk.Graph
import RociaSdk.Lib.Resumption
import RociaSdk.ServerRun

/-!
# Batches on the server

`put_nodes` and `add_edges` against the server of the tests, which others use at the same time, and run again until they return `Ok`.
The server is given by the events there have been since some state: the calls of the batch and whatever else has happened.
-/

namespace RociaSdk

namespace Server

open Dispatching

variable {ι V : Type}

/-- How the server answers the items of a batch, each a write call that is let in or not by the token it carries, which may be another
one each time. -/
def batchService (s : State) (token : List Event → Option String) (operation : String) (call : ι → WriteCall) :
    Service (List Event) ι RociaDbError where
  handle events item :=
    (events ++ [.call (token events) (call item)],
      statusContext operation ((call item).handle (token events) (s.run events)).1)

/-- One more event at the server. -/
def happens (events : List Event) (event : Event) : List Event := events ++ [event]

/-- The items of `put_nodes`. -/
def nodesService (s : State) (token : List Event → Option String) : Service (List Event) PutNodeRequest RociaDbError :=
  batchService s token "failed to upsert node" .putNode

/-- The items of `add_edges`. -/
def edgesService (s : State) (token : List Event → Option String) : Service (List Event) AddEdgeRequest RociaDbError :=
  batchService s token "failed to add edge" .addEdge

/-! ## Markers -/

/-- The marker an item of a batch of nodes lands under, if it has a request id of its own. -/
def nodeMarker (tenantId graph : String) (node : NodeInput V) : Option RequestMarker :=
  node.requestId.bind fun requestId => requestMarker requestId "PutNode" (tenantId, graph, node.nodeId)

/-- The marker an item of a batch of edges lands under, if it has a request id of its own. -/
def edgeMarker (tenantId graph : String) (edge : EdgeInput V) : Option RequestMarker :=
  edge.requestId.bind fun requestId => requestMarker requestId "AddEdge" (tenantId, graph, edge.edgeId)

/-- The items of a batch can be told apart by their markers, and none of these was applied before. -/
structure Markable (s : State) (marker : ι → Option RequestMarker) (items : List ι) : Prop where
  marked : ∀ item ∈ items, (marker item).isSome = true
  distinct : (items.map marker).Nodup
  fresh : ∀ item ∈ items, ∀ m ∈ marker item, m ∉ s.appliedRequests

/-- An event that is not a call under the marker of an item of the batch. -/
def Event.Spares (marker : ι → Option RequestMarker) (items : List ι) (event : Event) : Prop :=
  ∀ authorization write, event = .call authorization write → ∀ item ∈ items, write.marker ≠ marker item

/-- What may happen while a batch is run: others make no call under the markers of its items, and it is run again as it was, with its
groups in some order. -/
def MayHappen {ι' : Type} (marker : ι → Option RequestMarker) (items : List ι) (again : Dispatch String ι' RociaDbError → Prop)
    (_ : Exchange String ι' RociaDbError (List Event)) : Resumption.Event String ι' RociaDbError Event → Prop
  | .other event => event.Spares marker items
  | .again client => again client
  | _ => True

/-! ## What has landed -/

/-- The `PutNode` of a write call. -/
def WriteCall.node? : WriteCall → Option PutNodeRequest
  | putNode r => some r
  | _ => none

/-- The `AddEdge` of a write call. -/
def WriteCall.edge? : WriteCall → Option AddEdgeRequest
  | addEdge r => some r
  | _ => none

/-- The items of a batch that have landed, in the order they did. -/
def landedItems [DecidableEq ι] (item? : WriteCall → Option ι) (requests : List ι) (s : State) (events : List Event) : List ι :=
  ((s.landed events).filterMap item?).filter fun r => r ∈ requests

/-- What the runs of a batch have come to: of the items with a key the first have landed, in the caller's order and none twice, and all
of them once a run has returned `Ok`. -/
structure LandsInOrder (keyOf : ι → String) (requests landed : List ι) (status : Dispatching.Status RociaDbError) : Prop where
  once : landed.Nodup
  isPrefix : ∀ k, (landed.filter fun r => keyOf r = k) <+: requests.filter fun r => keyOf r = k
  all : status = .returned (.ok ()) → ∀ k, (landed.filter fun r => keyOf r = k) = requests.filter fun r => keyOf r = k

end Server

end RociaSdk

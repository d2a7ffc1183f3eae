import RociaSdk.Lemmas.HostedBatchAux
import RociaSdk.Theorems.Reads

/-!
# Resuming batches on the server

The recipe of `docs/graph.md` for a batch that has failed is to run it again with the same request ids. Against the server, and
whatever others do there meanwhile, every item of `put_nodes` (`put_nodes_resumed`) and of `add_edges` (`add_edges_resumed`) then
lands once, those of one id in the caller's order.
-/

namespace RociaSdk

namespace Server

open Dispatching BatchAux HostedBatchAux ReadAux

variable {V : Type}

/-- The batch of nodes, in an order in which its groups may come. -/
def RunsNodes (encode : V → Except String (List UInt8)) (tenantId graph : String) (nodes : List (NodeInput V))
    (client : Dispatch String PutNodeRequest RociaDbError) : Prop :=
  ∃ uuids order, client = putNodes encode uuids tenantId graph nodes order ∧
    ∀ requests, buildPutNodeRequests encode uuids tenantId graph nodes = .ok requests →
      (groupPreservingOrder requests PutNodeRequest.nodeId).IsOrder order

/-- The batch of edges, in an order in which its groups may come. -/
def RunsEdges (encode : V → Except String (List UInt8)) (tenantId graph : String) (edges : List (EdgeInput V))
    (client : Dispatch String AddEdgeRequest RociaDbError) : Prop :=
  ∃ uuids order, client = addEdges encode uuids tenantId graph edges order ∧
    ∀ requests, buildAddEdgeRequests encode uuids tenantId graph edges = .ok requests →
      (groupPreservingOrder requests AddEdgeRequest.edgeId).IsOrder order

/-- Nothing but the batch has landed for what an item of it is for. -/
def OnlyBatch {ι β : Type} (word : WriteCall → Option β) (call : ι → WriteCall) (requests : List ι) (landed : List WriteCall) : Prop :=
  ∀ write ∈ landed, word write ≠ none → ∃ r ∈ requests, write = call r

namespace HostedBatchAux

variable {ι β : Type} [DecidableEq ι] {s : State} {events : List Event} {item? : WriteCall → Option ι} {requests : List ι}
  {keyOf : ι → String} {call : ι → WriteCall} {k : String}

/-- What the last item of a batch says that has landed for a key, if nothing else says anything of it. -/
theorem lastSaid_landed {word : WriteCall → Option β} {value : ι → β}
    (hitem : ∀ write r, item? write = some r ↔ write = call r)
    (hword : ∀ r ∈ requests, word (call r) = if keyOf r = k then some (value r) else none)
    (honly : OnlyBatch word call requests (s.landed events)) :
    lastSaid word (s.landed events) =
      (((landedItems item? requests s events).filter fun r => keyOf r = k).getLast?).map value := by
  have heach : ∀ write ∈ s.landed events,
      word write = (((item? write).filter fun r => r ∈ requests).filter fun r => keyOf r = k).map value := by
    intro write hwrite
    cases hr : (item? write).filter fun r => r ∈ requests with
    | none =>
      by_contra hne
      obtain ⟨r, hr', rfl⟩ := honly write hwrite (by simpa using hne)
      simp [(hitem (call r) r).2 rfl, hr'] at hr
    | some r =>
      obtain ⟨hsome, hmem⟩ := Option.filter_eq_some_iff.1 hr
      rw [(hitem write r).1 hsome, hword r (by simpa using hmem)]
      by_cases hk : keyOf r = k <;> simp [hk]
  unfold lastSaid landedItems
  rw [← List.getLast?_filterMap, List.filterMap_congr heach, ← List.getLast?_map, List.filter_filterMap, List.filter_filterMap,
    List.map_filterMap]

omit [DecidableEq ι] in
/-- What the last item says is what is left, if there is an item. -/
theorem last_of_mem {value : ι → β} {before : Option β} {r : ι} (hr : r ∈ requests) :
    ((((requests.filter fun r' => keyOf r' = keyOf r).getLast?).map fun r' => some (value r')).getD before) =
      ((requests.filter fun r' => keyOf r' = keyOf r).getLast?).map value := by
  have hne : (requests.filter fun r' => keyOf r' = keyOf r) ≠ [] := List.ne_nil_of_mem (List.mem_filter.2 ⟨hr, by simp⟩)
  rw [List.getLast?_eq_some_getLast hne]
  rfl

/-- The request of a node lands under the marker of the item. -/
theorem node_marker {encode : V → Except String (List UInt8)} {tenantId graph uuid : String} {node : NodeInput V}
    {request : PutNodeRequest} (hmarked : (nodeMarker tenantId graph node).isSome = true)
    (h : buildPutNodeRequest encode tenantId graph uuid node = .ok request) :
    (WriteCall.putNode request).marker = nodeMarker tenantId graph node := by
  obtain ⟨json, -, heq⟩ := bind_ok h
  cases heq
  cases hid : node.requestId with
  | none => simp [nodeMarker, hid] at hmarked
  | some id => simp [nodeMarker, WriteCall.marker, hid]

/-- The request of an edge lands under the marker of the item. -/
theorem edge_marker {encode : V → Except String (List UInt8)} {tenantId graph uuid : String} {edge : EdgeInput V}
    {request : AddEdgeRequest} (hmarked : (edgeMarker tenantId graph edge).isSome = true)
    (h : buildAddEdgeRequest encode tenantId graph uuid edge = .ok request) :
    (WriteCall.addEdge request).marker = edgeMarker tenantId graph edge := by
  obtain ⟨json, -, heq⟩ := bind_ok h
  cases heq
  cases hid : edge.requestId with
  | none => simp [edgeMarker, hid] at hmarked
  | some id => simp [edgeMarker, WriteCall.marker, hid]

/-- A batch of nodes is built the same on other UUIDs. -/
theorem nodes_congr {encode : V → Except String (List UInt8)} {tenantId graph : String} {nodes : List (NodeInput V)}
    (hmarked : ∀ node ∈ nodes, (nodeMarker tenantId graph node).isSome = true) (uuids uuids' : Nat → String) :
    buildPutNodeRequests encode uuids tenantId graph nodes = buildPutNodeRequests encode uuids' tenantId graph nodes := by
  refine buildRequests_congr 0 uuids' ?_
  intro node hnode uuid uuid'
  have hid := hmarked node hnode
  cases hsome : node.requestId with
  | none => simp [nodeMarker, hsome] at hid
  | some id => simp [buildPutNodeRequest, hsome]

/-- A batch of edges is built the same on other UUIDs. -/
theorem edges_congr {encode : V → Except String (List UInt8)} {tenantId graph : String} {edges : List (EdgeInput V)}
    (hmarked : ∀ edge ∈ edges, (edgeMarker tenantId graph edge).isSome = true) (uuids uuids' : Nat → String) :
    buildAddEdgeRequests encode uuids tenantId graph edges = buildAddEdgeRequests encode uuids' tenantId graph edges := by
  refine buildRequests_congr 0 uuids' ?_
  intro edge hedge uuid uuid'
  have hid := hmarked edge hedge
  cases hsome : edge.requestId with
  | none => simp [edgeMarker, hsome] at hid
  | some id => simp [buildAddEdgeRequest, hsome]

/-- The requests of a batch of nodes are for its graph. -/
theorem nodes_target {encode : V → Except String (List UInt8)} {uuids : Nat → String} {tenantId graph : String}
    {nodes : List (NodeInput V)} {requests : List PutNodeRequest}
    (hbuild : buildPutNodeRequests encode uuids tenantId graph nodes = .ok requests) :
    ∀ r ∈ requests, (r.tenantId, r.graph) = (tenantId, graph) := by
  refine buildRequests_forall 0 ?_ hbuild
  intro node _ uuid request h
  obtain ⟨json, -, heq⟩ := bind_ok h
  cases heq
  rfl

/-- The requests of a batch of edges are for its graph. -/
theorem edges_target {encode : V → Except String (List UInt8)} {uuids : Nat → String} {tenantId graph : String}
    {edges : List (EdgeInput V)} {requests : List AddEdgeRequest}
    (hbuild : buildAddEdgeRequests encode uuids tenantId graph edges = .ok requests) :
    ∀ r ∈ requests, (r.tenantId, r.graph) = (tenantId, graph) := by
  refine buildRequests_forall 0 ?_ hbuild
  intro edge _ uuid request h
  obtain ⟨json, -, heq⟩ := bind_ok h
  cases heq
  rfl

theorem nodes_markers {encode : V → Except String (List UInt8)} {uuids : Nat → String} {tenantId graph : String}
    {nodes : List (NodeInput V)} {requests : List PutNodeRequest}
    (hmarked : ∀ node ∈ nodes, (nodeMarker tenantId graph node).isSome = true)
    (hbuild : buildPutNodeRequests encode uuids tenantId graph nodes = .ok requests) :
    requests.map (fun r => (WriteCall.putNode r).marker) = nodes.map (nodeMarker tenantId graph) :=
  buildRequests_map 0 (fun node hnode _ _ h => node_marker (hmarked node hnode) h) hbuild

theorem edges_markers {encode : V → Except String (List UInt8)} {uuids : Nat → String} {tenantId graph : String}
    {edges : List (EdgeInput V)} {requests : List AddEdgeRequest}
    (hmarked : ∀ edge ∈ edges, (edgeMarker tenantId graph edge).isSome = true)
    (hbuild : buildAddEdgeRequests encode uuids tenantId graph edges = .ok requests) :
    requests.map (fun r => (WriteCall.addEdge r).marker) = edges.map (edgeMarker tenantId graph) :=
  buildRequests_map 0 (fun edge hedge _ _ h => edge_marker (hmarked edge hedge) h) hbuild

theorem node?_eq_some_iff (write : WriteCall) (r : PutNodeRequest) : write.node? = some r ↔ write = .putNode r := by
  cases write <;> simp [WriteCall.node?]

theorem edge?_eq_some_iff (write : WriteCall) (r : AddEdgeRequest) : write.edge? = some r ↔ write = .addEdge r := by
  cases write <;> simp [WriteCall.edge?]

end HostedBatchAux

/-- A batch of nodes on a server in any state, each item with a request id, those of one node distinct, and none of them applied
before. Whatever the runs of the batch, the requests that are sent twice, and what others do that make no call under these request
ids: of the items of a node the first have landed, in order and none twice; and from the moment a run returns `Ok` all of them, so
that a node that nothing else has written holds the JSON of its last item. A batch that cannot be built sends nothing. -/
theorem put_nodes_resumed (encode : V → Except String (List UInt8)) (tenantId graph : String) (nodes : List (NodeInput V)) (s : State)
    (hmarks : Markable s (nodeMarker tenantId graph) nodes) (token : List Event → Option String)
    {client : Dispatch String PutNodeRequest RociaDbError} (hclient : RunsNodes encode tenantId graph nodes client)
    {x : Exchange String PutNodeRequest RociaDbError (List Event)}
    (hrun : Transition.Run (Resumption.step concurrentRequests (nodesService s token) happens)
      (MayHappen (nodeMarker tenantId graph) nodes (RunsNodes encode tenantId graph nodes)) (.new client []) x) :
    match buildPutNodeRequests encode (fun _ => "") tenantId graph nodes with
    | .error e => x.client = .refused e ∧ x.stale = []
    | .ok requests =>
      LandsInOrder PutNodeRequest.nodeId requests (landedItems WriteCall.node? requests s x.server) x.client.status ∧
        (x.client.status = .returned (.ok ()) → ∀ r ∈ requests,
          OnlyBatch (WriteCall.saysNode (tenantId, graph) r.nodeId) .putNode requests (s.landed x.server) →
          (s.run x.server).store.nodes.find? (tenantId, graph) r.nodeId =
            ((requests.filter fun r' => r'.nodeId = r.nodeId).getLast?).map PutNodeRequest.json) := by
  have hresumed := resumed_build PutNodeRequest.nodeId (fun uuids => nodes_congr hmarks.marked uuids fun _ => "")
    node?_eq_some_iff (fun _ => nodes_markers hmarks.marked) hmarks (fun _ hagain => hagain) hclient hrun
  cases hbuild : buildPutNodeRequests encode (fun _ => "") tenantId graph nodes with
  | error e =>
    rw [hbuild] at hresumed
    exact hresumed
  | ok requests =>
    rw [hbuild] at hresumed
    refine ⟨hresumed, fun hok r hr honly => ?_⟩
    have hword : ∀ r' ∈ requests, WriteCall.saysNode (tenantId, graph) r.nodeId (.putNode r') =
        if r'.nodeId = r.nodeId then some (some r'.json) else none := by
      intro r' hr'
      simp [WriteCall.saysNode, nodes_target hbuild r' hr']
    rw [run_view (fun store => store.nodes.find? (tenantId, graph) r.nodeId) _ (fun _ _ _ => node_apply),
      lastSaid_landed node?_eq_some_iff hword honly, hresumed.all hok]
    exact last_of_mem hr

/-- The same of a batch of edges. The server may refuse an item, because an endpoint is missing or another edge has its triplet, which
ends a run; when the batch has returned `Ok`, every item has landed, and an edge that nothing else has written is its last item. -/
theorem add_edges_resumed (encode : V → Except String (List UInt8)) (tenantId graph : String) (edges : List (EdgeInput V)) (s : State)
    (hmarks : Markable s (edgeMarker tenantId graph) edges) (token : List Event → Option String)
    {client : Dispatch String AddEdgeRequest RociaDbError} (hclient : RunsEdges encode tenantId graph edges client)
    {x : Exchange String AddEdgeRequest RociaDbError (List Event)}
    (hrun : Transition.Run (Resumption.step concurrentRequests (edgesService s token) happens)
      (MayHappen (edgeMarker tenantId graph) edges (RunsEdges encode tenantId graph edges)) (.new client []) x) :
    match buildAddEdgeRequests encode (fun _ => "") tenantId graph edges with
    | .error e => x.client = .refused e ∧ x.stale = []
    | .ok requests =>
      LandsInOrder AddEdgeRequest.edgeId requests (landedItems WriteCall.edge? requests s x.server) x.client.status ∧
        (x.client.status = .returned (.ok ()) → ∀ r ∈ requests,
          OnlyBatch (WriteCall.saysEdge (tenantId, graph) r.edgeId) .addEdge requests (s.landed x.server) →
          (s.run x.server).store.edges.find? (tenantId, graph) r.edgeId =
            ((requests.filter fun r' => r'.edgeId = r.edgeId).getLast?).map AddEdgeRequest.edge) := by
  have hresumed := resumed_build AddEdgeRequest.edgeId (fun uuids => edges_congr hmarks.marked uuids fun _ => "")
    edge?_eq_some_iff (fun _ => edges_markers hmarks.marked) hmarks (fun _ hagain => hagain) hclient hrun
  cases hbuild : buildAddEdgeRequests encode (fun _ => "") tenantId graph edges with
  | error e =>
    rw [hbuild] at hresumed
    exact hresumed
  | ok requests =>
    rw [hbuild] at hresumed
    refine ⟨hresumed, fun hok r hr honly => ?_⟩
    have hword : ∀ r' ∈ requests, WriteCall.saysEdge (tenantId, graph) r.edgeId (.addEdge r') =
        if r'.edgeId = r.edgeId then some (some r'.edge) else none := by
      intro r' hr'
      simp [WriteCall.saysEdge, edges_target hbuild r' hr']
    rw [run_view (fun store => store.edges.find? (tenantId, graph) r.edgeId) _ (fun _ _ _ => edge_apply),
      lastSaid_landed edge?_eq_some_iff hword honly, hresumed.all hok]
    exact last_of_mem hr

namespace HostedBatchAux

/-- Two items of one node. -/
def twoItems : List (NodeInput UInt8) := [⟨"a", 1, some "first"⟩, ⟨"a", 2, some "second"⟩]

/-- Bytes are encoded as they are. -/
def encodeByte (value : UInt8) : Except String (List UInt8) := .ok [value]

/-- The batch of them. -/
def twoItemsBatch : Dispatch String PutNodeRequest RociaDbError := putNodes encodeByte (fun _ => "") "t" "g" twoItems ["a"]

/-- A call of another client, for another node. -/
def otherNode : Event :=
  .call none (.putNode { requestId := "first", tenantId := "t", graph := "g", nodeId := "b", json := [] })

/-- A first run is dropped with its first item in flight, which lands after another client has written another node, while the batch is
run again; the answer to the first item is then lost, and it is sent once more. -/
def lateLanding : List (Resumption.Event String PutNodeRequest RociaDbError Event) :=
  [.exchange .start, .exchange (.issue "a"), .exchange .drop,
    .other otherNode, .again twoItemsBatch, .exchange .start, .exchange (.issue "a"), .exchange (.land 0), .exchange (.handle "a"), .resend "a",
    .exchange (.handle "a"), .exchange (.respond "a"), .exchange (.issue "a"), .exchange (.handle "a"), .exchange (.respond "a"),
    .exchange (.finish "a"), .exchange .complete]

/-- The one group of the batch comes first. -/
theorem twoItems_runs : RunsNodes encodeByte "t" "g" twoItems twoItemsBatch := by
  refine ⟨fun _ => "", ["a"], rfl, ?_⟩
  intro requests hbuild
  cases hbuild
  exact isOrder_of_keys (List.nodup_singleton _) (by simp)

end HostedBatchAux

/-- Both items land, each once and in their order. -/
theorem put_nodes_resumed_late :
    ∃ x, Transition.exec (Resumption.step concurrentRequests (nodesService .default fun _ => none) happens)
        (.new twoItemsBatch []) lateLanding = some x ∧
      x.client.status = .returned (.ok ()) ∧
      (landedItems WriteCall.node? [⟨"t", "g", "a", [1], "first"⟩, ⟨"t", "g", "a", [2], "second"⟩] .default x.server).filter
          (fun r => r.nodeId = "a") = [⟨"t", "g", "a", [1], "first"⟩, ⟨"t", "g", "a", [2], "second"⟩] := by
  have hexec : Transition.exec (Resumption.step concurrentRequests (nodesService .default fun _ => none) happens)
      (.new twoItemsBatch []) lateLanding = some _ := rfl
  refine ⟨_, hexec, rfl, (put_nodes_resumed encodeByte "t" "g" twoItems .default
    ⟨by decide, by decide, fun _ _ _ _ => Finset.notMem_empty _⟩ (fun _ => none) twoItems_runs
    (Transition.run_of_exec hexec ?_)).1.all rfl "a"⟩
  intro e he u
  cases e with
  | exchange e => trivial
  | resend key => trivial
  | other event =>
    obtain rfl : event = otherNode := by simpa [lateLanding] using he
    rintro authorization write heq item hitem
    cases heq
    revert item
    decide
  | again client =>
    obtain rfl : client = twoItemsBatch := by simpa [lateLanding] using he
    exact twoItems_runs

namespace HostedBatchAux

/-- A server with two nodes. -/
def twoNodes : State :=
  (State.start false).run (["a", "b"].map fun nodeId =>
    .call none (.putNode { requestId := "", tenantId := "t", graph := "g", nodeId := nodeId, json := [] }))

/-- Two items of one edge, the second one to a node that is not there. -/
def edgeItems : List (EdgeInput UInt8) := [⟨"e", "a", "b", "knows", 1, some "first"⟩, ⟨"e", "a", "c", "knows", 2, some "second"⟩]

/-- The batch of them. -/
def edgeItemsBatch : Dispatch String AddEdgeRequest RociaDbError := addEdges encodeByte (fun _ => "") "t" "g" edgeItems ["e"]

/-- Another client writes the node. -/
def endpointNode : Event := .call none (.putNode { requestId := "", tenantId := "t", graph := "g", nodeId := "c", json := [] })

/-- A first run whose first item lands and whose second one is refused because its endpoint is missing. -/
def refusedRun : List (Resumption.Event String AddEdgeRequest RociaDbError Event) :=
  [.exchange .start, .exchange (.issue "e"), .exchange (.handle "e"), .exchange (.respond "e"), .exchange (.issue "e"),
    .exchange (.handle "e"), .exchange (.respond "e")]

/-- The node is written, and the batch is run again. -/
def resumedRun : List (Resumption.Event String AddEdgeRequest RociaDbError Event) :=
  [.other endpointNode, .again edgeItemsBatch, .exchange .start, .exchange (.issue "e"), .exchange (.handle "e"),
    .exchange (.respond "e"), .exchange (.issue "e"), .exchange (.handle "e"), .exchange (.respond "e"), .exchange (.finish "e"),
    .exchange .complete]

/-- Its one group comes first. -/
theorem edgeItems_runs : RunsEdges encodeByte "t" "g" edgeItems edgeItemsBatch := by
  refine ⟨fun _ => "", ["e"], rfl, ?_⟩
  intro requests hbuild
  cases hbuild
  exact isOrder_of_keys (List.nodup_singleton _) (by simp)

end HostedBatchAux

/-- The first run ends with the refusal of the second item. When the batch has been run again, both have landed, each once and in their
order. -/
theorem add_edges_resumed_refused :
    (∃ x e, Transition.exec (Resumption.step concurrentRequests (edgesService twoNodes fun _ => none) happens)
        (.new edgeItemsBatch []) refusedRun = some x ∧
      x.client.status = .returned (.error e) ∧ e.code = some .notFound) ∧
    ∃ x, Transition.exec (Resumption.step concurrentRequests (edgesService twoNodes fun _ => none) happens)
        (.new edgeItemsBatch []) (refusedRun ++ resumedRun) = some x ∧
      x.client.status = .returned (.ok ()) ∧
      (landedItems WriteCall.edge? [⟨"t", "g", "e", "a", "b", "knows", [1], "first"⟩, ⟨"t", "g", "e", "a", "c", "knows", [2], "second"⟩]
          twoNodes x.server).filter (fun r => r.edgeId = "e") =
        [⟨"t", "g", "e", "a", "b", "knows", [1], "first"⟩, ⟨"t", "g", "e", "a", "c", "knows", [2], "second"⟩] := by
  refine ⟨⟨_, _, rfl, rfl, rfl⟩, ?_⟩
  have hexec : Transition.exec (Resumption.step concurrentRequests (edgesService twoNodes fun _ => none) happens)
      (.new edgeItemsBatch []) (refusedRun ++ resumedRun) = some _ := rfl
  refine ⟨_, hexec, rfl, (add_edges_resumed encodeByte "t" "g" edgeItems twoNodes ⟨by decide, by decide, by decide⟩ (fun _ => none)
    edgeItems_runs (Transition.run_of_exec hexec ?_)).1.all rfl "e"⟩
  intro e he u
  cases e with
  | exchange e => trivial
  | resend key => trivial
  | other event =>
    obtain rfl : event = endpointNode := by simpa [refusedRun, resumedRun] using he
    rintro authorization write heq item hitem
    cases heq
    revert item
    decide
  | again client =>
    obtain rfl : client = edgeItemsBatch := by simpa [refusedRun, resumedRun] using he
    exact edgeItems_runs

end Server

end RociaSdk

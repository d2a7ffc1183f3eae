import RociaSdk.Lemmas.BatchAux

/-!
# The order of a batch

`put_nodes` and `add_edges` issue the writes of one id in the caller's order, each after the acknowledgement of the one before,
whatever order the map gives its groups in and however the groups, the server and the network take their steps.
-/

namespace RociaSdk

open Dispatching BatchAux

variable {V : Type}

/-- What a batch of these requests keeps to in its exchange with a server, wherever the exchange has come to. -/
structure KeepsOrder {ι σ : Type} (service : Service σ ι RociaDbError) (key : ι → String) (requests : List ι)
    (x : Exchange String ι RociaDbError σ) : Prop where
  /-- At most ten calls are in flight. -/
  flight_le : ∀ keys : List String, keys.Nodup → (∀ k ∈ keys, x.client.inFlight k = true) → keys.length ≤ 10
  /-- The writes issued for an id are the first of its items, in the caller's order. -/
  issued_isPrefix : ∀ k, x.client.issued k <+: requests.filter fun request => key request = k
  /-- At most one of them has not been acknowledged, the last. -/
  acked : ∀ k, x.client.issued k = x.client.acked k ∨ ∃ request, x.client.issued k = x.client.acked k ++ [request]
  /-- The next one is issued only once all before it have been acknowledged. -/
  issue_after_ack : ∀ k x', x.step concurrentRequests service (.issue k) = some x' → x.client.issued k = x.client.acked k
  /-- A call that fails ends the batch. -/
  failed : ∀ k e x', x.step concurrentRequests service (.lose k e) = some x' ∨
    x.response k = some (.error e) ∧ x.step concurrentRequests service (.respond k) = some x' →
      x'.client.status = .returned (.error e)
  /-- Once the batch has ended, nothing is issued any more. -/
  ended : x.client.status ≠ .live → ∀ x', Transition.Reaches (Exchange.step concurrentRequests service) x x' →
    x'.client.issued = x.client.issued
  /-- If it has returned `Ok`, every item was issued and acknowledged, and the server has accepted those of an id once each, in
  the caller's order. -/
  returned : x.client.status = .returned (.ok ()) → ∀ k,
    x.client.issued k = (requests.filter fun request => key request = k) ∧
      x.client.acked k = (requests.filter fun request => key request = k) ∧
      (x.accepted.filter fun request => key request = k) = requests.filter fun request => key request = k

/-- What a batch does: it sends nothing if an item does not encode; otherwise each item has a write of its own and the exchange
keeps to the order of these writes, for any order of the groups, any server and any run. -/
def BatchInOrder {α ι : Type} (key : ι → String) (encodes : α → Prop) (write : Nat → α → ι → Prop)
    (batch : List String → Dispatch String ι RociaDbError) (items : List α) : Prop :=
  ((∃ item ∈ items, ¬encodes item) → ∀ (order : List String) (σ : Type) (service : Service σ ι RociaDbError) (server : σ)
    (x : Exchange String ι RociaDbError σ),
      Transition.Reaches (Exchange.step concurrentRequests service) (.new (batch order) server) x →
        (∀ k, x.client.issued k = []) ∧ x.accepted = []) ∧
  ((∀ item ∈ items, encodes item) → ∃ requests, requests.length = items.length ∧
    (∀ i item, items[i]? = some item → ∃ request, requests[i]? = some request ∧ write i item request) ∧
    ∀ (order : List String), (groupPreservingOrder requests key).IsOrder order →
      ∀ (σ : Type) (service : Service σ ι RociaDbError) (server : σ) (x : Exchange String ι RociaDbError σ),
        Transition.Reaches (Exchange.step concurrentRequests service) (.new (batch order) server) x →
          KeepsOrder service key requests x)

namespace BatchesAux

variable {α ι σ : Type} {key : ι → String} {requests : List ι} {order : List String} {service : Service σ ι RociaDbError}
  {server : σ} {x : Exchange String ι RociaDbError σ}

/-- A batch that could not be built sends nothing. -/
theorem nothing_sent {e : RociaDbError}
    (h : Transition.Reaches (Exchange.step concurrentRequests service) (.new (dispatchBatch key order (.error e)) server) x) :
    (∀ k, x.client.issued k = []) ∧ x.accepted = [] := by
  have hsame := h.invariant (fun t => t = .new (dispatchBatch key order (.error e)) server) rfl fun t event u ht _ hs => by
    subst ht
    exact ((Exchange.step_cases hs).of_quiet nofun (fun _ => rfl) rfl).elim
  rw [hsame]
  exact ⟨fun _ => rfl, rfl⟩

/-- The exchange of a batch that could be built keeps to the order of its requests. -/
theorem keepsOrder (horder : (groupPreservingOrder requests key).IsOrder order)
    (h : Transition.Reaches (Exchange.step concurrentRequests service) (.new (dispatchBatch key order (.ok requests)) server) x) :
    KeepsOrder service key requests x := by
  have hinv := (Exchange.inv_new key server (inv_batch _ horder) (fun _ => rfl) nofun).run h (key_of_mem requests)
  refine ⟨fun keys => hinv.client.flight_le, hinv.client.issued_isPrefix, ?_, ?_, ?_,
    fun hne x' hrun => by rw [Exchange.closed_run hrun hne], ?_⟩
  · intro k
    exact (hinv.client.issued k).imp id fun ⟨item, heq, _⟩ => ⟨item, heq⟩
  · intro k x' hs
    cases Exchange.step_cases hs with
    | issue _ c hc =>
      obtain ⟨item, rest, hlive, _, hidle, _⟩ := Dispatch.step_issue hc
      exact hinv.client.idle hlive k hidle
  · intro k e x' hs
    rcases hs with hs | ⟨hr, hs⟩
    · cases Exchange.step_cases hs with
      | lose _ _ c hc =>
        obtain ⟨_, _, rfl⟩ := Dispatch.step_fail hc
        rfl
    · cases Exchange.step_cases hs with
      | ack _ c hr' hc =>
        rw [hr] at hr'
        cases hr'
      | reject _ e' c hr' hc =>
        obtain ⟨_, _, rfl⟩ := Dispatch.step_fail hc
        rw [hr, Option.some.injEq, Except.error.injEq] at hr'
        rw [hr']
        rfl
  · intro hok k
    obtain ⟨hissued, hacked⟩ := hinv.client.all_acked (hinv.client.done hok k)
    exact ⟨hissued, hacked, (hinv.done hok).2 k⟩

end BatchesAux

open BatchesAux

/-- The write `put_nodes` makes of a node: its own id and value under the batch's tenant and graph, and its own request id or
one drawn for it. -/
def IsPutNode (encode : V → Except String (List UInt8)) (uuids : Nat → String) (tenantId graph : String) (i : Nat)
    (node : NodeInput V) (request : PutNodeRequest) : Prop :=
  ∃ json, encode node.value = .ok json ∧
    request = ⟨tenantId, graph, node.nodeId, json, node.requestId.getD (defaultPutNodeRequestId (uuids i))⟩

/-- The write `add_edges` makes of an edge. -/
def IsAddEdge (encode : V → Except String (List UInt8)) (uuids : Nat → String) (tenantId graph : String) (i : Nat)
    (edge : EdgeInput V) (request : AddEdgeRequest) : Prop :=
  ∃ json, encode edge.value = .ok json ∧
    request = ⟨tenantId, graph, edge.edgeId, edge.fromNode, edge.toNode, edge.label, json,
      edge.requestId.getD (defaultAddEdgeRequestId (uuids i))⟩

namespace BatchesAux

/-- What is built of a node is the write of it. -/
theorem isPutNode_of_build {encode : V → Except String (List UInt8)} {uuids : Nat → String} {tenantId graph : String} {i : Nat}
    {node : NodeInput V} {request : PutNodeRequest}
    (h : buildPutNodeRequest encode tenantId graph (uuids i) node = .ok request) :
    IsPutNode encode uuids tenantId graph i node request := by
  unfold buildPutNodeRequest at h
  cases hjson : encode node.value with
  | error e =>
    rw [hjson] at h
    cases h
  | ok json =>
    rw [hjson] at h
    cases h
    exact ⟨json, hjson, rfl⟩

/-- What is built of an edge is the write of it. -/
theorem isAddEdge_of_build {encode : V → Except String (List UInt8)} {uuids : Nat → String} {tenantId graph : String} {i : Nat}
    {edge : EdgeInput V} {request : AddEdgeRequest}
    (h : buildAddEdgeRequest encode tenantId graph (uuids i) edge = .ok request) :
    IsAddEdge encode uuids tenantId graph i edge request := by
  unfold buildAddEdgeRequest at h
  cases hjson : encode edge.value with
  | error e =>
    rw [hjson] at h
    cases h
  | ok json =>
    rw [hjson] at h
    cases h
    exact ⟨json, hjson, rfl⟩

/-- A batch whose items can be built exactly when they encode is kept in order. -/
theorem batchInOrder {α ι : Type} {key : ι → String} {build : String → α → Result ι} {uuids : Nat → String}
    {encodes : α → Prop} {write : Nat → α → ι → Prop} {items : List α}
    (hok : ∀ item uuid, encodes item → ∃ request, build uuid item = .ok request)
    (herror : ∀ item, ¬encodes item → ∀ uuid, ∃ e, build uuid item = .error e)
    (hwrite : ∀ i item request, build (uuids i) item = .ok request → write i item request) :
    BatchInOrder key encodes write (fun order => dispatchBatch key order (buildRequests build uuids 0 items)) items := by
  refine ⟨?_, ?_⟩
  · rintro ⟨item, hitem, hbad⟩
    obtain ⟨e, he⟩ := buildRequests_error uuids 0 ⟨item, hitem, herror item hbad⟩
    rw [he]
    intro order σ service server x hrun
    exact nothing_sent hrun
  · intro hall
    obtain ⟨requests, hrequests⟩ := buildRequests_ok uuids 0 fun item hitem uuid => hok item uuid (hall item hitem)
    obtain ⟨hlen, heach⟩ := buildRequests_getElem? 0 hrequests
    refine ⟨requests, hlen, ?_, ?_⟩
    · intro i item hi
      obtain ⟨request, hr, hb⟩ := heach i item hi
      rw [Nat.zero_add] at hb
      exact ⟨request, hr, hwrite i item request hb⟩
    · rw [hrequests]
      intro order horder σ service server x hrun
      exact keepsOrder horder hrun

end BatchesAux

/-- Batches of nodes and of edges are kept in order. -/
theorem batches_in_order (encode : V → Except String (List UInt8)) (uuids : Nat → String) (tenantId graph : String) :
    (∀ nodes : List (NodeInput V),
      BatchInOrder PutNodeRequest.nodeId (fun node : NodeInput V => ∃ json, encode node.value = .ok json)
        (IsPutNode encode uuids tenantId graph) (putNodes encode uuids tenantId graph nodes) nodes) ∧
    (∀ edges : List (EdgeInput V),
      BatchInOrder AddEdgeRequest.edgeId (fun edge : EdgeInput V => ∃ json, encode edge.value = .ok json)
        (IsAddEdge encode uuids tenantId graph) (addEdges encode uuids tenantId graph edges) edges) := by
  refine ⟨fun nodes => batchInOrder ?_ ?_ ?_, fun edges => batchInOrder ?_ ?_ ?_⟩
  · rintro node uuid ⟨json, hjson⟩
    exact ⟨_, by rw [buildPutNodeRequest, hjson]; rfl⟩
  · intro node hbad uuid
    cases hjson : encode node.value with
    | ok json => exact absurd ⟨json, hjson⟩ hbad
    | error e => exact ⟨_, by rw [buildPutNodeRequest, hjson]; rfl⟩
  · exact fun _ _ _ => isPutNode_of_build
  · rintro edge uuid ⟨json, hjson⟩
    exact ⟨_, by rw [buildAddEdgeRequest, hjson]; rfl⟩
  · intro edge hbad uuid
    cases hjson : encode edge.value with
    | ok json => exact absurd ⟨json, hjson⟩ hbad
    | error e => exact ⟨_, by rw [buildAddEdgeRequest, hjson]; rfl⟩
  · exact fun _ _ _ => isAddEdge_of_build

namespace BatchesAux

/-- Three items, two of them of one node. -/
def threeItems : List (NodeInput UInt8) := [⟨"a", 1, some "first"⟩, ⟨"b", 2, none⟩, ⟨"a", 3, some "third"⟩]

/-- Bytes are encoded as they are. -/
def encodeByte (value : UInt8) : Except String (List UInt8) := .ok [value]

/-- Their requests. -/
def threeRequests : List PutNodeRequest :=
  [⟨"t", "g", "a", [1], "first"⟩, ⟨"t", "g", "b", [2], defaultPutNodeRequestId "u"⟩, ⟨"t", "g", "a", [3], "third"⟩]

/-- A server that takes what it is sent. -/
def recording : Service (List PutNodeRequest) PutNodeRequest RociaDbError := { handle := fun taken r => (taken ++ [r], .ok ()) }

/-- The two groups are under way at once, and the first item of one is acknowledged while the other one waits. -/
def overlapping : List (Exchange.Event String RociaDbError) :=
  [.start, .start, .issue "b", .issue "a", .handle "a", .respond "a", .issue "a", .handle "a", .handle "b", .respond "b", .respond "a",
    .finish "b", .finish "a", .complete]

/-- Their order. -/
theorem threeRequests_order : (groupPreservingOrder threeRequests PutNodeRequest.nodeId).IsOrder ["b", "a"] :=
  isOrder_of_keys (by decide) (by simp [threeRequests, or_comm])

/-- The writes of the three items are their requests. -/
theorem threeRequests_of_items {requests : List PutNodeRequest} (hlen : requests.length = threeItems.length)
    (heach : ∀ i item, threeItems[i]? = some item →
      ∃ request, requests[i]? = some request ∧ IsPutNode encodeByte (fun _ => "u") "t" "g" i item request) :
    requests = threeRequests := by
  obtain ⟨a, b, c, rfl⟩ := List.length_eq_three.1 hlen
  obtain ⟨_, ha, _, ⟨⟩, rfl⟩ := heach 0 _ rfl
  obtain ⟨_, hb, _, ⟨⟩, rfl⟩ := heach 1 _ rfl
  obtain ⟨_, hc, _, ⟨⟩, rfl⟩ := heach 2 _ rfl
  cases ha
  cases hb
  cases hc
  rfl

end BatchesAux

/-- The batch succeeds, and the server has taken the items of the one node in their order. -/
theorem batches_in_order_overlapping :
    ∃ x, Transition.exec (Exchange.step concurrentRequests recording)
        (.new (putNodes encodeByte (fun _ => "u") "t" "g" threeItems ["b", "a"]) []) overlapping = some x ∧
      x.client.status = .returned (.ok ()) ∧
      x.accepted.filter (fun r => r.nodeId = "a") = [⟨"t", "g", "a", [1], "first"⟩, ⟨"t", "g", "a", [3], "third"⟩] := by
  obtain ⟨requests, hlen, heach, hkeeps⟩ := ((batches_in_order encodeByte (fun _ => "u") "t" "g").1 threeItems).2
    fun item _ => ⟨_, rfl⟩
  obtain rfl := threeRequests_of_items hlen heach
  have hexec : Transition.exec (Exchange.step concurrentRequests recording)
      (.new (putNodes encodeByte (fun _ => "u") "t" "g" threeItems ["b", "a"]) []) overlapping = some _ := rfl
  have hkept := hkeeps _ threeRequests_order _ recording [] _ (Transition.reaches_of_exec hexec)
  exact ⟨_, hexec, rfl, (hkept.returned rfl "a").2.2⟩

end RociaSdk

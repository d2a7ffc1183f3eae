import RociaSdk.Lemmas.ResumeAux

/-!
# Resuming a batch of nodes

A batch of nodes with request ids of the caller's, run again after each run that failed or was dropped, against a server that
deduplicates on them: every item is applied once, in order, although what a run left in flight may land at any time.
-/

namespace RociaSdk

open Dispatching BatchAux ResumeAux

variable {V : Type}

/-- An order in which the groups of a batch of nodes may come, if it can be built. -/
def IsBatchOrder (encode : V → Except String (List UInt8)) (tenantId graph : String) (nodes : List (NodeInput V))
    (uuids : Nat → String) (order : List String) : Prop :=
  ∀ requests, buildPutNodeRequests encode uuids tenantId graph nodes = .ok requests →
    (groupPreservingOrder requests PutNodeRequest.nodeId).IsOrder order

/-- Each time the batch is run again, its groups come in an order in which they may. -/
def OrdersReplays (encode : V → Except String (List UInt8)) (tenantId graph : String) (nodes : List (NodeInput V))
    (_ : Exchange String PutNodeRequest RociaDbError NodeStore) : ResumeEvent → Prop
  | .exchange _ => True
  | .replay uuids order => IsBatchOrder encode tenantId graph nodes uuids order

/-- What a batch of these requests has done to the store it found, wherever the exchange has come to. -/
structure ExactlyOnce (initial : NodeStore) (tenantId graph : String) (requests : List PutNodeRequest)
    (x : Exchange String PutNodeRequest RociaDbError NodeStore) : Prop where
  /-- The writes applied to a node are the first of its items, in the caller's order. -/
  applied_isPrefix : ∀ k, x.server.appliedTo k <+: writesTo requests k
  /-- Nothing is applied twice. -/
  once : x.server.applied.Nodup
  /-- Once the batch has returned `Ok`, every item has been applied, -/
  all : x.client.status = .returned (.ok ()) → x.server.applied.Perm requests
  /-- the items of a node in the caller's order, -/
  in_order : x.client.status = .returned (.ok ()) → ∀ k, x.server.appliedTo k = writesTo requests k
  /-- and each node holds the value of its last item. -/
  last : x.client.status = .returned (.ok ()) → ∀ k,
    x.server.nodes (tenantId, graph, k) = lastJson (writesTo requests k) (initial.nodes (tenantId, graph, k))

namespace ResumeAux

variable {requests : List PutNodeRequest} {initial : NodeStore} {tenantId graph : String}
  {x x' : Exchange String PutNodeRequest RociaDbError NodeStore}

/-- What holds of a batch and the store in every state of its runs. -/
structure RunInv (initial : NodeStore) (tenantId graph : String) (requests : List PutNodeRequest)
    (x : Exchange String PutNodeRequest RociaDbError NodeStore) : Prop where
  client : x.client.Inv concurrentRequests (writesTo requests)
  store : StoreInv initial tenantId graph requests x.server
  acked : ∀ k, x.client.acked k <+: x.server.appliedTo k
  response : ∀ k e, x.response k ≠ some (.error e)
  answered : ∀ k item, x.response k ≠ none → (x.client.todo k).head? = some item →
    x.client.acked k ++ [item] <+: x.server.appliedTo k
  stale : ∀ r ∈ x.stale, Ready requests x.server r

/-- The first item left of a group comes after what has been acknowledged. -/
theorem RunInv.next (h : RunInv initial tenantId graph requests x) {k : String} {item : PutNodeRequest}
    (hitem : (x.client.todo k).head? = some item) : x.client.acked k ++ [item] <+: writesTo requests k := by
  obtain ⟨rest, hrest⟩ := List.head?_eq_some_iff.1 hitem
  rw [← h.client.split k, hrest]
  exact ⟨rest, by simp⟩

/-- The items of a group go to its node. -/
theorem RunInv.node_eq (h : RunInv initial tenantId graph requests x) {k : String} {item : PutNodeRequest}
    (hitem : (x.client.todo k).head? = some item) : item.nodeId = k :=
  (mem_writesTo.1 ((h.next hitem).subset (by simp))).2

/-- The first item left of a group is ready. -/
theorem RunInv.ready (h : RunInv initial tenantId graph requests x) {k : String} {item : PutNodeRequest}
    (hitem : (x.client.todo k).head? = some item) : Ready requests x.server item := by
  obtain rfl := h.node_eq hitem
  exact ⟨_, h.next hitem, h.acked _⟩

/-- A step of the client that moves no item keeps the invariant. -/
theorem RunInv.client_step (h : RunInv initial tenantId graph requests x) {c : Dispatch String PutNodeRequest RociaDbError}
    (hs : x.client.Step concurrentRequests c) (htodo : c.todo = x.client.todo) (hacked : c.acked = x.client.acked) :
    RunInv initial tenantId graph requests { x with client := c } where
  client := hs.inv h.client
  store := h.store
  acked := by rw [hacked]; exact h.acked
  response := h.response
  answered := by simp only [htodo, hacked]; exact h.answered
  stale := h.stale

/-- Closing the client keeps the invariant: what goes stale is ready. -/
theorem RunInv.close (h : RunInv initial tenantId graph requests x) {status : Dispatching.Status RociaDbError}
    (hne : status ≠ .live) (hok : status ≠ .returned (.ok ())) : RunInv initial tenantId graph requests (x.close (x.client.close status)) where
  client := h.client.close hne fun heq => absurd heq hok
  store := h.store
  acked := h.acked
  response k e := nofun
  answered k item hk := absurd rfl hk
  stale r hr := by
    rcases List.mem_append.1 hr with hr | hr
    · exact h.stale r hr
    · obtain ⟨k, _, hk⟩ := List.mem_filterMap.1 hr
      exact h.ready (Exchange.unhandled_eq hk).2.2

/-- Serving a ready item keeps the invariant. -/
theorem RunInv.serve (h : RunInv initial tenantId graph requests x) (hdistinct : DistinctIds requests)
    (htarget : ∀ r ∈ requests, r.tenantId = tenantId ∧ r.graph = graph) {r : PutNodeRequest}
    (hready : Ready requests x.server r) : RunInv initial tenantId graph requests (x.serve dedup r) := by
  obtain ⟨hclient, hresponse, hstale, hserver, _⟩ := Exchange.serve_eq dedup x r
  refine ⟨hclient ▸ h.client, hserver ▸ h.store.serve hdistinct htarget hready, ?_, hresponse ▸ h.response, ?_, ?_⟩
  · intro k
    rw [hclient, hserver]
    exact (h.acked k).trans (serve_mono x.server r k)
  · intro k item hk hitem
    rw [hresponse] at hk
    rw [hclient] at hitem ⊢
    rw [hserver]
    exact (h.answered k item hk hitem).trans (serve_mono x.server r k)
  · intro s hs
    rw [hstale] at hs
    rw [hserver]
    exact (h.stale s hs).mono (serve_mono x.server r)

/-- The server answers `Ok`. -/
theorem handle_ok (store : NodeStore) (r : PutNodeRequest) : (dedup.handle store r).2 = .ok () := by
  unfold dedup
  dsimp only
  split <;> rfl

/-- Every event of the exchange keeps the invariant. -/
theorem RunInv.step {e : Exchange.Event String RociaDbError} (h : RunInv initial tenantId graph requests x)
    (hdistinct : DistinctIds requests) (htarget : ∀ r ∈ requests, r.tenantId = tenantId ∧ r.graph = graph)
    (hs : x.Step concurrentRequests dedup e x') : RunInv initial tenantId graph requests x' := by
  cases hs with
  | start c hc =>
    obtain ⟨key, rest, hlive, hpending, hroom, rfl⟩ := Dispatch.step_start hc
    exact h.client_step (.start key rest hlive hpending hroom) rfl rfl
  | issue key c hc =>
    obtain ⟨item, rest, hlive, hrunning, hidle, htodo, rfl⟩ := Dispatch.step_issue hc
    exact h.client_step (.issue key item rest hlive hrunning hidle htodo) rfl rfl
  | finish key c hc =>
    obtain ⟨hlive, hrunning, htodo, rfl⟩ := Dispatch.step_finish hc
    exact h.client_step (.finish key hlive hrunning htodo) rfl rfl
  | complete c hc =>
    obtain ⟨hlive, hpending, hrunning, rfl⟩ := Dispatch.step_complete hc
    exact h.client_step (.complete hlive hpending hrunning) rfl rfl
  | handle key item hitem =>
    have hhead := (Exchange.unhandled_eq hitem).2.2
    have hserve := h.serve hdistinct htarget (h.ready hhead)
    obtain ⟨hclient, hresponse, _, hserver, _⟩ := Exchange.serve_eq dedup x item
    refine ⟨hserve.client, hserve.store, hserve.acked, ?_, ?_, hserve.stale⟩
    · intro k e
      by_cases heq : k = key
      · simp [heq, handle_ok]
      · simp only [Function.update_of_ne heq]
        exact h.response k e
    · intro k item' hk hitem'
      by_cases heq : k = key
      · subst heq
        simp only [hclient, hhead, Option.some.injEq] at hitem'
        subst hitem'
        obtain rfl := h.node_eq hhead
        simp only [hclient, hserver]
        exact h.store.served hdistinct (h.next hhead) (h.acked _)
      · simp only [Function.update_of_ne heq] at hk
        exact hserve.answered k item' (by rw [hresponse]; exact hk) hitem'
  | ack key c hr hc =>
    obtain ⟨item, rest, hlive, hflight, htodo, rfl⟩ := Dispatch.step_ack hc
    refine ⟨(Dispatch.Step.ack key item rest hlive hflight htodo).inv h.client, h.store, ?_, ?_, ?_, h.stale⟩
    · intro k
      by_cases heq : k = key
      · subst heq
        simp only [Function.update_self]
        exact h.answered k item (by rw [hr]; nofun) (by rw [htodo]; rfl)
      · simp only [Function.update_of_ne heq]
        exact h.acked k
    · intro k e
      by_cases heq : k = key
      · simp [heq]
      · simp only [Function.update_of_ne heq]
        exact h.response k e
    · intro k item' hk hitem'
      by_cases heq : k = key
      · simp [heq] at hk
      · simp only [Function.update_of_ne heq] at hk hitem' ⊢
        exact h.answered k item' hk hitem'
  | reject key err c hr hc => exact absurd hr (h.response key err)
  | lose key err c hc =>
    obtain ⟨_, _, rfl⟩ := Dispatch.step_fail hc
    exact h.close nofun nofun
  | drop c hc =>
    obtain ⟨_, rfl⟩ := Dispatch.step_drop hc
    exact h.close nofun nofun
  | land index item hitem =>
    have hserve := h.serve hdistinct htarget (h.stale item (List.mem_of_getElem? hitem))
    refine ⟨hserve.client, hserve.store, hserve.acked, hserve.response, hserve.answered, ?_⟩
    intro s hs
    refine hserve.stale s ?_
    rw [(Exchange.serve_eq dedup x item).2.2.1]
    exact List.mem_of_mem_eraseIdx hs

/-- Running the batch again keeps the invariant: nothing has been acknowledged to the new run. -/
theorem RunInv.replay (h : RunInv initial tenantId graph requests x) {order : List String}
    (horder : (groupPreservingOrder requests PutNodeRequest.nodeId).IsOrder order) :
    RunInv initial tenantId graph requests
      { x with client := dispatchBatch PutNodeRequest.nodeId order (.ok requests), response := fun _ => none } where
  client := inv_batch _ horder
  store := h.store
  acked k := by
    rw [dispatchBatch_ok]
    exact List.nil_prefix
  response k e := nofun
  answered k item hk := absurd rfl hk
  stale := h.stale

/-- What the invariant says of a batch. -/
theorem RunInv.exactlyOnce (h : RunInv initial tenantId graph requests x) (hdistinct : DistinctIds requests) :
    ExactlyOnce initial tenantId graph requests x := by
  have hcount : ∀ (writes : List PutNodeRequest) (r : PutNodeRequest),
      writes.count r = (writesTo writes r.nodeId).count r := by
    intro writes r
    unfold writesTo
    rw [List.count_filter (by simp)]
  have hall : x.client.status = .returned (.ok ()) → ∀ k, x.server.appliedTo k = writesTo requests k := by
    intro hok k
    have hacked := h.acked k
    rw [(h.client.all_acked (h.client.done hok k)).2] at hacked
    exact (h.store.applied k).eq_of_length_le hacked.length_le
  refine ⟨h.store.applied, ?_, ?_, hall, ?_⟩
  · refine List.nodup_iff_count_le_one.2 ?_
    intro r
    rw [hcount]
    exact List.nodup_iff_count_le_one.1 ((h.store.applied r.nodeId).sublist.nodup (hdistinct.nodup.filter _)) r
  · intro hok
    refine List.perm_iff_count.2 ?_
    intro r
    rw [hcount, hcount requests]
    exact congrArg (List.count r) (hall hok r.nodeId)
  · intro hok k
    rw [h.store.nodes k, hall hok k]

/-! ## The requests of a batch with ids of the caller's -/

variable {encode : V → Except String (List UInt8)} {uuids : Nat → String} {nodes : List (NodeInput V)}

/-- The request of a node with an id of the caller's. -/
theorem request_eq {node : NodeInput V} (hid : node.requestId.isSome = true) {uuid : String} {request : PutNodeRequest}
    (h : buildPutNodeRequest encode tenantId graph uuid node = .ok request) :
    (request.tenantId = tenantId ∧ request.graph = graph) ∧
      (request.nodeId, some request.requestId) = (node.nodeId, node.requestId) := by
  obtain ⟨json, _, heq⟩ := bind_ok h
  cases heq
  obtain ⟨id, hid⟩ := Option.isSome_iff_exists.1 hid
  simp [hid]

/-- The requests of such a batch are for its target. -/
theorem requests_target (hids : ∀ node ∈ nodes, node.requestId.isSome = true)
    (hbuild : buildPutNodeRequests encode uuids tenantId graph nodes = .ok requests) :
    ∀ r ∈ requests, r.tenantId = tenantId ∧ r.graph = graph := by
  refine buildRequests_forall 0 ?_ hbuild
  intro node hnode uuid request h
  exact (request_eq (hids node hnode) h).1

/-- The requests of such a batch go to its nodes under its ids. -/
theorem requests_ids (hids : ∀ node ∈ nodes, node.requestId.isSome = true)
    (hbuild : buildPutNodeRequests encode uuids tenantId graph nodes = .ok requests) :
    requests.map (fun r => (r.nodeId, some r.requestId)) = nodes.map fun node => (node.nodeId, node.requestId) :=
  buildRequests_map 0 (fun node hnode _ _ h => (request_eq (hids node hnode) h).2) hbuild

/-- No two of them go to one node under one id if no two items do. -/
theorem requests_distinct (hids : ∀ node ∈ nodes, node.requestId.isSome = true)
    (hdistinct : nodes.Pairwise fun a b => a.nodeId = b.nodeId → a.requestId ≠ b.requestId)
    (hbuild : buildPutNodeRequests encode uuids tenantId graph nodes = .ok requests) : DistinctIds requests := by
  have hpairs : (nodes.map fun node => (node.nodeId, node.requestId)).Pairwise fun a b => a.1 = b.1 → a.2 ≠ b.2 :=
    List.pairwise_map.2 hdistinct
  rw [← requests_ids hids hbuild] at hpairs
  exact (List.pairwise_map.1 hpairs).imp fun hab hnode heq => hab hnode (congrArg some heq)

/-- The same requests are built on other UUIDs. -/
theorem build_congr (hids : ∀ node ∈ nodes, node.requestId.isSome = true) (uuids' : Nat → String) :
    buildPutNodeRequests encode uuids tenantId graph nodes = buildPutNodeRequests encode uuids' tenantId graph nodes := by
  refine buildRequests_congr 0 uuids' ?_
  intro node hnode uuid uuid'
  obtain ⟨id, hid⟩ := Option.isSome_iff_exists.1 (hids node hnode)
  simp only [buildPutNodeRequest, hid, Option.getD_some]

/-- An event is one of the exchange or runs the batch again. -/
theorem resume_cases {e : ResumeEvent} (h : resumeStep encode tenantId graph nodes x e = some x') :
    (∃ event, e = .exchange event ∧ x.Step concurrentRequests dedup event x') ∨
      ∃ uuids order, e = .replay uuids order ∧
        x' = { x with client := putNodes encode uuids tenantId graph nodes order, response := fun _ => none } := by
  cases e with
  | exchange event => exact Or.inl ⟨event, rfl, Exchange.step_cases h⟩
  | replay uuids order =>
    refine Or.inr ⟨uuids, order, rfl, ?_⟩
    simp only [resumeStep] at h
    split at h
    · cases h
    · cases h
    · exact (Option.some.inj h).symm

/-- The runs of a batch that can be built keep the invariant. -/
theorem runInv (hids : ∀ node ∈ nodes, node.requestId.isSome = true)
    (hdistinct : nodes.Pairwise fun a b => a.nodeId = b.nodeId → a.requestId ≠ b.requestId)
    (hfresh : ∀ r ∈ requests, r.dedupKey ∉ initial.seen) (happlied : initial.applied = [])
    (hbuild : buildPutNodeRequests encode uuids tenantId graph nodes = .ok requests) {order : List String}
    (horder : IsBatchOrder encode tenantId graph nodes uuids order)
    (hrun : Transition.Run (resumeStep encode tenantId graph nodes) (OrdersReplays encode tenantId graph nodes)
      (.new (putNodes encode uuids tenantId graph nodes order) initial) x) :
    RunInv initial tenantId graph requests x := by
  have htarget := requests_target hids hbuild
  have hstart : RunInv initial tenantId graph requests (.new (putNodes encode uuids tenantId graph nodes order) initial) := by
    unfold putNodes
    rw [hbuild]
    exact ⟨inv_batch _ (horder requests hbuild), .initial initial tenantId graph happlied hfresh,
      fun k => by rw [dispatchBatch_ok]; exact List.nil_prefix, nofun, fun k item hk => absurd rfl hk, nofun⟩
  refine hrun.invariant (RunInv initial tenantId graph requests) hstart ?_
  intro t e u ht hguard hs
  rcases resume_cases hs with ⟨event, rfl, hevent⟩ | ⟨uuids', order', rfl, rfl⟩
  · exact ht.step (requests_distinct hids hdistinct hbuild) htarget hevent
  · have hbuild' := (build_congr hids uuids').symm.trans hbuild
    unfold putNodes
    rw [hbuild']
    exact ht.replay (hguard requests hbuild')

/-- A batch that cannot be built is refused each time and sends nothing. -/
theorem refused_run {e : RociaDbError} (hids : ∀ node ∈ nodes, node.requestId.isSome = true)
    (hbuild : buildPutNodeRequests encode uuids tenantId graph nodes = .error e) {order : List String}
    (hrun : Transition.Run (resumeStep encode tenantId graph nodes) (OrdersReplays encode tenantId graph nodes)
      (.new (putNodes encode uuids tenantId graph nodes order) initial) x) :
    x = .new (.refused e) initial := by
  refine hrun.invariant (fun t => t = .new (.refused e) initial) (by rw [putNodes, hbuild]; rfl) ?_
  intro t event u ht _ hs
  subst ht
  rcases resume_cases hs with ⟨event, rfl, hevent⟩ | ⟨uuids', order', rfl, rfl⟩
  · exact (hevent.of_quiet nofun (fun _ => rfl) rfl).elim
  · unfold putNodes
    rw [(build_congr hids uuids').symm.trans hbuild]
    rfl

end ResumeAux

/-- Resuming a batch of nodes is exactly-once. Every item has a request id of the caller's, those of one node differ, and the
store has not seen them. Then, whatever the runs of the batch, their failures and what they left in flight, the store has applied
the first items of each node in order and none of them twice; and from the moment a run returns `Ok`, all of them, so that each
node holds the value of its last item. A batch that cannot be built sends nothing. -/
theorem resume_exactly_once (encode : V → Except String (List UInt8)) (tenantId graph : String) (nodes : List (NodeInput V))
    (hids : ∀ node ∈ nodes, node.requestId.isSome = true)
    (hdistinct : nodes.Pairwise fun a b => a.nodeId = b.nodeId → a.requestId ≠ b.requestId) (store : NodeStore)
    (happlied : store.applied = [])
    (hfresh : ∀ node ∈ nodes, ∀ id, node.requestId = some id → (tenantId, "PutNode", node.nodeId, id) ∉ store.seen)
    (uuids : Nat → String) (order : List String) (horder : IsBatchOrder encode tenantId graph nodes uuids order)
    {x : Exchange String PutNodeRequest RociaDbError NodeStore}
    (hrun : Transition.Run (resumeStep encode tenantId graph nodes) (OrdersReplays encode tenantId graph nodes)
      (.new (putNodes encode uuids tenantId graph nodes order) store) x) :
    match buildPutNodeRequests encode uuids tenantId graph nodes with
    | .ok requests => ExactlyOnce store tenantId graph requests x
    | .error e => x.server = store ∧ x.client.status = .returned (.error e) := by
  cases hbuild : buildPutNodeRequests encode uuids tenantId graph nodes with
  | error e =>
    rw [refused_run hids hbuild hrun]
    exact ⟨rfl, rfl⟩
  | ok requests =>
    have hfresh' : ∀ r ∈ requests, r.dedupKey ∉ store.seen := by
      intro r hr
      have hmem : (r.nodeId, some r.requestId) ∈ nodes.map fun node => (node.nodeId, node.requestId) :=
        requests_ids hids hbuild ▸ List.mem_map_of_mem hr
      obtain ⟨node, hnode, heq⟩ := List.mem_map.1 hmem
      obtain ⟨hnodeId, hid⟩ := Prod.mk.inj heq
      unfold PutNodeRequest.dedupKey
      rw [(requests_target hids hbuild r hr).1, ← hnodeId]
      exact hfresh node hnode r.requestId hid
    exact (runInv hids hdistinct hfresh' happlied hbuild horder hrun).exactlyOnce (requests_distinct hids hdistinct hbuild)

namespace ResumeAux

/-- Two items of one node. -/
def twoItems : List (NodeInput UInt8) := [⟨"a", 1, some "first"⟩, ⟨"a", 2, some "second"⟩]

/-- Their values are encoded as they are. -/
def encodeByte (value : UInt8) : Except String (List UInt8) := .ok [value]

/-- A store with nothing in it. -/
def emptyStore : NodeStore := ⟨[], fun _ => none, []⟩

/-- A first run is dropped with the first item in flight, which lands while the batch is run again. -/
def lateLanding : List ResumeEvent :=
  [.exchange .start, .exchange (.issue "a"), .exchange .drop, .replay (fun _ => "") ["a"], .exchange .start,
    .exchange (.issue "a"), .exchange (.land 0), .exchange (.handle "a"), .exchange (.respond "a"), .exchange (.issue "a"),
    .exchange (.handle "a"), .exchange (.respond "a"), .exchange (.finish "a"), .exchange .complete]

/-- The one group of the batch comes first. -/
theorem twoItems_order (uuids : Nat → String) : IsBatchOrder encodeByte "t" "g" twoItems uuids ["a"] := by
  intro requests hbuild
  cases hbuild
  exact isOrder_of_keys (List.nodup_singleton _) (by simp)

end ResumeAux

/-- The batch of two items, run again after a first run was dropped, with that run's item landing late. -/
theorem resume_exactly_once_late :
    ∃ x, Transition.exec (resumeStep encodeByte "t" "g" twoItems)
        (.new (putNodes encodeByte (fun _ => "") "t" "g" twoItems ["a"]) emptyStore) lateLanding = some x ∧
      x.client.status = .returned (.ok ()) ∧ x.server.nodes ("t", "g", "a") = some [2] ∧
      ExactlyOnce emptyStore "t" "g" [⟨"t", "g", "a", [1], "first"⟩, ⟨"t", "g", "a", [2], "second"⟩] x := by
  have hexec : Transition.exec (resumeStep encodeByte "t" "g" twoItems)
      (.new (putNodes encodeByte (fun _ => "") "t" "g" twoItems ["a"]) emptyStore) lateLanding = some _ := rfl
  refine ⟨_, hexec, rfl, rfl, resume_exactly_once encodeByte "t" "g" twoItems (by decide) (by decide) emptyStore rfl
    (fun _ _ _ _ => List.not_mem_nil) (fun _ => "") ["a"] (twoItems_order _) (Transition.run_of_exec hexec ?_)⟩
  intro e he u
  cases e with
  | exchange event => trivial
  | replay uuids order =>
    obtain ⟨rfl, rfl⟩ : uuids = (fun _ => "") ∧ order = ["a"] := by simpa [lateLanding] using he
    exact twoItems_order _

end RociaSdk

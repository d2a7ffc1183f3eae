import Mathlib.Data.List.Dedup
import RociaSdk.Lemmas.EdgeAux

/-!
# A batch of edges and its order

`add_edges` against a server that refuses a taken triplet: when every run of a batch ends as its items do one after another.
-/

namespace RociaSdk

open Dispatching BatchAux EdgeAux

variable {V : Type}

/-- From here, every run without faults ends, in `Ok` and with this store. -/
structure EndsIn (x₀ : Exchange String AddEdgeRequest RociaDbError EdgeStore) (final : EdgeStore) : Prop where
  /-- No run fails. -/
  succeeds : ∀ x, Exchange.Goes concurrentRequests uniqueTriplets x₀ x → ∀ e, x.client.status ≠ .returned (.error e)
  /-- A run that has returned `Ok` leaves this store. -/
  store : ∀ x, Exchange.Goes concurrentRequests uniqueTriplets x₀ x → x.client.status = .returned (.ok ()) → x.server = final
  /-- A run that cannot go on has returned `Ok`. -/
  returns : ∀ x, Exchange.Goes concurrentRequests uniqueTriplets x₀ x →
    (∀ e : Exchange.Event String RociaDbError, e.Faultless → x.step concurrentRequests uniqueTriplets e = none) →
      x.client.status = .returned (.ok ())
  /-- No run goes on for ever. -/
  ends : ∃ bound, ∀ events x, Transition.exec (Exchange.step concurrentRequests uniqueTriplets) x₀ events = some x →
    events.length ≤ bound

/-- No triplet belongs to two edge ids of a batch: an item of the one is for a triplet that no item of the other is for and that
the other does not hold at first. -/
def TripletsApart (store : EdgeStore) (tenantId graph : String) (edges : List (EdgeInput V)) : Prop :=
  ∀ edge ∈ edges, ∀ other ∈ edges, other.edgeId ≠ edge.edgeId →
    other.triplet ≠ edge.triplet ∧ store.tripletAt tenantId graph other.edgeId ≠ some edge.triplet

namespace EdgeBatchAux

variable {store final : EdgeStore} {tenantId graph : String} {requests : List AddEdgeRequest}
  {x x' : Exchange String AddEdgeRequest RociaDbError EdgeStore}

/-! ## The requests of a batch -/

/-- The same of its requests. -/
def RequestsApart (store : EdgeStore) (tenantId graph : String) (requests : List AddEdgeRequest) : Prop :=
  ∀ r ∈ requests, ∀ other ∈ requests, other.edgeId ≠ r.edgeId →
    other.edge.triplet ≠ r.edge.triplet ∧ store.tripletAt tenantId graph other.edgeId ≠ some r.edge.triplet

section

variable {encode : V → Except String (List UInt8)} {uuids : Nat → String} {edges : List (EdgeInput V)}

/-- The request of an edge. -/
theorem request_eq {edge : EdgeInput V} {uuid : String} {request : AddEdgeRequest}
    (h : buildAddEdgeRequest encode tenantId graph uuid edge = .ok request) :
    (request.tenantId = tenantId ∧ request.graph = graph) ∧
      (request.edgeId, request.edge.triplet) = (edge.edgeId, edge.triplet) := by
  obtain ⟨json, _, heq⟩ := bind_ok h
  cases heq
  exact ⟨⟨rfl, rfl⟩, rfl⟩

/-- The requests of a batch are for its target. -/
theorem requests_target (hbuild : buildAddEdgeRequests encode uuids tenantId graph edges = .ok requests) :
    ∀ r ∈ requests, r.tenantId = tenantId ∧ r.graph = graph := by
  refine buildRequests_forall 0 ?_ hbuild
  intro edge _ uuid request h
  exact (request_eq h).1

/-- They keep apart what the items do. -/
theorem requestsApart_iff (hbuild : buildAddEdgeRequests encode uuids tenantId graph edges = .ok requests) :
    RequestsApart store tenantId graph requests ↔ TripletsApart store tenantId graph edges := by
  have hmap : requests.map (fun r => (r.edgeId, r.edge.triplet)) = edges.map fun edge => (edge.edgeId, edge.triplet) :=
    buildRequests_map 0 (fun _ _ _ _ h => (request_eq h).2) hbuild
  let Apart (claims : List (String × String × String × String)) : Prop :=
    ∀ a ∈ claims, ∀ b ∈ claims, b.1 ≠ a.1 → b.2 ≠ a.2 ∧ store.tripletAt tenantId graph b.1 ≠ some a.2
  calc RequestsApart store tenantId graph requests
      ↔ Apart (requests.map fun r => (r.edgeId, r.edge.triplet)) := by simp only [Apart, List.forall_mem_map]; rfl
    _ ↔ Apart (edges.map fun edge => (edge.edgeId, edge.triplet)) := by rw [hmap]
    _ ↔ TripletsApart store tenantId graph edges := by simp only [Apart, List.forall_mem_map]; rfl

end

/-! ## Apart, no edge is refused -/

/-- What holds of a batch in every state of a run without faults, as long as no item is refused. -/
structure RunInv (store : EdgeStore) (requests : List AddEdgeRequest)
    (x : Exchange String AddEdgeRequest RociaDbError EdgeStore) : Prop where
  exchange : x.Inv concurrentRequests (fun k => requests.filter fun r => r.edgeId = k) AddEdgeRequest.edgeId
  server : x.server = store.insertAll x.accepted
  status : x.client.status = .live ∨ x.client.status = .returned (.ok ())
  response : ∀ k e, x.response k ≠ some (.error e)

/-- Whatever the run, the server holds what it has accepted. -/
theorem server_step {e : Exchange.Event String RociaDbError} (hs : x.Step concurrentRequests uniqueTriplets e x')
    (h : x.server = store.insertAll x.accepted) : x'.server = store.insertAll x'.accepted := by
  have hserve : ∀ item, (x.serve uniqueTriplets item).server = store.insertAll (x.serve uniqueTriplets item).accepted := by
    intro item
    obtain ⟨_, _, _, hserver, haccepted⟩ := Exchange.serve_eq uniqueTriplets x item
    rw [hserver, haccepted]
    by_cases htaken : x.server.Taken item
    · rw [handle_taken htaken, List.append_nil]
      exact h
    · rw [handle_free htaken, h, EdgeStore.insertAll, EdgeStore.insertAll, List.foldl_concat]
  cases hs with
  | handle key item _ => exact hserve item
  | land index item _ => exact hserve item
  | _ => exact h

/-- Of a batch whose triplets are apart and whose items are accepted in order, no next item is taken: an edge that holds its
triplet would be of another id of the batch, or would have held it before the batch. -/
theorem RunInv.not_taken (h : RunInv store requests x) (htarget : ∀ r ∈ requests, r.tenantId = tenantId ∧ r.graph = graph)
    (happart : RequestsApart store tenantId graph requests) (hserial : uniqueTriplets.serial store requests = .ok final)
    (hlive : x.client.status = .live) {key : String} {item : AddEdgeRequest}
    (hitem : (x.client.todo key).head? = some item) : ¬x.server.Taken item := by
  rintro ⟨edgeId, hne, hholds⟩
  have hmem : item ∈ requests := by
    have hgroup : item ∈ requests.filter fun r => r.edgeId = key := by
      rw [← h.exchange.client.split key]
      exact List.mem_append_right _ (List.mem_of_mem_head? hitem)
    exact (List.mem_filter.1 hgroup).1
  have hrefused : ∀ before : List AddEdgeRequest, (∀ r ∈ before, slot r ≠ (item.tenantId, item.graph, edgeId)) →
      store.tripletAt item.tenantId item.graph edgeId = some item.edge.triplet → (store.insertAll before).Taken item :=
    fun before hbefore hstore => ⟨edgeId, hne, by rw [EdgeStore.tripletAt, insertAll_of_ne hbefore]; exact hstore⟩
  unfold EdgeStore.tripletAt at hholds
  rw [h.server] at hholds
  obtain ⟨htenant, hgraph⟩ := htarget item hmem
  rcases insertAll_cases store x.accepted (item.tenantId, item.graph, edgeId) with ⟨r, hr, hslot, hput⟩ | ⟨_, hsame⟩
  · -- An item accepted before holds the triplet under the other id.
    have hr : r ∈ requests := (List.mem_filter.1 (h.exchange.accepted_mem hlive hr)).1
    rw [hput, Option.map_some, Option.some.injEq] at hholds
    have hid : r.edgeId = edgeId := congrArg (fun place => place.2.2) hslot
    exact (happart item hmem r hr (by rw [hid]; exact hne)).1 hholds
  · rw [hsame] at hholds
    by_cases hbatch : ∃ other ∈ requests, other.edgeId = edgeId
    · obtain ⟨other, hother, rfl⟩ := hbatch
      rw [htenant, hgraph] at hholds
      exact (happart item hmem other hother hne).2 hholds
    · -- No item is for the other id: in order, the item would have been refused.
      obtain ⟨before, after, hsplit⟩ := List.append_of_mem hmem
      refine (serial_ok hserial).2 before item after hsplit (hrefused before (fun r hr hslot => hbatch ⟨r, ?_, ?_⟩) hholds)
      · rw [hsplit]
        exact List.mem_append_left _ hr
      · exact congrArg (fun place => place.2.2) hslot

/-- Every event without a fault keeps the invariant. -/
theorem RunInv.step {e : Exchange.Event String RociaDbError} (h : RunInv store requests x)
    (htarget : ∀ r ∈ requests, r.tenantId = tenantId ∧ r.graph = graph) (happart : RequestsApart store tenantId graph requests)
    (hserial : uniqueTriplets.serial store requests = .ok final) (hfault : e.Faultless)
    (hs : x.Step concurrentRequests uniqueTriplets e x') : RunInv store requests x' := by
  have hexchange := hs.inv h.exchange (key_of_mem requests)
  have hserver := server_step hs h.server
  cases hs with
  | start c hc =>
    obtain ⟨key, rest, hlive, _, _, rfl⟩ := Dispatch.step_start hc
    exact ⟨hexchange, hserver, Or.inl hlive, h.response⟩
  | issue key c hc =>
    obtain ⟨item, rest, hlive, _, _, _, rfl⟩ := Dispatch.step_issue hc
    exact ⟨hexchange, hserver, Or.inl hlive, h.response⟩
  | finish key c hc =>
    obtain ⟨hlive, _, _, rfl⟩ := Dispatch.step_finish hc
    exact ⟨hexchange, hserver, Or.inl hlive, h.response⟩
  | complete c hc =>
    obtain ⟨_, _, _, rfl⟩ := Dispatch.step_complete hc
    exact ⟨hexchange, hserver, Or.inr rfl, h.response⟩
  | handle key item hitem =>
    obtain ⟨hflight, _, hhead⟩ := Exchange.unhandled_eq hitem
    have hlive := h.exchange.client.live_of_flight hflight
    refine ⟨hexchange, hserver, Or.inl (by rw [← hlive, ← (Exchange.serve_eq uniqueTriplets x item).1]), ?_⟩
    intro k err
    by_cases hk : k = key
    · simp [hk, handle_free (h.not_taken htarget happart hserial hlive hhead)]
    · simp only [Function.update_of_ne hk]
      exact h.response k err
  | ack key c hr hc =>
    obtain ⟨item, rest, hlive, _, _, rfl⟩ := Dispatch.step_ack hc
    refine ⟨hexchange, hserver, Or.inl hlive, ?_⟩
    intro k err
    by_cases hk : k = key
    · simp [hk]
    · simp only [Function.update_of_ne hk]
      exact h.response k err
  | reject key err c hr hc => exact absurd hr (h.response key err)
  | lose key err c hc => exact hfault.elim
  | drop c hc => exact hfault.elim
  | land index item hitem =>
    have hstale : x.stale = [] := h.status.elim (fun hlive => (h.exchange.accounted hlive).1) fun hok => (h.exchange.done hok).1
    rw [hstale] at hitem
    cases hitem

/-- A run without faults keeps the invariant. -/
theorem runInv {order : List String} (horder : (groupPreservingOrder requests AddEdgeRequest.edgeId).IsOrder order)
    (htarget : ∀ r ∈ requests, r.tenantId = tenantId ∧ r.graph = graph) (happart : RequestsApart store tenantId graph requests)
    (hserial : uniqueTriplets.serial store requests = .ok final)
    (hrun : Exchange.Goes concurrentRequests uniqueTriplets
      (.new (dispatchBatch AddEdgeRequest.edgeId order (.ok requests)) store) x) : RunInv store requests x :=
  hrun.invariant (RunInv store requests)
    ⟨Exchange.inv_new _ store (inv_batch concurrentRequests horder) (fun _ => rfl) nofun, rfl, Or.inl rfl, nofun⟩
    fun _ _ _ ht hfault hs => ht.step htarget happart hserial hfault (Exchange.step_cases hs)

/-- Whatever its triplets, a batch whose items are accepted in order leaves the same store whenever it returns `Ok`. -/
theorem store_of_ok {order : List String} (horder : (groupPreservingOrder requests AddEdgeRequest.edgeId).IsOrder order)
    (hserial : uniqueTriplets.serial store requests = .ok final)
    (hrun : Exchange.Goes concurrentRequests uniqueTriplets
      (.new (dispatchBatch AddEdgeRequest.edgeId order (.ok requests)) store) x)
    (hok : x.client.status = .returned (.ok ())) : x.server = final := by
  have hinv := (Exchange.inv_new AddEdgeRequest.edgeId store (inv_batch concurrentRequests horder) (fun _ => rfl) nofun).run hrun
    (key_of_mem requests)
  have hserver := hrun.invariant (fun t => t.server = store.insertAll t.accepted) rfl fun _ _ _ ht _ hs =>
    server_step (Exchange.step_cases hs) ht
  rw [hserver, (serial_ok hserial).1]
  exact insertAll_congr (hinv.done hok).2

/-! ## Not apart, a run fails -/

/-- A run without faults fails from here. -/
def CanFail (x : Exchange String AddEdgeRequest RociaDbError EdgeStore) : Prop :=
  ∃ x' e, Exchange.Goes concurrentRequests uniqueTriplets x x' ∧ x'.client.status = .returned (.error e)

/-- What can fail later can fail. -/
theorem CanFail.of_goes (hrun : Exchange.Goes concurrentRequests uniqueTriplets x x') (h : CanFail x') : CanFail x := by
  obtain ⟨y, e, hrun', hfail⟩ := h
  exact ⟨y, e, hrun.trans hrun', hfail⟩

/-- An idle group can be taken through its next items, unless a run fails. -/
theorem advance {key : String} (h : x.Idle key) {items rest : List AddEdgeRequest} (htodo : x.client.todo key = items ++ rest) :
    CanFail x ∨ ∃ x', Exchange.Goes concurrentRequests uniqueTriplets x x' ∧ x'.Idle key ∧ x'.client.todo key = rest ∧
      x'.server = x.server.insertAll items ∧ Exchange.OnlyIn key x x' := by
  have hadvance := h.advance concurrentRequests uniqueTriplets htodo
  cases hserial : uniqueTriplets.serial x.server items with
  | error e =>
    rw [hserial] at hadvance
    obtain ⟨y, hrun, hfail⟩ := hadvance
    exact Or.inl ⟨y, e, hrun, hfail⟩
  | ok server =>
    rw [hserial] at hadvance
    obtain ⟨y, hrun, hidle, htodo', hserver, honly⟩ := hadvance
    exact Or.inr ⟨y, hrun, hidle, htodo', hserver.trans (serial_ok hserial).1, honly⟩

/-- A run fails from where an edge that nothing but another group can move holds the triplet of an item of an idle group. -/
theorem canFail_of_held {key edgeId : String} (h : x.Idle key) {before after : List AddEdgeRequest} {item : AddEdgeRequest}
    (htodo : x.client.todo key = before ++ item :: after) (hkey : ∀ r ∈ before ++ [item], r.edgeId = key) (hne : edgeId ≠ key)
    (hheld : x.server.tripletAt item.tenantId item.graph edgeId = some item.edge.triplet) : CanFail x := by
  rcases advance h htodo with hfail | ⟨y, hrun, hidle, htodo', hserver, _⟩
  · exact hfail
  · have hother : ∀ r ∈ before, slot r ≠ (item.tenantId, item.graph, edgeId) := fun r hr hslot =>
      hne ((congrArg (fun place => place.2.2) hslot).symm.trans (hkey r (List.mem_append_left _ hr)))
    have htaken : y.server.Taken item := by
      refine ⟨edgeId, ?_, ?_⟩
      · rw [hkey item (by simp)]
        exact hne
      · rw [hserver, EdgeStore.tripletAt, insertAll_of_ne hother]
        exact hheld
    obtain ⟨z, hrun', hfail⟩ := hidle.reject concurrentRequests uniqueTriplets htodo' (by rw [handle_taken htaken])
    exact .of_goes hrun ⟨z, _, hrun', hfail⟩

/-- The map may give two groups of a batch first. -/
theorem exists_order {first second : AddEdgeRequest} (hfirst : first ∈ requests) (hsecond : second ∈ requests)
    (hne : second.edgeId ≠ first.edgeId) :
    ∃ rest, (groupPreservingOrder requests AddEdgeRequest.edgeId).IsOrder (first.edgeId :: second.edgeId :: rest) := by
  have hnodup : (requests.map AddEdgeRequest.edgeId).dedup.Nodup := List.nodup_dedup _
  refine ⟨((requests.map AddEdgeRequest.edgeId).dedup.erase first.edgeId).erase second.edgeId, ?_, ?_⟩
  · have hnodup' := (hnodup.erase first.edgeId).erase second.edgeId
    simp [hnodup', hnodup.erase, List.Nodup.mem_erase_iff, hnodup, Ne.symm hne]
  · intro k
    rw [group_isSome]
    simp only [List.mem_cons, (hnodup.erase _).mem_erase_iff, hnodup.mem_erase_iff, List.mem_dedup, List.mem_map]
    constructor
    · rintro (rfl | rfl | ⟨_, _, h⟩)
      · exact ⟨first, hfirst, rfl⟩
      · exact ⟨second, hsecond, rfl⟩
      · exact h
    · intro h
      by_cases hk : k = first.edgeId
      · exact Or.inl hk
      · by_cases hk' : k = second.edgeId
        · exact Or.inr (Or.inl hk')
        · exact Or.inr (Or.inr ⟨hk', hk, h⟩)

/-- The items of a group up to one of them. -/
theorem group_split {item : AddEdgeRequest} (h : item ∈ requests) :
    ∃ before after, (requests.filter fun r => r.edgeId = item.edgeId) = before ++ item :: after ∧
      ∀ r ∈ before ++ [item], r.edgeId = item.edgeId := by
  obtain ⟨before, after, hsplit⟩ := List.append_of_mem (List.mem_filter.2 ⟨h, by simp⟩ :
    item ∈ requests.filter fun r => r.edgeId = item.edgeId)
  refine ⟨before, after, hsplit, fun r hr => key_of_mem requests item.edgeId r ?_⟩
  rw [hsplit]
  simp only [List.mem_append, List.mem_cons, List.not_mem_nil, or_false] at hr ⊢
  tauto

/-- If every run of a batch succeeds in every order, its triplets are apart. -/
theorem requestsApart_of_succeeds (htarget : ∀ r ∈ requests, r.tenantId = tenantId ∧ r.graph = graph)
    (h : ∀ order, (groupPreservingOrder requests AddEdgeRequest.edgeId).IsOrder order →
      ¬CanFail (.new (dispatchBatch AddEdgeRequest.edgeId order (.ok requests)) store)) :
    RequestsApart store tenantId graph requests := by
  intro item hitem other hother hne
  obtain ⟨rest, horder⟩ := exists_order hitem hother hne
  obtain ⟨htenant, hgraph⟩ := htarget item hitem
  obtain ⟨before, after, hsplit, hkey⟩ := group_split hitem
  have hfails := h _ horder
  rw [dispatchBatch_ok] at hfails
  -- The group of the item is started first.
  obtain ⟨y, hrun, hidle, hpending, hrunning, htodo, hflight, hresponse, hserver⟩ :=
    Exchange.start_idle concurrentRequests uniqueTriplets
      (x := .new (.new (item.edgeId :: other.edgeId :: rest) fun k => requests.filter fun r => r.edgeId = k) store)
      rfl rfl (show 0 < 10 by decide) rfl rfl
  replace htodo : ∀ k, y.client.todo k = requests.filter fun r => r.edgeId = k := fun k => congrFun htodo k
  refine ⟨?_, ?_⟩
  · intro hsame
    obtain ⟨before', after', hsplit', hkey'⟩ := group_split hother
    -- It goes on until the item holds the triplet; then the other group is started.
    have hitems : y.client.todo item.edgeId = (before ++ [item]) ++ after := by
      rw [htodo, hsplit, List.append_assoc, List.singleton_append]
    rcases advance hidle hitems with hfail | ⟨z, hrun', hidle', _, hserver', honly⟩
    · exact hfails (.of_goes hrun hfail)
    obtain ⟨w, hrun'', hidle'', _, _, htodo'', _, _, hserver''⟩ :=
      Exchange.start_idle concurrentRequests uniqueTriplets hidle'.live (honly.pending.trans hpending)
        (by rw [honly.running, hrunning]; exact (show 1 < 10 by decide))
        (by rw [honly.inFlight _ hne, hflight]; rfl) (by rw [honly.response _ hne, hresponse]; rfl)
    have hitems' : w.client.todo other.edgeId = before' ++ other :: after' := by
      rw [htodo'', honly.todo _ hne, htodo, hsplit']
    have hheld : w.server.tripletAt other.tenantId other.graph item.edgeId = some other.edge.triplet := by
      obtain ⟨htenant', hgraph'⟩ := htarget other hother
      have hslot : slot item = (other.tenantId, other.graph, item.edgeId) := by
        unfold slot
        rw [htenant, hgraph, htenant', hgraph']
      rw [hserver'', hserver', EdgeStore.tripletAt, insertAll_concat hslot, hsame]
      rfl
    exact hfails (.of_goes (hrun.trans (hrun'.trans hrun'')) (canFail_of_held hidle'' hitems' hkey' (Ne.symm hne) hheld))
  · intro hheld
    refine hfails (.of_goes hrun (canFail_of_held hidle ((htodo _).trans hsplit) hkey hne ?_))
    rw [hserver, htenant, hgraph]
    exact hheld

end EdgeBatchAux

open EdgeBatchAux

/-- When a batch of edges refines its application in order. Of a batch whose items the server accepts one after another, every
run succeeds and ends in the same store, whatever the order of its groups, if and only if no triplet belongs to two of its edge
ids. -/
theorem add_edges_in_order_iff (encode : V → Except String (List UInt8)) (uuids : Nat → String) (tenantId graph : String)
    (edges : List (EdgeInput V)) (store final : EdgeStore) {requests : List AddEdgeRequest}
    (hbuild : buildAddEdgeRequests encode uuids tenantId graph edges = .ok requests)
    (hserial : uniqueTriplets.serial store requests = .ok final) :
    (∀ order, (groupPreservingOrder requests AddEdgeRequest.edgeId).IsOrder order →
      EndsIn (.new (addEdges encode uuids tenantId graph edges order) store) final) ↔
        TripletsApart store tenantId graph edges := by
  have htarget := requests_target hbuild
  simp only [addEdges, hbuild, ← requestsApart_iff hbuild]
  constructor
  · intro h
    refine requestsApart_of_succeeds htarget ?_
    intro order horder hfail
    obtain ⟨x, e, hrun, hstatus⟩ := hfail
    exact (h order horder).succeeds x hrun e hstatus
  · intro happart order horder
    have hinv := Exchange.inv_new AddEdgeRequest.edgeId store (inv_batch concurrentRequests horder) (fun _ => rfl) nofun
    refine ⟨?_, fun x => store_of_ok horder hserial, ?_,
      _, fun events x => Exchange.length_le_work hinv (key_of_mem requests) (nil_of_not_mem horder)⟩
    · intro x hrun e he
      rcases (runInv horder htarget happart hserial hrun).status with hlive | hok
      · rw [hlive] at he
        cases he
      · rw [hok] at he
        cases he
    · intro x hrun hstuck
      refine (runInv horder htarget happart hserial hrun).status.resolve_left ?_
      intro hlive
      obtain ⟨e, hfault, hsome⟩ := Exchange.enabled uniqueTriplets (show 0 < concurrentRequests by decide) hlive
      rw [hstuck e hfault] at hsome
      cases hsome

namespace EdgeBatchAux

/-- Properties without content. -/
def encodeNothing (_ : Unit) : Except String (List UInt8) := .ok []

/-- The request of such an edge from `a`. -/
def followsRequest (edgeId toNode : String) : AddEdgeRequest := ⟨"t", "g", edgeId, "a", toNode, "follows", [], edgeId⟩

/-- An item of a batch that puts such an edge. -/
def follows (edgeId toNode : String) : EdgeInput Unit := ⟨edgeId, "a", toNode, "follows", (), some edgeId⟩

/-- Two edges that ask for different triplets. -/
def twoEdges : List (EdgeInput Unit) := [follows "edge-1" "b", follows "edge-2" "c"]

/-- The first edge leaves its triplet to the second. -/
def movedEdges : List (EdgeInput Unit) := [follows "edge-1" "c", follows "edge-2" "b"]

/-- The first edge holds the triplet that the second is to have. -/
def heldStore : EdgeStore := fun place => if place = ("t", "g", "edge-1") then some ⟨"a", "b", "follows", []⟩ else none

/-- The triplet an edge of the graph holds after such a request. -/
theorem tripletAt_insert (store : EdgeStore) (edgeId toNode other : String) :
    (store.insert (followsRequest edgeId toNode)).tripletAt "t" "g" other =
      if other = edgeId then some ("a", "follows", toNode) else store.tripletAt "t" "g" other := by
  by_cases h : other = edgeId
  · simp only [EdgeStore.tripletAt, EdgeStore.insert, followsRequest, h, if_true, Function.update_self]
    rfl
  · rw [if_neg h, EdgeStore.tripletAt, EdgeStore.insert, Function.update_of_ne (by simp [followsRequest, h])]
    rfl

/-- A request is not refused if no other edge of the graph goes to its node. -/
theorem not_taken_of {store : EdgeStore} {edgeId toNode : String}
    (h : ∀ other, other ≠ edgeId → store.tripletAt "t" "g" other ≠ some ("a", "follows", toNode)) :
    ¬store.Taken (followsRequest edgeId toNode) := fun ⟨other, hne, hheld⟩ => h other hne hheld

/-- Two such edges are accepted if neither is refused when its turn comes. -/
theorem serial_two {store : EdgeStore} {r r' : AddEdgeRequest} (h : ¬store.Taken r) (h' : ¬(store.insert r).Taken r') :
    uniqueTriplets.serial store [r, r'] = .ok ((store.insert r).insert r') := by
  simp only [Service.serial, handle_free h, handle_free h']

end EdgeBatchAux

/-- A batch of two edges with different triplets, into an empty store. -/
theorem add_edges_in_order_iff_two :
    ∃ final, ∀ order, (groupPreservingOrder [followsRequest "edge-1" "b", followsRequest "edge-2" "c"]
        AddEdgeRequest.edgeId).IsOrder order →
      EndsIn (.new (addEdges encodeNothing (fun _ => "") "t" "g" twoEdges order) fun _ => none) final := by
  have hfree : ¬EdgeStore.Taken (fun _ => none) (followsRequest "edge-1" "b") := not_taken_of nofun
  have hfree' : ¬(EdgeStore.insert (fun _ => none) (followsRequest "edge-1" "b")).Taken (followsRequest "edge-2" "c") := by
    refine not_taken_of ?_
    intro other _
    rw [tripletAt_insert]
    split <;> simp [EdgeStore.tripletAt]
  refine ⟨_, (add_edges_in_order_iff encodeNothing (fun _ => "") "t" "g" twoEdges (fun _ => none) _ rfl
    (serial_two hfree hfree')).2 ?_⟩
  simp [TripletsApart, twoEdges, follows, EdgeInput.triplet, EdgeStore.tripletAt]

/-- A batch that moves an edge off a triplet and gives the triplet to another: in order both are accepted, but with the groups
the other way round the second is refused. -/
theorem moved_triplet_refused :
    ∃ requests final order, buildAddEdgeRequests encodeNothing (fun _ => "") "t" "g" movedEdges = .ok requests ∧
      uniqueTriplets.serial heldStore requests = .ok final ∧
      (groupPreservingOrder requests AddEdgeRequest.edgeId).IsOrder order ∧
      (∃ x r, Exchange.Goes concurrentRequests uniqueTriplets
        (.new (addEdges encodeNothing (fun _ => "") "t" "g" movedEdges order) heldStore) x ∧
          x.client.status = .returned (.error (alreadyExists r))) ∧
      ¬EndsIn (.new (addEdges encodeNothing (fun _ => "") "t" "g" movedEdges order) heldStore) final := by
  have hfree : ¬heldStore.Taken (followsRequest "edge-1" "c") :=
    not_taken_of fun other hne => by simp [EdgeStore.tripletAt, heldStore, hne]
  have hfree' : ¬(heldStore.insert (followsRequest "edge-1" "c")).Taken (followsRequest "edge-2" "b") := by
    refine not_taken_of ?_
    intro other _
    rw [tripletAt_insert]
    split <;> simp [EdgeStore.tripletAt, heldStore, *]
  have hheld : heldStore.Taken (followsRequest "edge-2" "b") := ⟨"edge-1", by decide, rfl⟩
  obtain ⟨x, hrun, hidle, _, _, htodo, _, _, hserver⟩ := Exchange.start_idle concurrentRequests uniqueTriplets
    (x := .new (addEdges encodeNothing (fun _ => "") "t" "g" movedEdges ["edge-2", "edge-1"]) heldStore)
    rfl rfl (show 0 < 10 by decide) rfl rfl
  obtain ⟨y, hrun', hfail⟩ := hidle.reject concurrentRequests uniqueTriplets (by rw [htodo]; rfl)
    (by rw [hserver]; exact congrArg Prod.snd (handle_taken hheld))
  refine ⟨_, _, ["edge-2", "edge-1"], rfl, serial_two hfree hfree', ⟨by decide, ?_⟩, ⟨y, _, hrun.trans hrun', hfail⟩,
    fun h => h.succeeds y (hrun.trans hrun') _ hfail⟩
  intro key
  rw [group_isSome]
  simp [follows, eq_comm, or_comm]

end RociaSdk

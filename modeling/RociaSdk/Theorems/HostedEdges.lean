import RociaSdk.Lemmas.HostedEdgesAux
import RociaSdk.Theorems.EdgeBatch

/-!
# A batch of edges at the server

When every run of `add_edges` against the server of the tests ends as its items do there one after another: `uniqueTriplets` is how
that server is seen, so that what holds of a batch with the one holds with the other.
-/

namespace RociaSdk

namespace Server

open Dispatching

/-- From here, every run without faults ends, in `Ok` and with these edges at the server. -/
structure EndsWith (s : State) (token : List Event → Option String) (x₀ : Exchange String AddEdgeRequest RociaDbError (List Event))
    (final : EdgeStore) : Prop where
  /-- No run fails. -/
  succeeds : ∀ x, Exchange.Goes concurrentRequests (edgesService s token) x₀ x → ∀ e, x.client.status ≠ .returned (.error e)
  /-- A run that has returned `Ok` leaves these edges. -/
  edges : ∀ x, Exchange.Goes concurrentRequests (edgesService s token) x₀ x → x.client.status = .returned (.ok ()) →
    s.edgesAfter x.server = final
  /-- A run that cannot go on has returned `Ok`. -/
  returns : ∀ x, Exchange.Goes concurrentRequests (edgesService s token) x₀ x →
    (∀ e : Exchange.Event String RociaDbError, e.Faultless → x.step concurrentRequests (edgesService s token) e = none) →
      x.client.status = .returned (.ok ())
  /-- No run goes on for ever. -/
  ends : ∃ bound, ∀ events x, Transition.exec (Exchange.step concurrentRequests (edgesService s token)) x₀ events = some x →
    events.length ≤ bound

open BatchAux EdgeBatchAux HostedEdgesAux

/-- Of a batch of edges that the server acknowledges one after another, every run succeeds and leaves the same edges, whatever the order
of its groups and of the answers, if and only if no triplet belongs to two of its edge ids. This is so where the server lets the calls
in, the endpoints are there, and no item is a replay. -/
theorem add_edges_hosted_iff {V : Type} (encode : V → Except String (List UInt8)) (uuids : Nat → String) (tenantId graph : String)
    (edges : List (EdgeInput V)) (s : State) (token : List Event → Option String) {requests : List AddEdgeRequest}
    (hbuild : buildAddEdgeRequests encode uuids tenantId graph edges = .ok requests) (htakes : Takes s token requests)
    {events : List Event} (hserial : (edgesService s token).serial [] requests = .ok events) :
    (∀ order, (groupPreservingOrder requests AddEdgeRequest.edgeId).IsOrder order →
      EndsWith s token (.new (addEdges encode uuids tenantId graph edges order) []) (s.edgesAfter events)) ↔
        TripletsApart s.store.edgeStore tenantId graph edges := by
  have htarget := requests_target hbuild
  have hseen : uniqueTriplets.serial s.store.edgeStore requests = .ok (s.edgesAfter events) := by
    have htracks : Tracks s [] [] := ⟨nofun, nofun⟩
    have hshown := serial_shown htakes [] requests rfl htracks
    rwa [hserial] at hshown
  have hinv : ∀ {order}, (groupPreservingOrder requests AddEdgeRequest.edgeId).IsOrder order →
      (Exchange.new (dispatchBatch AddEdgeRequest.edgeId order (.ok requests)) ([] : List Event)).Inv concurrentRequests
        (fun k => requests.filter fun r => r.edgeId = k) AddEdgeRequest.edgeId := fun horder =>
    Exchange.inv_new _ _ (inv_batch concurrentRequests horder) (fun _ => rfl) nofun
  simp only [addEdges, hbuild, ← requestsApart_iff hbuild]
  constructor
  · intro h
    refine requestsApart_of_succeeds htarget ?_
    rintro order horder ⟨y, e, hrun, hstatus⟩
    obtain ⟨x, hx, hview⟩ := Exchange.goes_of_view (f := s.edgesAfter) (hinv horder) (key_of_mem requests)
      (fun x hx hlive key item => shown_run htakes horder hx hlive) hrun
    exact (h order horder).succeeds x hx e (hview.client ▸ hstatus)
  · intro happart order horder
    have hsees : ∀ x, Exchange.Goes concurrentRequests (edgesService s token)
        (.new (dispatchBatch AddEdgeRequest.edgeId order (.ok requests)) []) x →
        ∃ y, Exchange.Goes concurrentRequests uniqueTriplets
          (.new (dispatchBatch AddEdgeRequest.edgeId order (.ok requests)) s.store.edgeStore) y ∧ Exchange.Viewed s.edgesAfter x y :=
      fun x hx => Exchange.goes_view (hinv horder) (key_of_mem requests)
        (fun x hx hlive key item => shown_run htakes horder hx hlive) hx
    have hstatus : ∀ x, Exchange.Goes concurrentRequests (edgesService s token)
        (.new (dispatchBatch AddEdgeRequest.edgeId order (.ok requests)) []) x →
        x.client.status = .live ∨ x.client.status = .returned (.ok ()) := by
      intro x hx
      obtain ⟨y, hy, hview⟩ := hsees x hx
      exact hview.client ▸ (runInv horder htarget happart hseen hy).status
    refine ⟨?_, ?_, ?_, _, fun events x => Exchange.length_le_work (hinv horder) (key_of_mem requests) (nil_of_not_mem horder)⟩
    · intro x hx e he
      rcases hstatus x hx with hlive | hok
      · rw [hlive] at he
        cases he
      · rw [hok] at he
        cases he
    · intro x hx hok
      obtain ⟨y, hy, hview⟩ := hsees x hx
      have hfinal := store_of_ok horder hseen hy (hview.client ▸ hok)
      rw [hview.rest (.inr hok)] at hfinal
      exact hfinal
    · intro x hx hstuck
      refine (hstatus x hx).resolve_left ?_
      intro hlive
      obtain ⟨e, hfault, hsome⟩ := Exchange.enabled (edgesService s token) (show 0 < concurrentRequests by decide) hlive
      rw [hstuck e hfault] at hsome
      cases hsome

namespace HostedEdgesAux

/-- A server with three nodes. -/
def threeNodes : State :=
  (State.start false).run (["a", "b", "c"].map fun nodeId =>
    .call none (.putNode { requestId := "", tenantId := "t", graph := "g", nodeId := nodeId, json := [] }))

end HostedEdgesAux

/-- Two edges between different nodes. -/
theorem add_edges_hosted_iff_two :
    ∃ final, ∀ order, (groupPreservingOrder [followsRequest "edge-1" "b", followsRequest "edge-2" "c"]
        AddEdgeRequest.edgeId).IsOrder order →
      EndsWith threeNodes (fun _ => none) (.new (addEdges encodeNothing (fun _ => "") "t" "g" twoEdges order) []) final := by
  have hserial : (edgesService threeNodes fun _ => none).serial [] [followsRequest "edge-1" "b", followsRequest "edge-2" "c"] =
      .ok [.call none (.addEdge (followsRequest "edge-1" "b")), .call none (.addEdge (followsRequest "edge-2" "c"))] := rfl
  have htakes : Takes threeNodes (fun _ => none) [followsRequest "edge-1" "b", followsRequest "edge-2" "c"] :=
    ⟨fun _ => ⟨rfl, rfl⟩, by decide, by decide, by decide⟩
  refine ⟨_, (add_edges_hosted_iff encodeNothing (fun _ => "") "t" "g" twoEdges threeNodes (fun _ => none) rfl htakes hserial).2 ?_⟩
  have hempty : threeNodes.store.edgeStore = fun _ => none := by
    funext ⟨tenantId, graph, edgeId⟩
    exact Table.find?_empty _ _
  simp [TripletsApart, twoEdges, follows, EdgeInput.triplet, EdgeStore.tripletAt, hempty]

end Server

end RociaSdk

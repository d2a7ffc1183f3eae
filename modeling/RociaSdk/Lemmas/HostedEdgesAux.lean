import RociaSdk.Lemmas.BatchAux
import RociaSdk.Lemmas.EdgeAux
import RociaSdk.Lemmas.HostedAux
import RociaSdk.Lemmas.HostedBatchAux
import RociaSdk.Lemmas.SoundAux
import RociaSdk.Lib.Viewed

/-!
# What the server does with the edges of a batch

As far as its edges are concerned, the server of the tests does with each item of a batch what `uniqueTriplets` does (`shown_edge`), as long
as it lets the calls in, the endpoints are there and no item is a replay.
-/

namespace RociaSdk

namespace Server

open Dispatching

/-- The edges of a store. -/
def Store.edgeStore (store : Store) : EdgeStore := fun (tenantId, graph, edgeId) => store.edges.find? (tenantId, graph) edgeId

/-- The edges after some events. -/
def State.edgesAfter (s : State) (events : List Event) : EdgeStore := (s.run events).store.edgeStore

/-- The server takes the requests of a batch: their calls are let in, the endpoints of their edges are there, and none has the marker of
one before it, or one that was applied before. -/
structure Takes (s : State) (token : List Event → Option String) (requests : List AddEdgeRequest) : Prop where
  letsIn : ∀ events, s.LetsIn "AddEdge" (token events)
  endpoints : ∀ r ∈ requests, (s.store.nodes.find? (r.tenantId, r.graph) r.fromNode).isSome = true ∧
    (s.store.nodes.find? (r.tenantId, r.graph) r.toNode).isSome = true
  distinct : requests.Pairwise fun earlier r =>
    (WriteCall.addEdge r).marker ≠ none → (WriteCall.addEdge earlier).marker ≠ (WriteCall.addEdge r).marker
  fresh : ∀ r ∈ requests, ∀ marker ∈ (WriteCall.addEdge r).marker, marker ∉ s.appliedRequests

namespace HostedEdgesAux

open BatchAux EdgeAux HostedAux HostedBatchAux SoundAux StoreAux

variable {s t : State} {token : List Event → Option String} {requests accepted : List AddEdgeRequest} {r : AddEdgeRequest}
  {events : List Event} {authorization : Option String}

/-! ## One call -/

/-- A triplet is taken at the server if it is in its edges. -/
theorem taken_iff_edgeStore (store : Store) (r : AddEdgeRequest) : store.taken r = true ↔ store.edgeStore.Taken r := by
  rw [taken_iff]
  simp only [EdgeStore.Taken, EdgeStore.tripletAt, Store.edgeStore, Option.map_eq_some_iff]
  constructor
  · rintro ⟨edgeId, edge, hne, hfind, htriplet⟩
    exact ⟨edgeId, hne, edge, hfind, htriplet⟩
  · rintro ⟨edgeId, hne, edge, hfind, htriplet⟩
    exact ⟨edgeId, edge, hne, hfind, htriplet⟩

/-- An edge that is stored is set. -/
theorem edgeStore_addEdge (store : Store) (r : AddEdgeRequest) (tenantId : String) :
    ((store.register tenantId).addEdge r).edgeStore = store.edgeStore.insert r := by
  funext ⟨tenantId', graph', edgeId'⟩
  simp only [Store.edgeStore, Store.addEdge, Store.register, Table.find?_put, EdgeStore.insert, Function.update_apply, Prod.mk.injEq]
  by_cases h : (r.tenantId = tenantId' ∧ r.graph = graph') ∧ r.edgeId = edgeId'
  · obtain ⟨⟨rfl, rfl⟩, rfl⟩ := h
    simp
  · have h' : ¬(tenantId' = r.tenantId ∧ graph' = r.graph ∧ edgeId' = r.edgeId) := by
      rintro ⟨rfl, rfl, rfl⟩
      exact h ⟨⟨rfl, rfl⟩, rfl⟩
    rw [if_neg h, if_neg h']

/-- A marking leaves the edges alone. -/
theorem markApplied_store (s : State) (marker : Option RequestMarker) : (s.markApplied marker).store = s.store := by
  cases marker <;> rfl

/-- What becomes of an edge whose call is let in, whose endpoints are there and that is no replay. -/
theorem addEdge_eq (hopen : t.LetsIn "AddEdge" authorization)
    (hends : (t.store.nodes.find? (r.tenantId, r.graph) r.fromNode).isSome = true ∧
      (t.store.nodes.find? (r.tenantId, r.graph) r.toNode).isSome = true)
    (hfresh : t.absorbsReplay (WriteCall.addEdge r).marker = false) :
    uniqueTriplets.handle t.store.edgeStore r =
      ((t.addEdge authorization r).2.store.edgeStore, statusContext "failed to add edge" (t.addEdge authorization r).1) := by
  have habsorbs : t.absorbsReplay (requestMarker r.requestId "AddEdge" (r.tenantId, r.graph, r.edgeId)) = false := hfresh
  have hadd : t.addEdge authorization r = t.write (requestMarker r.requestId "AddEdge" (r.tenantId, r.graph, r.edgeId)) r.tenantId
      (Store.checkEdge r) (fun store => store.addEdge r) := by
    unfold State.addEdge State.entering
    rw [enter_let_in hopen]
  by_cases htaken : t.store.taken r = true
  · have hcheck : Store.checkEdge r t.store =
        .error (alreadyExists ("an edge already connects " ++ r.fromNode ++ " -" ++ r.label ++ "-> " ++ r.toNode)) := by
      obtain ⟨hfrom, hto⟩ := hends
      obtain ⟨source, hfrom⟩ := Option.isSome_iff_exists.1 hfrom
      obtain ⟨target, hto⟩ := Option.isSome_iff_exists.1 hto
      simp [Store.checkEdge, hfrom, hto, htaken]
    rw [handle_taken ((taken_iff_edgeStore _ _).1 htaken), hadd]
    simp only [State.write, habsorbs, Bool.false_eq_true, if_false, hcheck]
    rfl
  · have hcheck : Store.checkEdge r t.store = .ok () := (checkEdge_ok_iff _ _).2 ⟨hends.1, hends.2, by simpa using htaken⟩
    rw [handle_free (fun h => htaken ((taken_iff_edgeStore _ _).2 h)), hadd]
    simp only [State.write, habsorbs, Bool.false_eq_true, if_false, hcheck, markApplied_store, edgeStore_addEdge, statusContext]

/-- A call of `add_edge` leaves it as it was which calls are let in. -/
theorem letsIn_addEdge {authorization' : Option String} (h : t.LetsIn "AddEdge" authorization') :
    (t.addEdge authorization r).2.LetsIn "AddEdge" authorization' := by
  obtain ⟨htoken, hfailures⟩ := h
  have hmark : ∀ (u : State) (marker : Option RequestMarker),
      (u.markApplied marker).acceptedTokens = u.acceptedTokens ∧ (u.markApplied marker).failures = u.failures := by
    intro u marker
    cases marker <;> exact ⟨rfl, rfl⟩
  have hsame : (t.addEdge authorization r).2.acceptedTokens = t.acceptedTokens ∧ (t.addEdge authorization r).2.failures = t.failures := by
    unfold State.addEdge State.entering State.enter
    rw [hfailures]
    cases t.rejectsToken authorization with
    | true => exact ⟨rfl, rfl⟩
    | false =>
      simp only [Bool.false_eq_true, if_false, State.write]
      split
      · exact ⟨rfl, rfl⟩
      · split
        · exact ⟨rfl, rfl⟩
        · exact hmark _ _
  refine ⟨?_, ?_⟩
  · unfold State.rejectsToken at htoken ⊢
    rw [hsame.1]
    exact htoken
  · rw [hsame.2]
    exact hfailures

/-! ## The calls of a batch -/

/-- All that has happened at the server are calls for edges, and of these only ones that have been accepted have landed. -/
structure Tracks (s : State) (events : List Event) (accepted : List AddEdgeRequest) : Prop where
  calls : ∀ event ∈ events, ∃ authorization r, event = .call authorization (.addEdge r)
  landed : ∀ call ∈ s.landed events, ∃ r ∈ accepted, call = .addEdge r

/-- Calls for edges do not change which calls are let in. -/
theorem letsIn_run (hcalls : ∀ event ∈ events, ∃ authorization r, event = .call authorization (.addEdge r))
    (h : s.LetsIn "AddEdge" authorization) : (s.run events).LetsIn "AddEdge" authorization := by
  induction events generalizing s with
  | nil => exact h
  | cons event events ih =>
    obtain ⟨_, r, rfl⟩ := hcalls event (List.mem_cons_self ..)
    exact ih (fun event hevent => hcalls event (List.mem_cons_of_mem _ hevent)) (letsIn_addEdge h)

/-- An item whose marker none of the accepted ones has is no replay. -/
theorem fresh_of_tracks (h : Takes s token requests) (htracks : Tracks s events accepted) (hr : r ∈ requests)
    (hother : ∀ earlier ∈ accepted, (WriteCall.addEdge r).marker ≠ none →
      (WriteCall.addEdge earlier).marker ≠ (WriteCall.addEdge r).marker) :
    (s.run events).absorbsReplay (WriteCall.addEdge r).marker = false := by
  cases hmarker : (WriteCall.addEdge r).marker with
  | none => rfl
  | some marker =>
    rw [Bool.eq_false_iff, ne_eq, absorbs_iff]
    rintro (happlied | ⟨call, hcall, hsame⟩)
    · exact h.fresh r hr marker hmarker happlied
    · obtain ⟨earlier, hearlier, rfl⟩ := htracks.landed call hcall
      exact hother earlier hearlier (by rw [hmarker]; nofun) (hsame.trans hmarker.symm)

/-- What the server does with an item that is no replay is what `uniqueTriplets` does with it. -/
theorem shown_edge (h : Takes s token requests) (htracks : Tracks s events accepted) (hr : r ∈ requests)
    (hfresh : (s.run events).absorbsReplay (WriteCall.addEdge r).marker = false) :
    (edgesService s token).ShownBy s.edgesAfter uniqueTriplets events r := by
  have hends := h.endpoints r hr
  have heq := addEdge_eq (letsIn_run htracks.calls (h.letsIn events)) ⟨nodes_stay events hends.1, nodes_stay events hends.2⟩ hfresh
  unfold Service.ShownBy
  rw [State.edgesAfter, heq]
  simp only [edgesService, batchService, State.edgesAfter, State.run, List.foldl_append, List.foldl_cons, List.foldl_nil]
  rfl

/-- An item that is handled is tracked, as accepted if it is. -/
theorem Tracks.handle (h : Tracks s events accepted) (token : List Event → Option String) (r : AddEdgeRequest) :
    (((edgesService s token).handle events r).2 = .ok () → Tracks s ((edgesService s token).handle events r).1 (accepted ++ [r])) ∧
      ∀ e, ((edgesService s token).handle events r).2 = .error e → Tracks s ((edgesService s token).handle events r).1 accepted := by
  have hcalls : ∀ event ∈ events ++ [.call (token events) (.addEdge r)], ∃ authorization r, event = .call authorization (.addEdge r) := by
    intro event hevent
    rcases List.mem_append.1 hevent with hold | hnew
    · exact h.calls event hold
    · exact ⟨_, r, List.mem_singleton.1 hnew⟩
  refine ⟨fun hok => ⟨hcalls, ?_⟩, fun e herror => ⟨hcalls, ?_⟩⟩
  · intro call hcall
    simp only [edgesService, batchService, landed_call, List.mem_append, Option.mem_toList] at hcall
    rcases hcall with hold | hnew
    · obtain ⟨earlier, hearlier, heq⟩ := h.landed call hold
      exact ⟨earlier, List.mem_append_left _ hearlier, heq⟩
    · obtain ⟨_, heq⟩ := call_of_lands hnew
      cases heq
      exact ⟨r, List.mem_append_right _ (List.mem_singleton_self r), rfl⟩
  · have hrefused : ∃ e, ((WriteCall.addEdge r).handle (token events) (s.run events)).1 = .error e := by
      cases hanswer : ((WriteCall.addEdge r).handle (token events) (s.run events)).1 with
      | error e => exact ⟨e, rfl⟩
      | ok u => simp [edgesService, batchService, hanswer, statusContext] at herror
    obtain ⟨e, hanswer⟩ := hrefused
    intro call hcall
    simp only [edgesService, batchService, landed_call, lands_of_error hanswer, Option.toList_none, List.append_nil] at hcall
    exact h.landed call hcall

/-- Items that the server handles one after another. -/
theorem serial_shown (h : Takes s token requests) (before rest : List AddEdgeRequest) (hrequests : requests = before ++ rest)
    (htracks : Tracks s events before) :
    uniqueTriplets.serial (s.edgesAfter events) rest = ((edgesService s token).serial events rest).map s.edgesAfter := by
  induction rest generalizing before events with
  | nil => rfl
  | cons r rest ih =>
    have hr : r ∈ requests := hrequests ▸ List.mem_append_right before (List.mem_cons_self ..)
    have hpairwise := h.distinct
    rw [hrequests, List.pairwise_append] at hpairwise
    have hfresh := fresh_of_tracks h htracks hr fun earlier hearlier hne =>
      hpairwise.2.2 earlier hearlier r (List.mem_cons_self ..) hne
    have hshown := shown_edge h htracks hr hfresh
    have hhandle := (htracks.handle token r).1
    unfold Service.ShownBy at hshown
    unfold Service.serial
    rw [hshown]
    rcases hresult : (edgesService s token).handle events r with ⟨events', _ | _⟩
    · rfl
    · rw [hresult] at hhandle
      exact ih (before ++ [r]) (by rw [hrequests]; simp) (hhandle rfl)

/-! ## Runs of a batch -/

variable {x x₀ : Exchange String AddEdgeRequest RociaDbError (List Event)}

/-- A run of a batch is tracked. -/
theorem tracks_run (hrun : Exchange.Goes concurrentRequests (edgesService s token) x₀ x) (h : Tracks s x₀.server x₀.accepted) :
    Tracks s x.server x.accepted := by
  refine hrun.invariant (fun x => Tracks s x.server x.accepted) h ?_
  intro t e u ht _ hs
  have hserve : ∀ item, Tracks s (t.serve (edgesService s token) item).server (t.serve (edgesService s token) item).accepted := by
    intro item
    obtain ⟨hok, herror⟩ := ht.handle token item
    unfold Exchange.serve
    rcases hresult : (edgesService s token).handle t.server item with ⟨events', _ | _⟩
    · rw [hresult] at herror
      exact herror _ rfl
    · rw [hresult] at hok
      exact hok rfl
  cases Exchange.step_cases hs with
  | handle key item _ => exact hserve item
  | land index item _ => exact hserve item
  | _ => exact ht

/-- While a batch is live, the server does with each of its items what `uniqueTriplets` does with it. -/
theorem shown_run (h : Takes s token requests) {order : List String}
    (horder : (groupPreservingOrder requests AddEdgeRequest.edgeId).IsOrder order)
    (hrun : Exchange.Goes concurrentRequests (edgesService s token)
      (.new (dispatchBatch AddEdgeRequest.edgeId order (.ok requests)) []) x) (hlive : x.client.status = .live) {key : String}
    (hitem : x.unhandled key = some r) : (edgesService s token).ShownBy s.edgesAfter uniqueTriplets x.server r := by
  have hinv := (Exchange.inv_new AddEdgeRequest.edgeId ([] : List Event) (inv_batch concurrentRequests horder) (fun _ => rfl) nofun).run
    hrun (key_of_mem requests)
  have htracks : Tracks s x.server x.accepted := tracks_run hrun ⟨nofun, nofun⟩
  obtain ⟨-, hnone, hhead⟩ := Exchange.unhandled_eq hitem
  obtain ⟨rest, htodo⟩ := List.head?_eq_some_iff.1 hhead
  have hgroup := hinv.client.split key
  rw [htodo] at hgroup
  have hmem : r ∈ requests.filter fun r => r.edgeId = key := hgroup ▸ List.mem_append_right _ (List.mem_cons_self ..)
  obtain ⟨hr, hkey⟩ := List.mem_filter.1 hmem
  refine shown_edge h htracks hr (fresh_of_tracks h htracks hr ?_)
  intro earlier hearlier hne hsame
  -- An item of another edge has another marker, and one of this edge that has been accepted comes before this one.
  have hedge : earlier.edgeId = key := by
    have hkey : r.edgeId = key := by simpa using hkey
    obtain ⟨marker, hmarker⟩ := Option.ne_none_iff_exists'.1 hne
    rw [hmarker] at hsame
    simp only [WriteCall.marker, requestMarker] at hmarker hsame
    split at hmarker
    · cases hmarker
    · split at hsame
      · cases hsame
      · rw [← hmarker, Option.some.injEq, RequestMarker.mk.injEq] at hsame
        simp only [Prod.mk.injEq] at hsame
        exact hsame.2.2.2.2.trans hkey
  have hacked : earlier ∈ x.client.acked key := by
    have hfilter := (hinv.accounted hlive).2 key
    rw [Exchange.answered, hnone, List.append_nil] at hfilter
    rw [← hfilter]
    exact List.mem_filter.2 ⟨hearlier, by simpa using hedge⟩
  have hpairwise := h.distinct.filter fun r => r.edgeId = key
  rw [← hgroup, List.pairwise_append] at hpairwise
  exact hpairwise.2.2 earlier hacked r (List.mem_cons_self ..) hne hsame

end HostedEdgesAux

end Server

end RociaSdk

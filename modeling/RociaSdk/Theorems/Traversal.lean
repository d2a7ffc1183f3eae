import RociaSdk.Lemmas.NeighborAux
import RociaSdk.Theorems.NeighborNodes

/-!
# The nodes behind the neighbors, on the server

`get_outgoing_neighbor_nodes` and `get_incoming_neighbor_nodes` against the server, whatever others do before each of their calls: an
edge is only there while its endpoints are, and a node stays, so that no node behind a neighbor is ever missing.
-/

namespace RociaSdk

namespace Server

namespace TraversalAux

open HostedAux

variable {T : Type} {client : Client} {world : World}

/-- A node that is there is read. -/
theorem getNode_found (operation : String) (request : GetNodeRequest) (hopen : world.Admits client "GetNode")
    (h : ((world.arrived client "GetNode").store.nodes.find? (request.tenantId, request.graph) request.nodeId).isSome = true) :
    ∃ json, (hosted client State.getNode operation request world).1 = .ok json := by
  obtain ⟨json, hjson⟩ := Option.isSome_iff_exists.1 h
  refine ⟨json, ?_⟩
  rw [hosted_let_in operation (getNode_reads request) hopen]
  simp only [hjson]
  rfl

/-- The error that is collected is one an item gives. -/
theorem error_of_mapM {ι ε β : Type} {outcome : ι → Except ε β} {items : List ι} {e : ε} (h : items.mapM outcome = .error e) :
    ∃ item ∈ items, outcome item = .error e := by
  induction items with
  | nil => cases h
  | cons item items ih =>
    rw [List.mapM_cons] at h
    cases hitem : outcome item with
    | error e' =>
      rw [hitem] at h
      cases h
      exact ⟨item, List.mem_cons_self, hitem⟩
    | ok value =>
      rw [hitem] at h
      cases hitems : items.mapM outcome with
      | error e' =>
        rw [hitems] at h
        cases h
        obtain ⟨found, hmem, herror⟩ := ih hitems
        exact ⟨found, List.mem_cons_of_mem item hmem, herror⟩
      | ok rest =>
        rw [hitems] at h
        cases h

/-- A future whose node is read fails only on its payload. -/
theorem fetch_error {reads : NodeReads T} {tenantId graph : String} {neighbor : Neighbor} {json : List UInt8} {e : RociaDbError}
    (hread : reads.getNode "failed to get neighbor node" ⟨tenantId, graph, neighbor.nodeId⟩ = .ok json)
    (h : fetchNeighborNode reads tenantId graph neighbor = .error e) : ∃ error, e = .decode "neighbor node json" error := by
  unfold fetchNeighborNode at h
  rw [hread] at h
  cases hdecode : reads.decode json with
  | ok value =>
    simp only [bind, Except.bind, hdecode, decodeContext] at h
    cases h
  | error error =>
    simp only [bind, Except.bind, hdecode, decodeContext] at h
    cases h
    exact ⟨error, rfl⟩

end TraversalAux

open Paging HostedAux CatalogAux NeighborAux TraversalAux Buffering

/-- What `get_outgoing_neighbor_nodes` and `get_incoming_neighbor_nodes` make of a server that others change before each of their
calls, from any state that a new server can come to. The neighbors that the page loop stops with come in the order of the ids of
their edges and none twice, each was listed when its page was read, and every edge that was listed at all pages is among them. Each
of their nodes, read whenever it may be after that by a call that is let in, is there: the call returns the node of every neighbor, or
fails because a payload cannot be decoded, and never because a node is missing. -/
theorem neighbor_nodes_found {T : Type} (debug : String → String) (client : Client) (query : NeighborQuery)
    (decode : List UInt8 → Except String T) (nonRfc3339Timestamps : Bool) (before : List Event) (calls : Nat → Meanwhile)
    (turns : Nat) (neighbors : List Neighbor) (after : World)
    (hloop : pageLoop (hosted client (State.neighbors debug)) query
      { server := (State.start nonRfc3339Timestamps).run before, calls := calls } turns = .stopped (.ok neighbors) after) :
    let world : World := { server := (State.start nonRfc3339Timestamps).run before, calls := calls }
    let listed := fun turn =>
      queryEntries query (storeAt client (rpcOf query) (neighborsPage debug client query (some neighborPageSize)) world turn)
    (∃ last < turns, ∃ read, neighbors = read.map Prod.snd ∧ Sorted read ∧ (∀ e ∈ read, ∃ turn ≤ last, e ∈ listed turn) ∧
      ∀ edgeId, (∀ turn ≤ last, edgeId ∈ (listed turn).map Prod.fst) → edgeId ∈ read.map Prod.fst) ∧
    ∀ later : GetNodeRequest → Meanwhile,
      let world := fun request => ({ server := after.server, calls := fun _ => later request } : World)
      (∀ request, (world request).Admits client "GetNode") →
        let reads : NodeReads T := {
          getNode := fun operation request => (hosted client State.getNode operation request (world request)).1
          decode := decode }
        ∀ result, FetchNeighborNodes reads query.tenantId query.graph neighbors result →
          (∃ nodes, result = .ok nodes ∧ List.Forall₂ (NeighborNode.Of reads query) neighbors nodes) ∨
            ∃ e, result = .error (.decode "neighbor node json" e) := by
  intro world listed
  have hlawful := neighborsPaged_lawful debug client query
  have hfollows := follows debug client query world turns
  rw [hloop] at hfollows
  have hwalk : walk (neighborsPage debug client query (some neighborPageSize)) world turns =
      .stopped (.ok neighbors) after := by
    generalize walk (neighborsPage debug client query (some neighborPageSize)) world turns = walked at hfollows
    cases hfollows with
    | stopped _ _ => rfl
  obtain ⟨last, hlast, w, hrunning, hstopped⟩ := last_turn hwalk
  constructor
  · have hname : ¬(some neighborPageSize = some 1 ∧ "" ∈ (listed 0).map Prod.fst) := fun h => absurd h.1 (by decide)
    obtain ⟨read, hdecodes, hsorted, hsound, hall⟩ := read_of_stopped hlawful hrunning hstopped hname
    exact ⟨last, hlast, read, decodes_ok.1 hdecodes, hsorted, hsound, hall⟩
  · intro later world' hopen reads result hfetch
    have hkept := kept_of_stopped (SoundAux.Sound.run before (SoundAux.Sound.start nonRfc3339Timestamps)) hrunning hstopped
    have hresult := (Buffered.collects_iff (show 0 < concurrentRequests by decide) _ _ _).1 hfetch
    rw [hresult]
    cases hnodes : neighbors.mapM (fetchNeighborNode reads query.tenantId query.graph) with
    | ok nodes =>
      left
      refine ⟨nodes, rfl, (Buffered.mapM_ok_iff.1 hnodes).imp ?_⟩
      exact fun neighbor node hnode => WalkAux.fetch_ok_iff.1 hnode
    | error e =>
      right
      obtain ⟨neighbor, hmem, herror⟩ := error_of_mapM hnodes
      let request : GetNodeRequest := ⟨query.tenantId, query.graph, neighbor.nodeId⟩
      have hthere := (hkept.run ((world' request).before client "GetNode")).2 neighbor hmem
      obtain ⟨json, hread⟩ := getNode_found "failed to get neighbor node" request (hopen request) hthere
      obtain ⟨error, rfl⟩ := fetch_error hread herror
      exact ⟨error, rfl⟩

/-- A call that stores a node. -/
def storeNode (nodeId : String) : Event :=
  .call none (.putNode { requestId := "", tenantId := "t", graph := "g", nodeId := nodeId, json := [] })

/-- An edge from one node to another. -/
def oneEdge : List Event :=
  [storeNode "a", storeNode "b", .call none (.addEdge {
    requestId := "", tenantId := "t", graph := "g", edgeId := "e", fromNode := "a", toNode := "b", label := "knows", json := [] })]

/-- The server that has it. -/
def oneEdgeServer : State := (State.start false).run oneEdge

/-- A query for it. -/
def oneEdgeQuery : NeighborQuery := ⟨"t", "g", "a", "knows", .outgoing⟩

/-- The removal of it. -/
def edgeRemoved : List Event := [.call none (.deleteEdge { tenantId := "t", graph := "g", edgeId := "e", requestId := "" })]

/-- The edge is removed before its node is read. -/
theorem neighbor_nodes_found_removed :
    let reads : NodeReads (List UInt8) := {
      getNode := fun operation request =>
        (hosted authenticated State.getNode operation request
          { server := oneEdgeServer, calls := fun _ => replacing edgeRemoved }).1
      decode := .ok }
    pageLoop (hosted authenticated (State.neighbors fun text => text)) oneEdgeQuery (World.alone "Bearer t" oneEdgeServer) 1 =
        .stopped (.ok [⟨"b", "e"⟩]) (World.alone "Bearer t" oneEdgeServer) ∧
      ∀ result, FetchNeighborNodes reads "t" "g" [⟨"b", "e"⟩] result →
        (∃ nodes, result = .ok nodes ∧ List.Forall₂ (NeighborNode.Of reads oneEdgeQuery) [⟨"b", "e"⟩] nodes) ∨
          ∃ e, result = .error (.decode "neighbor node json" e) := by
  intro reads
  have hloop : pageLoop (hosted authenticated (State.neighbors fun text => text)) oneEdgeQuery (World.alone "Bearer t" oneEdgeServer) 1 =
      .stopped (.ok [⟨"b", "e"⟩]) (World.alone "Bearer t" oneEdgeServer) := rfl
  exact ⟨hloop, (neighbor_nodes_found (fun text => text) authenticated oneEdgeQuery .ok false oneEdge (fun _ => .still "Bearer t") 1 _ _
    hloop).2 (fun _ => replacing edgeRemoved) fun _ => ⟨⟨rfl, rfl⟩, rfl⟩⟩

end Server

end RociaSdk

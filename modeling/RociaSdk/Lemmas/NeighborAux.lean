import RociaSdk.Lemmas.CatalogAux
import RociaSdk.Lemmas.SoundAux

/-!
# The neighbors the server lists

The neighbors of a node as a source, and the loop of `get_neighbor_nodes` over it: its cursors never come back, so that it is the plain
loop of a walk (`follows`). What a walk has read is there in the store at the end of it, as far as what it reads once it is there stays
(`kept_of_running`).
-/

namespace RociaSdk

namespace Server

/-- The neighbors a query asks for, under the ids of their edges. -/
def queryEntries (query : NeighborQuery) (store : Store) : List (String × Neighbor) :=
  match query.direction with
  | .outgoing => store.neighbors query.tenantId query.graph query.nodeId query.label true
  | .incoming => store.neighbors query.tenantId query.graph query.nodeId query.label false

/-- The RPC a query is for. -/
def rpcOf (query : NeighborQuery) : String :=
  match query.direction with
  | .outgoing => "NeighborsOut"
  | .incoming => "NeighborsIn"

/-- A page of the neighbors a query asks for, as the client reads it from the server. -/
def neighborsPage (debug : String → String) (client : Client) (query : NeighborQuery) (limit : Option UInt32)
    (cursor : Option String) (world : World) : Result (Page Neighbor) × World :=
  query.neighbors (hosted client (State.neighbors debug)) limit cursor world

namespace NeighborAux

open Paging HostedAux CatalogAux StoreAux SoundAux

variable {debug : String → String} {client : Client} {query : NeighborQuery} {limit : Option UInt32}
  {cursor : Option String} {world : World}

/-! ## Pages -/

theorem neighbors_reads (debug : String → String) (query : NeighborQuery) (page : Option PageRequest) :
    Reads (State.neighbors debug) (query.request page) (rpcOf query) fun store =>
      (paginate debug (queryEntries query store) page).map fun (neighbors, nextCursor) =>
        { neighbors := neighbors, page := some { nextCursor := nextCursor } } where
  eq authorization := by
    unfold NeighborQuery.request rpcOf queryEntries
    cases query.direction <;> rfl
  plain _ := Plain.map (plain_paginate _ _ _) _

/-- An edge that starts or ends at the node, under its id. -/
theorem mem_queryEntries {store : Store} {e : String × Neighbor} :
    e ∈ queryEntries query store ↔ ∃ edge, store.edges.find? (query.tenantId, query.graph) e.1 = some edge ∧
      edge.label = query.label ∧ e.2.edgeId = e.1 ∧
      match query.direction with
      | .outgoing => edge.fromNode = query.nodeId ∧ e.2.nodeId = edge.toNode
      | .incoming => edge.toNode = query.nodeId ∧ e.2.nodeId = edge.fromNode := by
  obtain ⟨name, nodeId, edgeId⟩ := e
  unfold queryEntries Store.neighbors
  cases query.direction <;>
    simp only [List.mem_map, List.mem_filter, Prod.exists, Table.mem_rows_iff, Bool.and_eq_true, decide_eq_true_eq, if_true,
      Prod.mk.injEq, Neighbor.mk.injEq, Bool.false_eq_true, if_false]
  all_goals
    constructor
    · rintro ⟨id, edge, ⟨hfind, hlabel, hnode⟩, rfl, rfl, rfl⟩
      exact ⟨edge, hfind, hlabel, rfl, hnode, rfl⟩
    · rintro ⟨edge, hfind, hlabel, rfl, hnode, rfl⟩
      exact ⟨edgeId, edge, ⟨hfind, hlabel, hnode⟩, rfl, rfl, rfl⟩

theorem sorted_queryEntries (query : NeighborQuery) (store : Store) : Sorted (queryEntries query store) := by
  unfold queryEntries
  cases query.direction <;> exact List.pairwise_map.2 ((sorted_rows _).filter _)

/-- The neighbors of a node as a source: nothing is decoded. -/
def neighborsPaged (debug : String → String) (client : Client) (query : NeighborQuery) :
    Paged Neighbor Neighbor where
  rpc := rpcOf query
  entries := queryEntries query
  decode := .ok
  context := ""
  page := neighborsPage debug client query

/-- A page that is let in holds the neighbors after its cursor, if the cursor is listed. -/
theorem neighbors_let_in (debug : String → String) (hlimit : limit ≠ some 0) (hcursor : cursor ≠ some "")
    (h : world.Admits client (rpcOf query)) :
    let entries := queryEntries query (world.arrived client (rpcOf query)).store
    neighborsPage debug client query limit cursor world =
      (if ∀ k ∈ cursor, k ∈ entries.map Prod.fst then
        .ok {
          items := (items (limit.getD defaultPageSize).toNat cursor entries).map Prod.snd
          nextCursor := nonEmpty ((next (limit.getD defaultPageSize).toNat cursor entries).getD "") }
      else .error (.status query.operation (invalidArgument ("unknown page cursor " ++ debug (cursor.getD "")))),
        world.later (world.arrived client (rpcOf query))) := by
  intro entries
  have hanswer := hosted_let_in query.operation
    (neighbors_reads debug query (some ⟨some (limit.getD defaultPageSize), cursor.getD ""⟩)) h
  dsimp only at hanswer
  rw [paginate_eq debug (sorted_queryEntries query _) (limit_pos hlimit) hcursor] at hanswer
  split
  · rename_i hlisted
    rw [if_pos hlisted] at hanswer
    exact PageAux.neighbors_ok hlimit hanswer
  · rename_i hlisted
    rw [if_neg hlisted] at hanswer
    exact PageAux.neighbors_error hlimit hanswer

theorem neighborsPaged_lawful (debug : String → String) (client : Client) (query : NeighborQuery) :
    (neighborsPaged debug client query).Lawful client where
  sorted := sorted_queryEntries query
  zero cursor world := by
    show ∃ e, neighborsPage debug client query (some 0) cursor world = (.error e, world)
    unfold neighborsPage NeighborQuery.neighbors
    cases query.direction <;> exact ⟨_, rfl⟩
  turnedAway limit cursor world hlimit hopen := by
    obtain ⟨e, t, hanswer⟩ := hosted_turned_away query.operation
      (neighbors_reads debug query (some ⟨some (limit.getD defaultPageSize), cursor.getD ""⟩)) hopen
    exact ⟨_, t, PageAux.neighbors_error hlimit hanswer⟩
  unlisted limit cursor world hlimit hcursor hopen hunlisted := by
    have hpage := neighbors_let_in debug hlimit hcursor hopen
    have hnot : ¬∀ k ∈ cursor, k ∈ (queryEntries query (world.arrived client (rpcOf query)).store).map Prod.fst := fun hlisted =>
      hunlisted.elim fun k h => h.2 (hlisted k h.1)
    dsimp only at hpage
    rw [if_neg hnot] at hpage
    exact ⟨_, hpage⟩
  listed limit cursor world hlimit hcursor hopen hlisted := by
    have hpage := neighbors_let_in debug hlimit hcursor hopen
    dsimp only at hpage
    rw [if_pos (show ∀ k ∈ cursor, k ∈ (queryEntries query (world.arrived client (rpcOf query)).store).map Prod.fst from hlisted)] at hpage
    show neighborsPage debug client query limit cursor world = _
    rw [hpage, decodeItems_ok_iff.2 (show Decodes (neighborsPaged debug client query).decode _ _ from decodes_ok.2 rfl)]
    rfl

/-! ## The loop of `get_neighbor_nodes` -/

/-- The loop is where the walk is, and has sent no cursor after the one they have come to. -/
inductive Follows : WalkState Neighbor World → LoopState World → Prop where
  | running (world : World) (cursor : Option String) (seenCursors : Finset String) (neighbors : List Neighbor) :
      (∀ sent ∈ seenCursors, ¬IsAfter cursor sent) →
      Follows (.running ⟨world, cursor, neighbors⟩) (.running ⟨world, cursor, seenCursors, neighbors⟩)
  | stopped (result : Result (List Neighbor)) (world : World) : Follows (.stopped result world) (.stopped result world)

/-- The cursors the loop has sent when it decides whether to go on do not come after the one it is at. -/
theorem sent_not_after {loop : PageLoop World} (h : ∀ sent ∈ loop.seenCursors, ¬IsAfter loop.cursor sent) :
    ∀ sent ∈ loop.sent, ¬IsAfter loop.cursor sent := by
  intro sent hsent
  unfold PageLoop.sent at hsent
  cases hcursor : loop.cursor with
  | none =>
    rw [hcursor] at hsent h
    exact h sent hsent
  | some current =>
    rw [hcursor] at hsent h
    rcases Finset.mem_insert.1 hsent with rfl | hsent
    · simp
    · exact h sent hsent

/-- The loop of `get_neighbor_nodes` follows the walk over its pages: no cursor comes back. -/
theorem follows (debug : String → String) (client : Client) (query : NeighborQuery) (world : World) (turns : Nat) :
    Follows (walk (neighborsPage debug client query (some neighborPageSize)) world turns)
      (pageLoop (hosted client (State.neighbors debug)) query world turns) := by
  have hlawful := neighborsPaged_lawful debug client query
  induction turns with
  | zero => exact .running _ _ _ _ (by simp)
  | succ turns ih =>
    unfold walk pageLoop
    generalize hwalk : walk (neighborsPage debug client query (some neighborPageSize)) world turns = walked at ih ⊢
    generalize pageLoop (hosted client (State.neighbors debug)) query world turns = looped at ih ⊢
    cases ih with
    | stopped result world => exact .stopped result world
    | running now cursor seenCursors neighbors hsent =>
      obtain ⟨hcursor, -⟩ := reads_of_running hlawful hwalk
      let loop : PageLoop World := ⟨now, cursor, seenCursors, neighbors⟩
      dsimp only
      cases hpage : neighborsPage debug client query (some neighborPageSize) cursor now with
      | mk answer after =>
      cases answer with
      | error e =>
        have hloop : loop.turn (hosted client (State.neighbors debug)) query = .stopped (.error e) after :=
          PageAux.turn_error hpage
        rw [hloop, turn_of_error hpage]
        exact .stopped _ _
      | ok page =>
        cases hnext : page.nextCursor with
        | none =>
          have hloop : loop.turn (hosted client (State.neighbors debug)) query =
              .stopped (.ok (neighbors ++ page.items)) after := PageAux.turn_last hpage (by rw [hnext]; rfl)
          rw [hloop, turn_of_last hpage hnext]
          exact .stopped _ _
        | some k =>
          -- The next cursor comes after the one that was sent last, and the others do not.
          have hturn : Walk.turn (neighborsPage debug client query (some neighborPageSize)) ⟨now, cursor, neighbors⟩ =
              .running ⟨after, some k, neighbors ++ page.items⟩ := turn_of_next hpage hnext
          obtain ⟨_, hk, hafter⟩ := turn_after hlawful hcursor hturn
          cases hk
          have hfresh : nextPaginationCursor loop.sent page.nextCursor = some k := by
            rw [hnext]
            exact if_neg fun hmem => sent_not_after hsent k hmem hafter
          have hloop : loop.turn (hosted client (State.neighbors debug)) query =
              .running ⟨after, some k, loop.sent, neighbors ++ page.items⟩ := PageAux.turn_next hpage hfresh
          rw [hloop, hturn]
          refine .running _ _ _ _ fun sent hmem => ?_
          have hle := sent_not_after hsent sent hmem
          rw [isAfter_some]
          exact fun hlt => hle fun key hkey => lt_trans (hafter key hkey) hlt

/-! ## The nodes of the neighbors -/

/-- The store keeps what holds of it, and every neighbor that was read is a node of the graph. -/
def Kept (query : NeighborQuery) (store : Store) (seen : List Neighbor) : Prop :=
  store.Sound ∧ ∀ neighbor ∈ seen, (store.nodes.find? (query.tenantId, query.graph) neighbor.nodeId).isSome = true

theorem Kept.run {s : State} {seen : List Neighbor} (events : List Event) (h : Kept query s.store seen) :
    Kept query (s.run events).store seen :=
  ⟨Sound.run events h.1, fun neighbor hmem => nodes_stay events (h.2 neighbor hmem)⟩

/-- A neighbor that is listed is a node of the graph. -/
theorem node_of_mem {store : Store} (h : store.Sound) {e : String × Neighbor} (he : e ∈ queryEntries query store) :
    (store.nodes.find? (query.tenantId, query.graph) e.2.nodeId).isSome = true := by
  obtain ⟨edge, hfind, -, -, hnode⟩ := mem_queryEntries.1 he
  have hends := h.endpoints _ _ edge hfind
  cases hdirection : query.direction with
  | outgoing =>
    rw [hdirection] at hnode
    rw [hnode.2]
    exact hends.2
  | incoming =>
    rw [hdirection] at hnode
    rw [hnode.2]
    exact hends.1

/-- What was read before a page and the page itself. -/
theorem Kept.append {w : Walk Neighbor World} {shown : List Neighbor} (h : Kept query w.world.server.store w.seen)
    (hshown : Decodes (neighborsPaged debug client query).decode
      ((pageOf (neighborsPaged debug client query) client limit w).map Prod.snd) shown) :
    Kept query (w.world.arrived client (rpcOf query)).store (w.seen ++ shown) := by
  have harrived : Kept query (w.world.arrived client (rpcOf query)).store w.seen := h.run (w.world.before client (rpcOf query))
  refine ⟨harrived.1, fun neighbor hmem => ?_⟩
  rcases List.mem_append.1 hmem with hmem | hmem
  · exact harrived.2 neighbor hmem
  · rw [decodes_ok.1 hshown] at hmem
    obtain ⟨e, he, rfl⟩ := List.mem_map.1 hmem
    exact node_of_mem harrived.1 (mem_of_mem_items he).1

theorem kept_of_running (hsound : world.server.store.Sound) {turns : Nat} {w : Walk Neighbor World}
    (h : walk (neighborsPage debug client query limit) world turns = .running w) :
    Kept query w.world.server.store w.seen := by
  have hlawful := neighborsPaged_lawful debug client query
  induction turns generalizing w with
  | zero =>
    cases h
    exact ⟨hsound, by simp⟩
  | succ turns ih =>
    obtain ⟨w', hrunning, hturn⟩ := running_succ h
    obtain ⟨hcursor, -⟩ := reads_of_running hlawful hrunning
    have hcase := turn_cases hlawful limit hcursor
    rw [show w'.turn ((neighborsPaged debug client query).page limit) = .running w from hturn] at hcase
    cases hcase with
    | next shown k _ hshown _ _ => exact (ih hrunning).append hshown

theorem kept_of_stopped (hsound : world.server.store.Sound) {turns : Nat} {w : Walk Neighbor World}
    (h : walk (neighborsPage debug client query limit) world turns = .running w) {seen : List Neighbor} {after : World}
    (hstopped : w.turn (neighborsPage debug client query limit) = .stopped (.ok seen) after) :
    Kept query after.server.store seen := by
  have hlawful := neighborsPaged_lawful debug client query
  obtain ⟨hcursor, -⟩ := reads_of_running hlawful h
  have hcase := turn_cases hlawful limit hcursor
  rw [show w.turn ((neighborsPaged debug client query).page limit) = .stopped (.ok seen) after from hstopped] at hcase
  cases hcase with
  | last shown _ hshown _ => exact (kept_of_running hsound h).append hshown

end NeighborAux

end Server

end RociaSdk

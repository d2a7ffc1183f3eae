import RociaSdk.Theorems.Pages

/-!
# The nodes behind the neighbors

`get_neighbor_nodes` reads all pages of a listing and then the nodes; a caller of `neighbor_nodes_out` or `neighbor_nodes_in`
reads the nodes of each page as it comes. On a listing that is served in pages both come to the same nodes, in the order of the
listing.
-/

namespace RociaSdk

open Buffering

variable {σ T : Type}

/-- A walk over the pages of the nodes that a query asks for: each page is read at the cursor the one before it handed out, until
one hands out none. It collects what the pages hold. -/
inductive PagedWalk (unary : PageReads σ) (reads : NodeReads T) (query : NeighborQuery) (limit : Option UInt32) :
    Option String → σ → List (NeighborNode T) → Prop where
  | last {cursor : Option String} {world after : σ} {page : Page (NeighborNode T)} :
      NeighborNodes unary reads query limit cursor world (.ok page) after → page.nextCursor = none →
      PagedWalk unary reads query limit cursor world page.items
  | next {cursor : Option String} {world after : σ} {page : Page (NeighborNode T)} {nextCursor : String}
      {nodes : List (NeighborNode T)} :
      NeighborNodes unary reads query limit cursor world (.ok page) after → page.nextCursor = some nextCursor →
      PagedWalk unary reads query limit (some nextCursor) after nodes →
      PagedWalk unary reads query limit cursor world (page.items ++ nodes)

/-- A node is what is behind an entry of a listing: it has the entry's ids, and its value is decoded from the payload its own id
was read with. -/
def NeighborNode.Of (reads : NodeReads T) (query : NeighborQuery) (entry : Neighbor) (node : NeighborNode T) : Prop :=
  node.edgeId = entry.edgeId ∧ node.nodeId = entry.nodeId ∧
    ∃ json, reads.getNode "failed to get neighbor node" ⟨query.tenantId, query.graph, entry.nodeId⟩ = .ok json ∧
      reads.decode json = .ok node.value

/-- The node behind an entry cannot be read, or its payload cannot be decoded. -/
def Neighbor.Fails (reads : NodeReads T) (query : NeighborQuery) (entry : Neighbor) : Prop :=
  ∀ node, ¬NeighborNode.Of reads query entry node

namespace WalkAux

open PageAux ListingAux Buffered

variable {unary : PageReads σ} {reads : NodeReads T} {query : NeighborQuery} {limit : Option UInt32} {listing : Listing}

/-! ## One node -/

/-- A future that gives a node gives the one behind its entry. -/
theorem fetch_ok_iff {entry : Neighbor} {node : NeighborNode T} :
    fetchNeighborNode reads query.tenantId query.graph entry = .ok node ↔ NeighborNode.Of reads query entry node := by
  unfold fetchNeighborNode NeighborNode.Of
  cases hread : reads.getNode "failed to get neighbor node" ⟨query.tenantId, query.graph, entry.nodeId⟩ with
  | error e =>
    refine ⟨nofun, ?_⟩
    rintro ⟨_, _, json, hjson, _⟩
    cases hjson
  | ok json =>
    cases hvalue : reads.decode json with
    | error e =>
      constructor
      · intro h
        simp only [hvalue, decodeContext, bind, Except.bind] at h
        cases h
      · rintro ⟨_, _, json', hjson, hdecode⟩
        cases hjson
        rw [hvalue] at hdecode
        cases hdecode
    | ok value =>
      simp only [hvalue, decodeContext, bind, Except.bind, pure, Except.pure]
      constructor
      · intro h
        cases h
        exact ⟨rfl, rfl, json, rfl, hvalue⟩
      · rintro ⟨hedge, hnode, json', hjson, hdecode⟩
        cases hjson
        rw [hvalue] at hdecode
        cases node
        cases hdecode
        cases hedge
        cases hnode
        rfl

/-- One that gives an error has an entry that fails. -/
theorem fetch_error_iff {entry : Neighbor} :
    (∃ e, fetchNeighborNode reads query.tenantId query.graph entry = .error e) ↔ entry.Fails reads query := by
  unfold Neighbor.Fails
  simp only [← fetch_ok_iff]
  cases fetchNeighborNode reads query.tenantId query.graph entry with
  | error e => exact ⟨fun _ _ => nofun, fun _ => ⟨e, rfl⟩⟩
  | ok node =>
    constructor
    · rintro ⟨e, he⟩
      cases he
    · intro h
      exact absurd rfl (h node)

/-! ## One page -/

/-- A positive limit is one that pages are requested with. -/
theorem limit_pos (hlimit : limit ≠ some 0) : 0 < limit.getD defaultPageSize := by
  cases limit with
  | none => decide
  | some limit => exact UInt32.pos_iff_ne_zero.2 fun h => hlimit (congrArg some h)

/-- The page of neighbors at a cursor. -/
theorem neighbors_served (hserves : listing.Serves query unary) (hlimit : limit ≠ some 0) {cursor : Option String}
    (hcursor : listing.issued (cursor.getD "")) (world : σ) :
    ∃ after, query.neighbors unary limit cursor world =
      (.ok ⟨listing.items (limit.getD defaultPageSize) (cursor.getD ""),
        nonEmpty (listing.nextCursor (limit.getD defaultPageSize) (cursor.getD ""))⟩, after) := by
  obtain ⟨response, hanswer, hitems, hnext⟩ := hserves query.operation _ _ world (limit_pos hlimit) hcursor
  have hpage := neighbors_ok hlimit (Prod.ext hanswer rfl)
  rw [hitems, hnext] at hpage
  exact ⟨_, hpage⟩

/-- What a page of nodes comes to: the nodes behind its entries, in order, or the error of the first that fails. -/
theorem page_iff (reads : NodeReads T) (hserves : listing.Serves query unary) (hlimit : limit ≠ some 0) {cursor : Option String}
    (hcursor : listing.issued (cursor.getD "")) (world : σ) :
    ∃ after, ∀ (result : Result (Page (NeighborNode T))) world', NeighborNodes unary reads query limit cursor world result world' ↔
      result = (((listing.items (limit.getD defaultPageSize) (cursor.getD "")).mapM
        (fetchNeighborNode reads query.tenantId query.graph)).map fun items =>
          ⟨items, nonEmpty (listing.nextCursor (limit.getD defaultPageSize) (cursor.getD ""))⟩) ∧ world' = after := by
  obtain ⟨after, hpage⟩ := neighbors_served hserves hlimit hcursor world
  refine ⟨after, ?_⟩
  intro result world'
  unfold NeighborNodes FetchNeighborNodes
  rw [hpage]
  simp only [collects_iff (show 0 < concurrentRequests by decide), exists_eq_left]

/-- A page that comes holds the nodes behind its entries, and hands out the cursor of the next one. -/
theorem page_ok (hserves : listing.Serves query unary) (hlimit : limit ≠ some 0) {cursor : Option String}
    (hcursor : listing.issued (cursor.getD "")) {world after : σ} {page : Page (NeighborNode T)}
    (h : NeighborNodes unary reads query limit cursor world (.ok page) after) :
    (listing.items (limit.getD defaultPageSize) (cursor.getD "")).mapM (fetchNeighborNode reads query.tenantId query.graph) =
        .ok page.items ∧
      page.nextCursor = nonEmpty (listing.nextCursor (limit.getD defaultPageSize) (cursor.getD "")) := by
  obtain ⟨_, hiff⟩ := page_iff reads hserves hlimit hcursor world
  have hresult := ((hiff _ _).1 h).1
  cases hitems : (listing.items (limit.getD defaultPageSize) (cursor.getD "")).mapM
      (fetchNeighborNode reads query.tenantId query.graph) with
  | error e =>
    rw [hitems] at hresult
    cases hresult
  | ok items =>
    rw [hitems] at hresult
    cases hresult
    exact ⟨rfl, rfl⟩

/-- A page whose entries can all be read comes. -/
theorem page_of_ok (hserves : listing.Serves query unary) (hlimit : limit ≠ some 0) {cursor : Option String}
    (hcursor : listing.issued (cursor.getD "")) (world : σ) {items : List (NeighborNode T)}
    (h : (listing.items (limit.getD defaultPageSize) (cursor.getD "")).mapM
      (fetchNeighborNode reads query.tenantId query.graph) = .ok items) :
    ∃ after, NeighborNodes unary reads query limit cursor world
      (.ok ⟨items, nonEmpty (listing.nextCursor (limit.getD defaultPageSize) (cursor.getD ""))⟩) after := by
  obtain ⟨after, hiff⟩ := page_iff reads hserves hlimit hcursor world
  exact ⟨after, (hiff _ _).2 ⟨by rw [h]; rfl, rfl⟩⟩

/-- A page fails exactly when it holds an entry that does. -/
theorem page_fails_iff (hserves : listing.Serves query unary) (hlimit : limit ≠ some 0) {cursor : Option String}
    (hcursor : listing.issued (cursor.getD "")) {world after : σ} {result : Result (Page (NeighborNode T))}
    (h : NeighborNodes unary reads query limit cursor world result after) :
    (∃ e, result = .error e) ↔
      ∃ entry ∈ listing.items (limit.getD defaultPageSize) (cursor.getD ""), entry.Fails reads query := by
  obtain ⟨_, hiff⟩ := page_iff reads hserves hlimit hcursor world
  have hresult := ((hiff _ _).1 h).1
  simp only [← fetch_error_iff]
  rw [← mapM_error_iff, hresult]
  cases (listing.items (limit.getD defaultPageSize) (cursor.getD "")).mapM
      (fetchNeighborNode reads query.tenantId query.graph) with
  | error e => exact ⟨fun _ => ⟨e, rfl⟩, fun _ => ⟨e, rfl⟩⟩
  | ok items =>
    constructor
    · rintro ⟨e, he⟩
      cases he
    · rintro ⟨e, he⟩
      cases he

/-! ## All pages -/

/-- What all pages come to: the nodes behind the entries of the listing, in order, or the error of the first that fails. -/
theorem all_iff (hserves : listing.Serves query unary) (world : σ) {result : Result (List (NeighborNode T))} :
    GetNeighborNodes unary reads query world result ↔
      result = listing.entries.mapM (fetchNeighborNode reads query.tenantId query.graph) := by
  obtain ⟨turns, after, hstopped, _⟩ := ListingAux.reads hserves world
  have hloop : pageLoop unary query world turns = .stopped (.ok listing.entries) after.world := by
    rw [← pageLoop_recording, hstopped]
    rfl
  have hpos : 0 < concurrentRequests := by decide
  constructor
  · rintro ⟨turns', neighbors, after', hloop', hfetched⟩
    have hsame := stopped_stays turns' hloop
    rw [Nat.add_comm, stopped_stays turns hloop'] at hsame
    cases hsame
    exact (collects_iff hpos _ _ _).1 hfetched
  · intro hresult
    exact ⟨turns, _, _, hloop, (collects_iff hpos _ _ _).2 hresult⟩

/-- A walk from a cursor collects the nodes behind what is left of the listing there. -/
theorem walk_collects (hserves : listing.Serves query unary) (hlimit : limit ≠ some 0) {cursor : Option String} {world : σ}
    {nodes : List (NeighborNode T)} (h : PagedWalk unary reads query limit cursor world nodes)
    (hcursor : listing.issued (cursor.getD "")) :
    (listing.rest (cursor.getD "")).mapM (fetchNeighborNode reads query.tenantId query.graph) = .ok nodes := by
  induction h with
  | @last cursor _ _ _ hpage hend =>
    obtain ⟨hitems, hnext⟩ := page_ok hserves hlimit hcursor hpage
    have hlast : listing.nextCursor (limit.getD defaultPageSize) (cursor.getD "") = "" := by
      by_cases hne : listing.nextCursor (limit.getD defaultPageSize) (cursor.getD "") = ""
      · exact hne
      · rw [hend, eq_comm, nonEmpty_eq_some.2 ⟨rfl, hne⟩] at hnext
        cases hnext
    rw [rest_last (limit_pos hlimit) hcursor hlast]
    exact hitems
  | next hpage hmore _ ih =>
    obtain ⟨hitems, hnext⟩ := page_ok hserves hlimit hcursor hpage
    obtain ⟨heq, hne⟩ := nonEmpty_eq_some.1 (hnext.symm.trans hmore)
    have hissued := listing.next_issued _ _ (limit_pos hlimit) hcursor
    rw [heq] at hissued
    rw [rest_next (limit_pos hlimit) hcursor (by rw [heq]; exact hne), heq, mapM_append_ok_iff]
    exact ⟨_, _, hitems, ih hissued, rfl⟩

/-- If all nodes behind what is left of the listing at a cursor can be read, there is a walk from there. -/
theorem walk_exists (hserves : listing.Serves query unary) (hlimit : limit ≠ some 0) :
    ∀ (cursor : Option String) (world : σ) (nodes : List (NeighborNode T)), listing.issued (cursor.getD "") →
      (listing.rest (cursor.getD "")).mapM (fetchNeighborNode reads query.tenantId query.graph) = .ok nodes →
      PagedWalk unary reads query limit cursor world nodes := by
  intro cursor world nodes hcursor hnodes
  -- The distance to the end is less at each page.
  induction hdistance : listing.distance (limit.getD defaultPageSize) (cursor.getD "") using Nat.strongRecOn
    generalizing cursor world nodes with
  | ind distance ih =>
    by_cases hlast : listing.nextCursor (limit.getD defaultPageSize) (cursor.getD "") = ""
    · rw [rest_last (limit_pos hlimit) hcursor hlast] at hnodes
      obtain ⟨after, hpage⟩ := page_of_ok hserves hlimit hcursor world hnodes
      exact .last hpage (by rw [hlast]; rfl)
    · rw [rest_next (limit_pos hlimit) hcursor hlast, mapM_append_ok_iff] at hnodes
      obtain ⟨items, more, hitems, hmore, rfl⟩ := hnodes
      obtain ⟨after, hpage⟩ := page_of_ok hserves hlimit hcursor world hitems
      refine .next hpage (nonEmpty_eq_some.2 ⟨rfl, hlast⟩) ?_
      refine ih _ ?_ _ after more (listing.next_issued _ _ (limit_pos hlimit) hcursor) hmore rfl
      rw [← hdistance]
      exact listing.acyclic _ _ (limit_pos hlimit) hcursor hlast

end WalkAux

open PageAux Buffered WalkAux in
/-- On a listing that is served in pages, the nodes that a walk over pages of any positive limit collects are those that
`get_neighbor_nodes` returns: the ones behind the entries, in the order of the listing. If they can all be read then there is
such a walk and the call returns them; if one cannot, then the call fails, and of the pages exactly those that hold such an
entry. -/
theorem neighbor_nodes_paged (unary : PageReads σ) (reads : NodeReads T) (query : NeighborQuery) (limit : Option UInt32)
    (listing : Listing) (hserves : listing.Serves query unary) (hlimit : limit ≠ some 0) (world : σ) :
    (∃ result, ∀ returned, GetNeighborNodes unary reads query world returned ↔ returned = result) ∧
    (∀ nodes, GetNeighborNodes unary reads query world (.ok nodes) ↔ PagedWalk unary reads query limit none world nodes) ∧
    (∀ nodes, GetNeighborNodes unary reads query world (.ok nodes) →
      List.Forall₂ (NeighborNode.Of reads query) listing.entries nodes) ∧
    ((∃ e, GetNeighborNodes unary reads query world (.error e)) ↔ ∃ entry ∈ listing.entries, entry.Fails reads query) ∧
    ∀ cursor, listing.issued (cursor.getD "") → ∀ before,
      (∃ result after, NeighborNodes unary reads query limit cursor before result after) ∧
      ∀ (result : Result (Page (NeighborNode T))) after, NeighborNodes unary reads query limit cursor before result after →
        ((∃ e, result = .error e) ↔
          ∃ entry ∈ listing.items (limit.getD defaultPageSize) (cursor.getD ""), entry.Fails reads query) := by
  refine ⟨⟨_, fun _ => all_iff hserves world⟩, ?_, ?_, ?_, ?_⟩
  · intro nodes
    rw [all_iff hserves world]
    constructor
    · intro hnodes
      exact walk_exists hserves hlimit none world nodes listing.beginning hnodes.symm
    · intro hwalk
      exact (walk_collects hserves hlimit hwalk listing.beginning).symm
  · intro nodes hnodes
    rw [all_iff hserves world, eq_comm, mapM_ok_iff] at hnodes
    exact hnodes.imp fun _ _ => fetch_ok_iff.1
  · simp only [all_iff hserves world, ← fetch_error_iff]
    rw [← mapM_error_iff]
    exact exists_congr fun _ => eq_comm
  · intro cursor hcursor before
    obtain ⟨after, hiff⟩ := page_iff reads hserves hlimit hcursor before
    exact ⟨⟨_, after, (hiff _ _).2 ⟨rfl, rfl⟩⟩, fun _ _ => page_fails_iff hserves hlimit hcursor⟩

/-! ## A listing of three neighbors -/

/-- Three neighbors, in pages of at most two of them: a page that is not the last hands out the node that the next one begins with. -/
def threeNeighbors : Listing where
  issued cursor := cursor = "" ∨ cursor = "b" ∨ cursor = "c"
  rest cursor := if cursor = "" then [⟨"a", "1"⟩, ⟨"b", "2"⟩, ⟨"c", "3"⟩] else if cursor = "b" then [⟨"b", "2"⟩, ⟨"c", "3"⟩] else [⟨"c", "3"⟩]
  items limit cursor :=
    if cursor = "" then if limit = 1 then [⟨"a", "1"⟩] else [⟨"a", "1"⟩, ⟨"b", "2"⟩]
    else if cursor = "b" then if limit = 1 then [⟨"b", "2"⟩] else [⟨"b", "2"⟩, ⟨"c", "3"⟩]
    else [⟨"c", "3"⟩]
  nextCursor limit cursor :=
    if cursor = "" then if limit = 1 then "b" else "c" else if cursor = "b" then if limit = 1 then "c" else "" else ""
  distance _ cursor := if cursor = "" then 2 else if cursor = "b" then 1 else 0
  beginning := .inl rfl
  next_issued limit _ _ h := by
    rcases h with rfl | rfl | rfl <;> by_cases hone : limit = 1 <;> simp [hone]
  short limit cursor hlimit h := by
    have hpos : 0 < limit.toNat := UInt32.lt_iff_toNat_lt.1 hlimit
    rcases h with rfl | rfl | rfl <;> by_cases hone : limit = 1 <;> simp [hone]
    all_goals
      have hne : limit.toNat ≠ 1 := fun heq => hone (UInt32.toNat_inj.1 heq)
      omega
  run limit _ _ h := by
    rcases h with rfl | rfl | rfl <;> by_cases hone : limit = 1 <;> simp [hone]
  acyclic limit _ _ h hne := by
    revert hne
    rcases h with rfl | rfl | rfl <;> by_cases hone : limit = 1 <;> simp [hone]

/-- A server of them. -/
def threeNeighborsServer : PageReads Unit := fun _ request _ =>
  match request.page with
  | some page =>
    let limit := page.limit.getD defaultPageSize
    (.ok { neighbors := threeNeighbors.items limit page.cursor,
           page := some { nextCursor := threeNeighbors.nextCursor limit page.cursor } }, ())
  | none => (.ok { neighbors := [], page := none }, ())

/-- The server serves them. -/
theorem threeNeighbors_serves (query : NeighborQuery) : threeNeighbors.Serves query threeNeighborsServer := by
  intro operation limit cursor world _ _
  refine ⟨{ neighbors := threeNeighbors.items limit cursor,
            page := some { nextCursor := threeNeighbors.nextCursor limit cursor } }, ?_, rfl, rfl⟩
  unfold threeNeighborsServer
  rw [PageAux.request_page]
  rfl

/-- A query for them. -/
def neighborsQuery : NeighborQuery := ⟨"tenant", "graph", "node", "label", .outgoing⟩

/-- Nodes that are read and decoded as their own ids. -/
def readIds : NodeReads (List UInt8) := ⟨fun _ request => .ok request.nodeId.toUTF8.data.toList, .ok⟩

/-- On that server the two pages that all nodes are read from, and the three pages of one entry each, come to the same three nodes, in
the order of the listing. -/
theorem neighbor_nodes_paged_three :
    ∃ nodes, GetNeighborNodes threeNeighborsServer readIds neighborsQuery () (.ok nodes) ∧
      PagedWalk threeNeighborsServer readIds neighborsQuery (some 1) none () nodes ∧
      List.Forall₂ (NeighborNode.Of readIds neighborsQuery) [⟨"a", "1"⟩, ⟨"b", "2"⟩, ⟨"c", "3"⟩] nodes := by
  obtain ⟨⟨result, hresult⟩, hwalk, hnodes, hfails, _⟩ := neighbor_nodes_paged threeNeighborsServer readIds neighborsQuery
    (some 1) threeNeighbors (threeNeighbors_serves neighborsQuery) (by decide) ()
  cases result with
  | error e =>
    obtain ⟨entry, _, hentry⟩ := hfails.1 ⟨e, (hresult _).2 rfl⟩
    exact absurd ⟨rfl, rfl, _, rfl, rfl⟩ (hentry ⟨entry.edgeId, entry.nodeId, _⟩)
  | ok nodes =>
    have hreturned := (hresult (.ok nodes)).2 rfl
    exact ⟨nodes, hreturned, (hwalk nodes).1 hreturned, hnodes nodes hreturned⟩

end RociaSdk

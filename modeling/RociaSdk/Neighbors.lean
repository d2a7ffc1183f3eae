import Mathlib.Data.Finset.Insert
import RociaSdk.Graph
import RociaSdk.Lib.Buffered

/-!
# Neighbors of a node

Reading the neighbors of a node (`graph.rs`): one page of them, every page, and the nodes behind them. What a unary call for a
page answers comes from a world of any type, which holds the server, the network, deadlines and replays, and which the call
leaves in another state. A listing that is served in pages is described at the end.
-/

namespace RociaSdk

open Buffering

/-! ## Pages -/

/-- `DEFAULT_PAGE_SIZE`. -/
def defaultPageSize : UInt32 := 20

/-- `NEIGHBOR_PAGE_SIZE`. -/
def neighborPageSize : UInt32 := 50

/-- `PageRequest`. -/
structure PageRequest where
  limit : Option UInt32
  cursor : String
deriving DecidableEq, Repr

/-- `PageResponse`. -/
structure PageResponse where
  nextCursor : String
deriving DecidableEq, Repr

/-- `Page`. -/
structure Page (α : Type) where
  items : List α
  nextCursor : Option String
deriving DecidableEq, Repr

/-- `page_request`. -/
def pageRequest (limit : Option UInt32) (cursor : Option String) : Result (Option PageRequest) :=
  if limit = some 0 then .error (.validation "page limit must be greater than zero")
  else .ok (some { limit := some (limit.getD defaultPageSize), cursor := cursor.getD "" })

/-- `non_empty`. -/
def nonEmpty (value : String) : Option String := if value = "" then none else some value

/-- `Neighbor`. -/
structure Neighbor where
  nodeId : String
  edgeId : String
deriving DecidableEq, Repr

/-- `NeighborsOutRequest` and `NeighborsInRequest`. -/
inductive NeighborsRequest where
  | out (tenantId graph fromNode label : String) (page : Option PageRequest)
  | into (tenantId graph toNode label : String) (page : Option PageRequest)
deriving DecidableEq, Repr

/-- `NeighborsOutResponse` and `NeighborsInResponse`. -/
structure NeighborsResponse where
  neighbors : List Neighbor
  page : Option PageResponse
deriving DecidableEq, Repr

/-- What a unary call for a page of neighbors, made for an operation, answers in a world and what it leaves of it. -/
abbrev PageReads (σ : Type) := String → NeighborsRequest → σ → Result NeighborsResponse × σ

variable {σ : Type}

/-- `non_empty` on the cursor a response carries, if it carries one. -/
def NeighborsResponse.nextCursor (response : NeighborsResponse) : Option String :=
  response.page.bind fun page => nonEmpty page.nextCursor

/-- What `neighbors_out` and `neighbors_in` do, each with an operation and a request of its own. -/
def neighborsPage (unary : PageReads σ) (operation : String) (request : Option PageRequest → NeighborsRequest)
    (limit : Option UInt32) (cursor : Option String) (world : σ) : Result (Page Neighbor) × σ :=
  match pageRequest limit cursor with
  | .error e => (.error e, world)
  | .ok page =>
    match unary operation (request page) world with
    | (.error e, world) => (.error e, world)
    | (.ok response, world) => (.ok { items := response.neighbors, nextCursor := response.nextCursor }, world)

/-- `neighbors_out`. -/
def neighborsOut (unary : PageReads σ) (tenantId graph fromNode label : String) (limit : Option UInt32)
    (cursor : Option String) (world : σ) : Result (Page Neighbor) × σ :=
  neighborsPage unary "failed to get outgoing neighbors" (.out tenantId graph fromNode label) limit cursor world

/-- `neighbors_in`. -/
def neighborsIn (unary : PageReads σ) (tenantId graph toNode label : String) (limit : Option UInt32)
    (cursor : Option String) (world : σ) : Result (Page Neighbor) × σ :=
  neighborsPage unary "failed to get incoming neighbors" (.into tenantId graph toNode label) limit cursor world

/-! ## The page loop -/

/-- `NeighborDirection`. -/
inductive NeighborDirection where
  | outgoing
  | incoming
deriving DecidableEq, Repr

/-- The arguments of `get_neighbor_nodes`. -/
structure NeighborQuery where
  tenantId : String
  graph : String
  nodeId : String
  label : String
  direction : NeighborDirection
deriving DecidableEq, Repr

/-- A page of the neighbors a query asks for. -/
def NeighborQuery.neighbors (query : NeighborQuery) (unary : PageReads σ) (limit : Option UInt32) (cursor : Option String)
    (world : σ) : Result (Page Neighbor) × σ :=
  match query.direction with
  | .outgoing => neighborsOut unary query.tenantId query.graph query.nodeId query.label limit cursor world
  | .incoming => neighborsIn unary query.tenantId query.graph query.nodeId query.label limit cursor world

/-- `next_pagination_cursor`. -/
def nextPaginationCursor (seenCursors : Finset String) (nextCursor : Option String) : Option String :=
  match nextCursor with
  | some nextCursor => if nextCursor ∈ seenCursors then none else some nextCursor
  | none => none

/-- What the loop of `get_neighbor_nodes` holds between two turns, and the world it runs in. -/
structure PageLoop (σ : Type) where
  world : σ
  cursor : Option String
  seenCursors : Finset String
  neighbors : List Neighbor

/-- How far the loop is. -/
inductive LoopState (σ : Type) where
  | running (loop : PageLoop σ)
  | stopped (result : Result (List Neighbor)) (world : σ)

/-- The world a loop has come to. -/
def LoopState.world : LoopState σ → σ
  | running loop => loop.world
  | stopped _ world => world

/-- One turn of the loop. -/
def PageLoop.turn (unary : PageReads σ) (query : NeighborQuery) (loop : PageLoop σ) : LoopState σ :=
  let seenCursors :=
    match loop.cursor with
    | some current => insert current loop.seenCursors
    | none => loop.seenCursors
  match query.neighbors unary (some neighborPageSize) loop.cursor loop.world with
  | (.error e, world) => .stopped (.error e) world
  | (.ok page, world) =>
    let neighbors := loop.neighbors ++ page.items
    match nextPaginationCursor seenCursors page.nextCursor with
    | some nextCursor =>
      .running { world := world, cursor := some nextCursor, seenCursors := seenCursors, neighbors := neighbors }
    | none => .stopped (.ok neighbors) world

/-- The loop after so many turns, or stopped before. -/
def pageLoop (unary : PageReads σ) (query : NeighborQuery) (world : σ) : Nat → LoopState σ
  | 0 => .running { world := world, cursor := none, seenCursors := ∅, neighbors := [] }
  | turns + 1 =>
    match pageLoop unary query world turns with
    | .running loop => loop.turn unary query
    | .stopped result world => .stopped result world

/-! ## The nodes -/

/-- `GetNodeRequest`. -/
structure GetNodeRequest where
  tenantId : String
  graph : String
  nodeId : String
deriving DecidableEq, Repr

/-- `NeighborNode`. -/
structure NeighborNode (T : Type) where
  edgeId : String
  nodeId : String
  value : T
deriving DecidableEq, Repr

/-- `decode_context`: a failed decoding under what was being decoded. -/
def decodeContext {α : Type} (context : String) : Except String α → Result α
  | .ok a => .ok a
  | .error source => .error (.decode context source)

/-- How nodes are read: what a unary `GetNode` answers, and the decoding of a payload. -/
structure NodeReads (T : Type) where
  getNode : String → GetNodeRequest → Result (List UInt8)
  decode : List UInt8 → Except String T

variable {T : Type}

/-- The future `fetch_neighbor_nodes` makes for a neighbor. -/
def fetchNeighborNode (reads : NodeReads T) (tenantId graph : String) (neighbor : Neighbor) : Result (NeighborNode T) := do
  let json ← reads.getNode "failed to get neighbor node" { tenantId := tenantId, graph := graph, nodeId := neighbor.nodeId }
  let value ← decodeContext "neighbor node json" (reads.decode json)
  return { edgeId := neighbor.edgeId, nodeId := neighbor.nodeId, value := value }

/-- What `fetch_neighbor_nodes` can return: what its stream of futures, ten of them under way at most, is collected to when
they complete in some order. -/
def FetchNeighborNodes (reads : NodeReads T) (tenantId graph : String) (neighbors : List Neighbor)
    (result : Result (List (NeighborNode T))) : Prop :=
  Buffered.Collects concurrentRequests (fetchNeighborNode reads tenantId graph) neighbors result

/-- What `neighbor_nodes_out` and `neighbor_nodes_in` can return, and the world they leave. -/
def NeighborNodes (unary : PageReads σ) (reads : NodeReads T) (query : NeighborQuery) (limit : Option UInt32)
    (cursor : Option String) (world : σ) (result : Result (Page (NeighborNode T))) (world' : σ) : Prop :=
  match query.neighbors unary limit cursor world with
  | (.error e, after) => result = .error e ∧ world' = after
  | (.ok page, after) =>
    ∃ items, FetchNeighborNodes reads query.tenantId query.graph page.items items ∧
      (result = items.map fun items => { items := items, nextCursor := page.nextCursor }) ∧ world' = after

/-- What `get_neighbor_nodes` can return. -/
def GetNeighborNodes (unary : PageReads σ) (reads : NodeReads T) (query : NeighborQuery) (world : σ)
    (result : Result (List (NeighborNode T))) : Prop :=
  ∃ turns neighbors after, pageLoop unary query world turns = .stopped neighbors after ∧
    match neighbors with
    | .error e => result = .error e
    | .ok neighbors => FetchNeighborNodes reads query.tenantId query.graph neighbors result

/-- `get_outgoing_neighbor_nodes`, by what it can return. -/
def GetOutgoingNeighborNodes (unary : PageReads σ) (reads : NodeReads T) (tenantId graph nodeId label : String) (world : σ)
    (result : Result (List (NeighborNode T))) : Prop :=
  GetNeighborNodes unary reads ⟨tenantId, graph, nodeId, label, .outgoing⟩ world result

/-- `get_incoming_neighbor_nodes`, by what it can return. -/
def GetIncomingNeighborNodes (unary : PageReads σ) (reads : NodeReads T) (tenantId graph nodeId label : String) (world : σ)
    (result : Result (List (NeighborNode T))) : Prop :=
  GetNeighborNodes unary reads ⟨tenantId, graph, nodeId, label, .incoming⟩ world result

/-! ## What is seen from outside -/

/-- The request a query sends for a page. -/
def NeighborQuery.request (query : NeighborQuery) (page : Option PageRequest) : NeighborsRequest :=
  match query.direction with
  | .outgoing => .out query.tenantId query.graph query.nodeId query.label page
  | .incoming => .into query.tenantId query.graph query.nodeId query.label page

/-- The page a request is for. -/
def NeighborsRequest.page : NeighborsRequest → Option PageRequest
  | out _ _ _ _ page => page
  | into _ _ _ _ page => page

/-- A call for a page: what was requested, and what came of it. -/
structure PageCall where
  request : NeighborsRequest
  answer : Result NeighborsResponse

namespace PageCall

/-- The cursor a call has sent: an empty one is none. -/
def sentCursor (call : PageCall) : Option String := call.request.page.bind fun page => nonEmpty page.cursor

/-- The cursor its answer has handed out: an empty one is none. -/
def handedCursor (call : PageCall) : Option String :=
  match call.answer with
  | .ok response => response.nextCursor
  | .error _ => none

/-- The neighbors its answer holds. -/
def neighbors (call : PageCall) : List Neighbor :=
  match call.answer with
  | .ok response => response.neighbors
  | .error _ => []

end PageCall

/-- The same world with the calls made in it. -/
structure Recorded (σ : Type) where
  world : σ
  calls : List PageCall

/-- Unary calls that are recorded. -/
def PageReads.recording (unary : PageReads σ) : PageReads (Recorded σ) := fun operation request recorded =>
  let (answer, world) := unary operation request recorded.world
  (answer, { world := world, calls := recorded.calls ++ [{ request := request, answer := answer }] })

/-! ## A listing served in pages -/

/-- A listing of neighbors and the pages it is served in, at the cursors that are issued for it: an empty cursor stands for the
beginning in a request and for the end in a response. -/
structure Listing where
  issued : String → Prop
  /-- What is left from a cursor on. -/
  rest : String → List Neighbor
  /-- The page at a cursor, for a limit. -/
  items : UInt32 → String → List Neighbor
  nextCursor : UInt32 → String → String
  /-- How far a cursor is from the end. -/
  distance : UInt32 → String → Nat
  beginning : issued ""
  next_issued : ∀ limit cursor, 0 < limit → issued cursor → issued (nextCursor limit cursor)
  short : ∀ limit cursor, 0 < limit → issued cursor → (items limit cursor).length ≤ limit.toNat
  run : ∀ limit cursor, 0 < limit → issued cursor →
    rest cursor = items limit cursor ++ if nextCursor limit cursor = "" then [] else rest (nextCursor limit cursor)
  acyclic : ∀ limit cursor, 0 < limit → issued cursor → nextCursor limit cursor ≠ "" →
    distance limit (nextCursor limit cursor) < distance limit cursor

/-- All of the listing. -/
def Listing.entries (listing : Listing) : List Neighbor := listing.rest ""

/-- The listing is what is served for a query, in every world. -/
def Listing.Serves (listing : Listing) (query : NeighborQuery) (unary : PageReads σ) : Prop :=
  ∀ operation limit cursor world, 0 < limit → listing.issued cursor →
    ∃ response, (unary operation (query.request (some { limit := some limit, cursor := cursor })) world).1 = .ok response ∧
      response.neighbors = listing.items limit cursor ∧ response.nextCursor = nonEmpty (listing.nextCursor limit cursor)

end RociaSdk

import RociaSdk.Neighbors

/-!
# Listings

The calls that return a page of a listing (`document.rs`, `graph.rs`, `file.rs`, `tenant.rs`): they send a page request, and hand out
the items of the response with its cursor. What a unary call answers comes from a world of any type, as for the neighbors of a
node. `Walk` is the loop of `docs/pagination.md`, which reads a listing to its end.
-/

namespace RociaSdk

variable {σ Req Resp α T : Type}

/-- What a unary call, made for an operation, answers in a world and what it leaves of it. -/
abbrev Unary (σ Req Resp : Type) := String → Req → σ → Result Resp × σ

/-- What a unary call answers for an operation, decoded. -/
def readDecoded (unary : Unary σ Req Resp) (operation : String) (request : Req) (decode : Resp → Result α) (world : σ) :
    Result α × σ :=
  match unary operation request world with
  | (.error e, world) => (.error e, world)
  | (.ok response, world) => (decode response, world)

/-! ## Listings of names -/

/-- `ListGraphsResponse`, `ListNodesResponse`, `ListBucketsResponse`, `ListFilesResponse`, `ListTenantsResponse` and
`ListCollectionsResponse`: items and a page message. -/
structure ListingResponse (α : Type) where
  items : List α
  page : Option PageResponse
deriving DecidableEq, Repr

/-- `response.page.and_then(|page| non_empty(page.next_cursor))`. -/
def nextCursorOf (page : Option PageResponse) : Option String := page.bind fun page => nonEmpty page.nextCursor

/-- What every listing of names does, with an operation and a request of its own. -/
def listPage (unary : Unary σ Req (ListingResponse α)) (operation : String) (request : Option PageRequest → Req)
    (limit : Option UInt32) (cursor : Option String) (world : σ) : Result (Page α) × σ :=
  match pageRequest limit cursor with
  | .error e => (.error e, world)
  | .ok page =>
    readDecoded unary operation (request page)
      (fun response => .ok { items := response.items, nextCursor := nextCursorOf response.page }) world

/-- `ListCollectionsRequest`. -/
structure ListCollectionsRequest where
  tenantId : String
  page : Option PageRequest
deriving DecidableEq, Repr

/-- `CollectionInfo`. -/
structure CollectionInfo where
  collection : String
  count : UInt64
deriving DecidableEq, Repr

/-- `ListGraphsRequest`. -/
structure ListGraphsRequest where
  tenantId : String
  page : Option PageRequest
deriving DecidableEq, Repr

/-- `ListNodesRequest`. -/
structure ListNodesRequest where
  tenantId : String
  graph : String
  page : Option PageRequest
deriving DecidableEq, Repr

/-- `ListBucketsRequest`. -/
structure ListBucketsRequest where
  tenantId : String
  page : Option PageRequest
deriving DecidableEq, Repr

/-- `ListFilesRequest`. -/
structure ListFilesRequest where
  tenantId : String
  bucket : String
  page : Option PageRequest
deriving DecidableEq, Repr

/-- `ListTenantsRequest`. -/
structure ListTenantsRequest where
  page : Option PageRequest
deriving DecidableEq, Repr

/-- `list_collections`. -/
def listCollections (unary : Unary σ ListCollectionsRequest (ListingResponse CollectionInfo)) (tenantId : String)
    (limit : Option UInt32) (cursor : Option String) (world : σ) : Result (Page CollectionInfo) × σ :=
  listPage unary "failed to list collections" (fun page => { tenantId := tenantId, page := page }) limit cursor world

/-- `list_graphs`. -/
def listGraphs (unary : Unary σ ListGraphsRequest (ListingResponse String)) (tenantId : String) (limit : Option UInt32)
    (cursor : Option String) (world : σ) : Result (Page String) × σ :=
  listPage unary "failed to list graphs" (fun page => { tenantId := tenantId, page := page }) limit cursor world

/-- `list_nodes`. -/
def listNodes (unary : Unary σ ListNodesRequest (ListingResponse String)) (tenantId graph : String) (limit : Option UInt32)
    (cursor : Option String) (world : σ) : Result (Page String) × σ :=
  listPage unary "failed to list nodes" (fun page => { tenantId := tenantId, graph := graph, page := page }) limit cursor world

/-- `list_buckets`. -/
def listBuckets (unary : Unary σ ListBucketsRequest (ListingResponse String)) (tenantId : String) (limit : Option UInt32)
    (cursor : Option String) (world : σ) : Result (Page String) × σ :=
  listPage unary "failed to list buckets" (fun page => { tenantId := tenantId, page := page }) limit cursor world

/-- `list_files`. -/
def listFiles (unary : Unary σ ListFilesRequest (ListingResponse String)) (tenantId bucket : String) (limit : Option UInt32)
    (cursor : Option String) (world : σ) : Result (Page String) × σ :=
  listPage unary "failed to list files" (fun page => { tenantId := tenantId, bucket := bucket, page := page }) limit cursor world

/-- `list_tenants`. -/
def listTenants (unary : Unary σ ListTenantsRequest (ListingResponse String)) (limit : Option UInt32) (cursor : Option String)
    (world : σ) : Result (Page String) × σ :=
  listPage unary "failed to list tenants" (fun page => { page := page }) limit cursor world

/-! ## Listings of documents -/

/-- `ListDocResponse`, `FindByFieldResponse` and `QueryDocResponse`: payloads, a page message and the number of matches. -/
structure DocumentsResponse where
  json : List (List UInt8)
  page : Option PageResponse
  totalCount : UInt64
deriving DecidableEq, Repr

/-- `DocumentPage`. -/
structure DocumentPage (T : Type) where
  items : List T
  nextCursor : Option String
  totalCount : UInt64
deriving DecidableEq, Repr

/-- `ListDocRequest`. -/
structure ListDocRequest where
  tenantId : String
  collection : String
  page : Option PageRequest
deriving DecidableEq, Repr

/-- `FindByFieldRequest`. -/
structure FindByFieldRequest where
  tenantId : String
  collection : String
  field : String
  valueJson : List UInt8
  page : Option PageRequest
deriving DecidableEq, Repr

/-- The items of a page from the one at an index on, decoded up to the first that fails, whose index leads the message. -/
def decodeItems {γ : Type} (decode : γ → Except String T) : Nat → List γ → Except String (List T)
  | _, [] => .ok []
  | index, data :: rest =>
    match decode data with
    | .error error => .error ("item " ++ toString index ++ ": " ++ error)
    | .ok item => (decodeItems decode (index + 1) rest).map fun items => item :: items

/-- `decode_document_page`. -/
def decodeDocumentPage (decode : List UInt8 → Except String T) (json : List (List UInt8)) (page : Option PageResponse) :
    Except String (List T × Option String) :=
  (decodeItems decode 0 json).map fun items => (items, nextCursorOf page)

/-- What every listing of documents does, with a context for its decoding. -/
def documentPage (unary : Unary σ Req DocumentsResponse) (decode : List UInt8 → Except String T) (operation context : String)
    (request : Req) (world : σ) : Result (DocumentPage T) × σ :=
  readDecoded unary operation request
    (fun response =>
      (decodeContext context (decodeDocumentPage decode response.json response.page)).map fun (items, nextCursor) =>
        { items := items, nextCursor := nextCursor, totalCount := response.totalCount })
    world

/-- `list_documents`. -/
def listDocuments (unary : Unary σ ListDocRequest DocumentsResponse) (decode : List UInt8 → Except String T)
    (tenantId collection : String) (limit : Option UInt32) (cursor : Option String) (world : σ) : Result (DocumentPage T) × σ :=
  match pageRequest limit cursor with
  | .error e => (.error e, world)
  | .ok page =>
    documentPage unary decode "failed to list documents" "listed documents"
      { tenantId := tenantId, collection := collection, page := page } world

/-- `search_documents`: the value is encoded before the page request is made. -/
def searchDocuments {V : Type} (unary : Unary σ FindByFieldRequest DocumentsResponse) (encode : V → Except String (List UInt8))
    (decode : List UInt8 → Except String T) (tenantId collection searchField : String) (value : V) (limit : Option UInt32)
    (cursor : Option String) (world : σ) : Result (DocumentPage T) × σ :=
  match encodeContext "search value" (encode value) with
  | .error e => (.error e, world)
  | .ok valueJson =>
    match pageRequest limit cursor with
    | .error e => (.error e, world)
    | .ok page =>
      documentPage unary decode "failed to search documents" "search results"
        { tenantId := tenantId, collection := collection, field := searchField, valueJson := valueJson, page := page } world

/-- A page of documents as a page: what the loop of `docs/pagination.md` reads of it. -/
def DocumentPage.toPage (page : DocumentPage T) : Page T := { items := page.items, nextCursor := page.nextCursor }

/-! ## The loop -/

/-- What the loop of `docs/pagination.md` holds between two turns, and the world it runs in. -/
structure Walk (α σ : Type) where
  world : σ
  cursor : Option String
  seen : List α

/-- How far the loop is. -/
inductive WalkState (α σ : Type) where
  | running (walk : Walk α σ)
  | stopped (result : Result (List α)) (world : σ)

/-- One turn of the loop: a page is read, and the loop goes on from its cursor if it has one. -/
def Walk.turn (list : Option String → σ → Result (Page α) × σ) (walk : Walk α σ) : WalkState α σ :=
  match list walk.cursor walk.world with
  | (.error e, world) => .stopped (.error e) world
  | (.ok page, world) =>
    match page.nextCursor with
    | some next => .running { world := world, cursor := some next, seen := walk.seen ++ page.items }
    | none => .stopped (.ok (walk.seen ++ page.items)) world

/-- The loop after so many turns, or stopped before. -/
def walk (list : Option String → σ → Result (Page α) × σ) (world : σ) : Nat → WalkState α σ
  | 0 => .running { world := world, cursor := none, seen := [] }
  | turns + 1 =>
    match walk list world turns with
    | .running walk => walk.turn list
    | .stopped result world => .stopped result world

end RociaSdk

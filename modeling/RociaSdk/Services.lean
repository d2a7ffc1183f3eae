import RociaSdk.Client
import RociaSdk.Lib.Chunks
import RociaSdk.Server

/-!
# The services of the server

The handlers of the four services (`tests/support/mod.rs`), each under the name of its RPC. A call carries the `authorization` its
metadata had. An `Upload` is given by the messages of its stream and how the stream ends, and a `Download` is answered by the
stream it opens.
-/

namespace RociaSdk

/-! ## Messages -/

/-- `GetDocRequest`. -/
structure GetDocRequest where
  tenantId : String
  collection : String
  id : String
deriving DecidableEq, Repr

/-- `DeleteDocRequest`. -/
structure DeleteDocRequest where
  tenantId : String
  collection : String
  id : String
  requestId : String
deriving DecidableEq, Repr

/-- `GetEdgeRequest`. -/
structure GetEdgeRequest where
  tenantId : String
  graph : String
  edgeId : String
deriving DecidableEq, Repr

/-- `DeleteEdgeRequest`. -/
structure DeleteEdgeRequest where
  tenantId : String
  graph : String
  edgeId : String
  requestId : String
deriving DecidableEq, Repr

/-- `StatRequest`. -/
structure StatRequest where
  tenantId : String
  bucket : String
  fileId : String
deriving DecidableEq, Repr

/-- `StatResponse`. -/
structure StatResponse where
  sizeBytes : UInt64
  contentType : String
  checksum : List UInt8
  createdAt : String
  updatedAt : String
deriving DecidableEq, Repr

/-- `DeleteRequest`. -/
structure DeleteRequest where
  tenantId : String
  bucket : String
  fileId : String
  requestId : String
deriving DecidableEq, Repr

/-- The stream of an upload as the server reads it: its messages, and how it ends after them. -/
structure UploadStream where
  messages : List UploadRequest
  ending : Except Status Unit

namespace Server

/-- `MAX_UPLOAD_CHUNK`. -/
def maxUploadChunk : Nat := 1024 * 1024

/-- `DOWNLOAD_CHUNK`. -/
def downloadChunk : Nat := 64 * 1024 + 7

/-- `CHECKSUM_LEN`. -/
def checksumLen : Nat := 32

/-! ## What writes store -/

namespace Store

/-- What `put_doc` stores. -/
def putDoc (r : PutDocRequest) (store : Store) : Store :=
  { store with documents := store.documents.put (r.tenantId, r.collection) r.id r.json }

/-- What `delete_doc` removes. -/
def deleteDoc (r : DeleteDocRequest) (store : Store) : Store :=
  { store with documents := store.documents.remove (r.tenantId, r.collection) r.id }

/-- What `put_node` stores. -/
def putNode (r : PutNodeRequest) (store : Store) : Store :=
  { store with nodes := store.nodes.put (r.tenantId, r.graph) r.nodeId r.json }

/-- Whether another edge of the graph has the triplet: `taken`. -/
def taken (store : Store) (r : AddEdgeRequest) : Bool :=
  (store.edges.rows (r.tenantId, r.graph)).toList.any fun (edgeId, edge) =>
    edgeId ≠ r.edgeId && edge.fromNode = r.fromNode && edge.toNode = r.toNode && edge.label = r.label

/-- What `add_edge` checks: both endpoints are there, the source first, and no other edge has the triplet. -/
def checkEdge (r : AddEdgeRequest) (store : Store) : Except Status Unit :=
  match [r.fromNode, r.toNode].find? fun endpoint => (store.nodes.find? (r.tenantId, r.graph) endpoint).isNone with
  | some endpoint => .error (notFound ("node " ++ endpoint ++ " not found"))
  | none =>
    if store.taken r then
      .error (alreadyExists ("an edge already connects " ++ r.fromNode ++ " -" ++ r.label ++ "-> " ++ r.toNode))
    else .ok ()

/-- What `add_edge` stores. -/
def addEdge (r : AddEdgeRequest) (store : Store) : Store :=
  { store with edges := store.edges.put (r.tenantId, r.graph) r.edgeId r.edge }

/-- What `delete_edge` removes. -/
def deleteEdge (r : DeleteEdgeRequest) (store : Store) : Store :=
  { store with edges := store.edges.remove (r.tenantId, r.graph) r.edgeId }

/-- What `upload` stores: the time of its creation stays with a file that is replaced. -/
def upload (head : UploadRequest) (bytes : List UInt8) (store : Store) : Store :=
  let (now, store) := store.tick
  let existing := store.files.find? (head.tenantId, head.bucket) head.fileId
  { store with
    files := store.files.put (head.tenantId, head.bucket) head.fileId {
      bytes := bytes
      sizeBytes := UInt64.ofNat bytes.length
      contentType := head.contentType
      checksum := head.checksum
      createdAt := (existing.map StoredFile.createdAt).getD now
      updatedAt := now } }

/-- What `delete` removes. -/
def delete (r : DeleteRequest) (store : Store) : Store :=
  { store with files := store.files.remove (r.tenantId, r.bucket) r.fileId }

end Store

/-! ## Uploads -/

/-- The loop that drains the stream of an upload: the first message without its chunk, and the bytes of all chunks. -/
def drain (ending : Except Status Unit) :
    Option UploadRequest → List UInt8 → List UploadRequest → Except Status (Option UploadRequest × List UInt8)
  | head, bytes, [] => ending.map fun _ => (head, bytes)
  | head, bytes, message :: rest =>
    if message.chunk.length > maxUploadChunk then
      .error (invalidArgument ("chunk of " ++ toString message.chunk.length ++ " bytes exceeds the " ++ toString maxUploadChunk ++
        "-byte limit"))
    else drain ending (some (head.getD { message with chunk := [] })) (bytes ++ message.chunk) rest

/-- What `upload` checks of the first message and the bytes, before it knows a replay. -/
def checkUpload (head : UploadRequest) (bytes : List UInt8) : Except Status Unit :=
  if head.checksum.length ≠ checksumLen then
    .error (invalidArgument ("checksum must be exactly " ++ toString checksumLen ++ " bytes, got " ++
      toString head.checksum.length))
  else if UInt64.ofNat bytes.length ≠ head.sizeBytes then
    .error (invalidArgument ("received " ++ toString bytes.length ++ " bytes but size_bytes declared " ++ toString head.sizeBytes))
  else .ok ()

namespace State

/-- `put_doc`. -/
def putDoc (authorization : Option String) (r : PutDocRequest) (s : State) : Except Status Unit × State :=
  s.entering "PutDoc" authorization fun s =>
    s.write (requestMarker r.requestId "PutDoc" (r.tenantId, r.collection, r.id)) r.tenantId (fun _ => .ok ()) (Store.putDoc r)

/-- `delete_doc`. -/
def deleteDoc (authorization : Option String) (r : DeleteDocRequest) (s : State) : Except Status Unit × State :=
  s.entering "DeleteDoc" authorization fun s =>
    s.write (requestMarker r.requestId "DeleteDoc" (r.tenantId, r.collection, r.id)) r.tenantId (fun _ => .ok ()) (Store.deleteDoc r)

/-- `put_node`. -/
def putNode (authorization : Option String) (r : PutNodeRequest) (s : State) : Except Status Unit × State :=
  s.entering "PutNode" authorization fun s =>
    s.write (requestMarker r.requestId "PutNode" (r.tenantId, r.graph, r.nodeId)) r.tenantId (fun _ => .ok ()) (Store.putNode r)

/-- `add_edge`. -/
def addEdge (authorization : Option String) (r : AddEdgeRequest) (s : State) : Except Status Unit × State :=
  s.entering "AddEdge" authorization fun s =>
    s.write (requestMarker r.requestId "AddEdge" (r.tenantId, r.graph, r.edgeId)) r.tenantId (Store.checkEdge r) (Store.addEdge r)

/-- `delete_edge`. -/
def deleteEdge (authorization : Option String) (r : DeleteEdgeRequest) (s : State) : Except Status Unit × State :=
  s.entering "DeleteEdge" authorization fun s =>
    s.write (requestMarker r.requestId "DeleteEdge" (r.tenantId, r.graph, r.edgeId)) r.tenantId (fun _ => .ok ())
      (Store.deleteEdge r)

/-- `upload`: the stream is drained before the call is entered, and a replay is known only once its checks are passed. -/
def upload (authorization : Option String) (stream : UploadStream) (s : State) : Except Status Unit × State :=
  match s.uploadRejectBeforeReading with
  | some code =>
    (.error { code := code, message := "upload rejected before reading the stream", timeoutExpired := false },
      { s with uploadRejectBeforeReading := none })
  | none =>
    match drain stream.ending none [] stream.messages with
    | .error e => (.error e, s)
    | .ok (none, _) => (.error (invalidArgument "upload stream carried no messages at all"), s)
    | .ok (some head, bytes) =>
      s.entering "Upload" authorization fun s =>
        match checkUpload head bytes with
        | .error e => (.error e, s)
        | .ok () =>
          s.write (requestMarker head.requestId "Upload" (head.tenantId, head.bucket, head.fileId)) head.tenantId (fun _ => .ok ())
            (Store.upload head bytes)

/-- `delete`. -/
def delete (authorization : Option String) (r : DeleteRequest) (s : State) : Except Status Unit × State :=
  s.entering "Delete" authorization fun s =>
    s.write (requestMarker r.requestId "Delete" (r.tenantId, r.bucket, r.fileId)) r.tenantId (fun _ => .ok ()) (Store.delete r)

/-! ## Reads -/

/-- `get_doc`. -/
def getDoc (authorization : Option String) (r : GetDocRequest) (s : State) : Except Status (List UInt8) × State :=
  s.read "GetDoc" authorization fun store =>
    match store.documents.find? (r.tenantId, r.collection) r.id with
    | some json => .ok json
    | none => .error (notFound ("document " ++ r.id ++ " not found"))

/-- `list_doc`. -/
def listDoc (debug : String → String) (authorization : Option String) (r : ListDocRequest) (s : State) :
    Except Status DocumentsResponse × State :=
  s.read "ListDoc" authorization fun store =>
    let documents := (store.documents.rows (r.tenantId, r.collection)).toList
    (paginate debug documents r.page).map fun (json, nextCursor) =>
      { json := json, page := some { nextCursor := nextCursor }, totalCount := UInt64.ofNat documents.length }

/-- `list_collections`. -/
def listCollections (debug : String → String) (authorization : Option String) (r : ListCollectionsRequest) (s : State) :
    Except Status (ListingResponse CollectionInfo) × State :=
  s.read "ListCollections" authorization fun store =>
    let collections := (store.documents.toList.filter fun (scope, documents) => scope.1 = r.tenantId && !documents.isEmpty).map
      fun (scope, documents) => (scope.2, { collection := scope.2, count := UInt64.ofNat documents.size : CollectionInfo })
    listing debug collections r.page

/-- `get_node`. -/
def getNode (authorization : Option String) (r : GetNodeRequest) (s : State) : Except Status (List UInt8) × State :=
  s.read "GetNode" authorization fun store =>
    match store.nodes.find? (r.tenantId, r.graph) r.nodeId with
    | some json => .ok json
    | none => .error (notFound ("node " ++ r.nodeId ++ " not found"))

/-- `get_edge`. -/
def getEdge (authorization : Option String) (r : GetEdgeRequest) (s : State) : Except Status StoredEdge × State :=
  s.read "GetEdge" authorization fun store =>
    match store.edges.find? (r.tenantId, r.graph) r.edgeId with
    | some edge => .ok edge
    | none => .error (notFound ("edge " ++ r.edgeId ++ " not found"))

/-- The entries `neighbors_out` and `neighbors_in` answer a request from. -/
def neighborEntries (store : Store) : NeighborsRequest → List (String × Neighbor)
  | .out tenantId graph fromNode label _ => store.neighbors tenantId graph fromNode label true
  | .into tenantId graph toNode label _ => store.neighbors tenantId graph toNode label false

/-- The RPC a request is for. -/
def neighborsRpc : NeighborsRequest → String
  | .out .. => "NeighborsOut"
  | .into .. => "NeighborsIn"

/-- `neighbors_out` and `neighbors_in`. -/
def neighbors (debug : String → String) (authorization : Option String) (r : NeighborsRequest) (s : State) :
    Except Status NeighborsResponse × State :=
  s.read (neighborsRpc r) authorization fun store =>
    (paginate debug (neighborEntries store r) r.page).map fun (neighbors, nextCursor) =>
      { neighbors := neighbors, page := some { nextCursor := nextCursor } }

/-- `list_graphs`. -/
def listGraphs (debug : String → String) (authorization : Option String) (r : ListGraphsRequest) (s : State) :
    Except Status (ListingResponse String) × State :=
  s.read "ListGraphs" authorization fun store =>
    let graphs := (store.nodes.toList.filter fun (scope, nodes) => scope.1 = r.tenantId && !nodes.isEmpty).map
      fun (scope, _) => (scope.2, scope.2)
    listing debug graphs r.page

/-- `list_nodes`. -/
def listNodes (debug : String → String) (authorization : Option String) (r : ListNodesRequest) (s : State) :
    Except Status (ListingResponse String) × State :=
  s.read "ListNodes" authorization fun store =>
    listing debug ((store.nodes.rows (r.tenantId, r.graph)).keys.map fun id => (id, id)) r.page

/-- `download`: the stream that is opened, cut short where a failure is scripted. -/
def download (authorization : Option String) (r : DownloadRequest) (s : State) : Except Status DownloadStream × State :=
  s.entering "Download" authorization fun s =>
    match s.store.files.find? (r.tenantId, r.bucket) r.fileId with
    | none => (.error (notFound ("file " ++ r.fileId ++ " not found")), s)
    | some file =>
      let chunks := Chunks.chunksOf downloadChunk file.bytes
      match s.downloadChunkFailure with
      | some (deliver, code) =>
        let failure : Status :=
          { code := code, message := "download failed after " ++ toString deliver ++ " chunks", timeoutExpired := false }
        (.ok { messages := chunks.take deliver, ending := .error failure }, { s with downloadChunkFailure := none })
      | none => (.ok { messages := chunks, ending := .ok () }, s)

/-- `stat`. -/
def stat (authorization : Option String) (r : StatRequest) (s : State) : Except Status StatResponse × State :=
  s.read "Stat" authorization fun store =>
    match store.files.find? (r.tenantId, r.bucket) r.fileId with
    | some file =>
      .ok { sizeBytes := file.sizeBytes, contentType := file.contentType, checksum := file.checksum, createdAt := file.createdAt,
            updatedAt := file.updatedAt }
    | none => .error (notFound ("file " ++ r.fileId ++ " not found"))

/-- `list_buckets`. -/
def listBuckets (debug : String → String) (authorization : Option String) (r : ListBucketsRequest) (s : State) :
    Except Status (ListingResponse String) × State :=
  s.read "ListBuckets" authorization fun store =>
    let buckets := (store.files.toList.filter fun (scope, files) => scope.1 = r.tenantId && !files.isEmpty).map
      fun (scope, _) => (scope.2, scope.2)
    listing debug buckets r.page

/-- `list_files`. -/
def listFiles (debug : String → String) (authorization : Option String) (r : ListFilesRequest) (s : State) :
    Except Status (ListingResponse String) × State :=
  s.read "ListFiles" authorization fun store =>
    listing debug ((store.files.rows (r.tenantId, r.bucket)).keys.map fun id => (id, id)) r.page

/-- `list_tenants`. -/
def listTenants (debug : String → String) (authorization : Option String) (r : ListTenantsRequest) (s : State) :
    Except Status (ListingResponse String) × State :=
  s.read "ListTenants" authorization fun store => listing debug (store.tenants.toList.map fun tenant => (tenant, tenant)) r.page

end State

end Server

end RociaSdk

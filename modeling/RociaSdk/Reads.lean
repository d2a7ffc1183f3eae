import RociaSdk.Download
import RociaSdk.Services
import RociaSdk.Timestamp

/-!
# Reads of one thing

The calls that return one document, node, edge or file (`document.rs`, `graph.rs`, `file.rs`). What a unary call answers comes from a
world of any type, as for the listings, and so does what opening a stream comes to.
-/

namespace RociaSdk

variable {σ T : Type}

/-- `get_document`. -/
def getDocument (unary : Unary σ GetDocRequest (List UInt8)) (decode : List UInt8 → Except String T)
    (tenantId collection documentId : String) (world : σ) : Result T × σ :=
  readDecoded unary "failed to load document" { tenantId := tenantId, collection := collection, id := documentId }
    (fun json => decodeContext "document" (decode json)) world

/-- `get_node`. -/
def getNode (unary : Unary σ GetNodeRequest (List UInt8)) (decode : List UInt8 → Except String T) (tenantId graph nodeId : String)
    (world : σ) : Result T × σ :=
  readDecoded unary "failed to load node" { tenantId := tenantId, graph := graph, nodeId := nodeId }
    (fun json => decodeContext "node json" (decode json)) world

/-- `Edge`. -/
structure Edge (T : Type) where
  edgeId : String
  fromNode : String
  toNode : String
  label : String
  value : T
deriving DecidableEq, Repr

/-- `edge_from_response`. A `GetEdgeResponse` has the fields of a stored edge. -/
def edgeFromResponse (edgeId : String) (response : StoredEdge) (value : T) : Edge T :=
  { edgeId := edgeId, fromNode := response.fromNode, toNode := response.toNode, label := response.label, value := value }

/-- `get_edge`. -/
def getEdge (unary : Unary σ GetEdgeRequest StoredEdge) (decode : List UInt8 → Except String T) (tenantId graph edgeId : String)
    (world : σ) : Result (Edge T) × σ :=
  readDecoded unary "failed to load edge" { tenantId := tenantId, graph := graph, edgeId := edgeId }
    (fun response => (decodeContext "edge json" (decode response.json)).map fun value => edgeFromResponse edgeId response value)
    world

/-! ## Files -/

/-- `FileMetadata`, with the fields a verified download does not read. -/
structure FileStat extends FileMetadata where
  contentType : String
  createdAt : FileTimestamp
  updatedAt : FileTimestamp

/-- `FileMetadata::from`. -/
def FileStat.fromResponse (response : StatResponse) : FileStat :=
  { sizeBytes := response.sizeBytes, checksum := response.checksum, contentType := response.contentType,
    createdAt := ⟨response.createdAt⟩, updatedAt := ⟨response.updatedAt⟩ }

/-- `stat_file`. -/
def statFile (unary : Unary σ StatRequest StatResponse) (tenantId bucket fileId : String) (world : σ) : Result FileStat × σ :=
  readDecoded unary "failed to stat file" { tenantId := tenantId, bucket := bucket, fileId := fileId }
    (fun response => .ok (FileStat.fromResponse response)) world

/-- `download_file_stream`, of a file: what opening the stream comes to. -/
def openDownload (serverStreaming : Unary σ DownloadRequest DownloadStream) (tenantId bucket fileId : String) (world : σ) :
    Result DownloadStream × σ :=
  serverStreaming downloadOperation { tenantId := tenantId, bucket := bucket, fileId := fileId } world

/-- The bytes a download stream carries, if it ends well. -/
def DownloadStream.collect (stream : DownloadStream) : Result (List UInt8) :=
  (statusContext "file download stream failed" stream.ending).map fun _ => stream.messages.flatten

/-- `download_file`. -/
def downloadFile (serverStreaming : Unary σ DownloadRequest DownloadStream) (tenantId bucket fileId : String) (world : σ) :
    Result (List UInt8) × σ :=
  readDecoded serverStreaming downloadOperation { tenantId := tenantId, bucket := bucket, fileId := fileId }
    DownloadStream.collect world

/-- `download_file_verified`, in the order of its calls: the download is opened only when `stat_file` has answered. -/
def downloadVerified (sha : Sha256) (unary : Unary σ StatRequest StatResponse)
    (serverStreaming : Unary σ DownloadRequest DownloadStream) (tenantId bucket fileId : String) (world : σ) :
    Result (List UInt8) × σ :=
  match statFile unary tenantId bucket fileId world with
  | (.error e, world) => (.error e, world)
  | (.ok stat, world) =>
    match openDownload serverStreaming tenantId bucket fileId world with
    | (opened, world) => (downloadFileVerified sha (.ok stat.toFileMetadata) opened, world)

end RociaSdk

import RociaSdk.Document
import RociaSdk.Services

/-!
# The other writes of the client

`delete_document` (`document.rs`), `put_node`, `add_edge` and `delete_edge` (`graph.rs`), and `delete_file` (`file.rs`): each builds one
request, under the caller's request id or a default one, and sends it by a unary call. The type `V` of property values and their JSON
encoding are parameters.
-/

namespace RociaSdk

open Interleave

/-- `WriteOptions`. -/
structure WriteOptions where
  requestId : Option String
deriving DecidableEq, Repr

/-! ## Requests -/

/-- `default_delete_document_request_id`, on the UUID drawn. -/
def defaultDeleteDocumentRequestId (collection uuid : String) : String := "delete_document:" ++ collection ++ ":" ++ uuid

/-- The default request id of `delete_edge`, on the UUID drawn. -/
def defaultDeleteEdgeRequestId (uuid : String) : String := "delete_edge:" ++ uuid

/-- The default request id of `delete_file`, on the UUID drawn. -/
def defaultDeleteFileRequestId (uuid : String) : String := "delete_file:" ++ uuid

/-- `build_delete_doc_request`. -/
def buildDeleteDocRequest (tenantId collection documentId requestId : String) : DeleteDocRequest :=
  { tenantId := tenantId, collection := collection, id := documentId, requestId := requestId }

namespace Client

variable {V : Type}

/-- The request id of a write: the caller's, or one made of a UUID. -/
def writeRequestId {Req : Type} (requestId : Option String) (default : String → String) : Call Req Unit String :=
  match requestId with
  | some requestId => return requestId
  | none => do return default (← Call.uuid)

/-! ## Calls -/

/-- `delete_document`. -/
def deleteDocument (client : Client) (tenantId collection documentId : String) (options : WriteOptions) :
    Call DeleteDocRequest Unit (Result Unit) := do
  let requestId ← writeRequestId options.requestId (defaultDeleteDocumentRequestId collection)
  client.unary "failed to delete document" (buildDeleteDocRequest tenantId collection documentId requestId)

/-- `put_node`. -/
def putNode (client : Client) (encode : V → Except String (List UInt8)) (tenantId graph nodeId : String) (value : V)
    (options : WriteOptions) : Call PutNodeRequest Unit (Result Unit) := do
  match encodeContext "node json" (encode value) with
  | .error e => return .error e
  | .ok json =>
    let requestId ← writeRequestId options.requestId defaultPutNodeRequestId
    client.unary "failed to upsert node"
      { tenantId := tenantId, graph := graph, nodeId := nodeId, json := json, requestId := requestId }

/-- `add_edge`. `build_add_edge_request` is written out: it draws its UUID once the value is encoded. -/
def addEdge (client : Client) (encode : V → Except String (List UInt8)) (tenantId graph : String) (edge : EdgeInput V) :
    Call AddEdgeRequest Unit (Result Unit) := do
  match encodeContext "edge json" (encode edge.value) with
  | .error e => return .error e
  | .ok json =>
    let requestId ← writeRequestId edge.requestId defaultAddEdgeRequestId
    client.unary "failed to add edge" {
      tenantId := tenantId
      graph := graph
      edgeId := edge.edgeId
      fromNode := edge.fromNode
      toNode := edge.toNode
      label := edge.label
      json := json
      requestId := requestId }

/-- `delete_edge`. -/
def deleteEdge (client : Client) (tenantId graph edgeId : String) (options : WriteOptions) :
    Call DeleteEdgeRequest Unit (Result Unit) := do
  let requestId ← writeRequestId options.requestId defaultDeleteEdgeRequestId
  client.unary "failed to delete edge" { tenantId := tenantId, graph := graph, edgeId := edgeId, requestId := requestId }

/-- `delete_file`. -/
def deleteFile (client : Client) (tenantId bucket fileId : String) (options : WriteOptions) :
    Call DeleteRequest Unit (Result Unit) := do
  let requestId ← writeRequestId options.requestId defaultDeleteFileRequestId
  client.unary "failed to delete file" { tenantId := tenantId, bucket := bucket, fileId := fileId, requestId := requestId }

end Client

end RociaSdk

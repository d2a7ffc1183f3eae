import RociaSdk.Lib.Absorbing
import RociaSdk.Services

/-!
# Runs of the server

What can happen to the server: write calls of any clients, reads, and the failures and tokens a test scripts. What tampers with the
store behind the handlers is left out (`drop_stored_byte`, `corrupt_stored_bytes`, `corrupt_stored_checksum`), and so is
`emit_non_rfc3339_timestamps` in the middle of a run. `landed` are the write calls of a run that change the store, each at the moment it
does. `writes` says of the seven writes what their handlers have in common: the server is a service that absorbs replays.
-/

namespace RociaSdk

namespace Server

/-- A call of one of the seven writes. -/
inductive WriteCall where
  | putDoc (r : PutDocRequest)
  | deleteDoc (r : DeleteDocRequest)
  | putNode (r : PutNodeRequest)
  | addEdge (r : AddEdgeRequest)
  | deleteEdge (r : DeleteEdgeRequest)
  | upload (stream : UploadStream)
  | delete (r : DeleteRequest)

namespace WriteCall

/-- The handler of a call. -/
def handle (authorization : Option String) : WriteCall → State → Except Status Unit × State
  | putDoc r => State.putDoc authorization r
  | deleteDoc r => State.deleteDoc authorization r
  | putNode r => State.putNode authorization r
  | addEdge r => State.addEdge authorization r
  | deleteEdge r => State.deleteEdge authorization r
  | upload stream => State.upload authorization stream
  | delete r => State.delete authorization r

/-- What the drained stream of an upload comes to: its first message and its bytes. -/
def uploaded (stream : UploadStream) : Option (UploadRequest × List UInt8) :=
  match drain stream.ending none [] stream.messages with
  | .ok (some head, bytes) => some (head, bytes)
  | _ => none

/-- The marker of a call. -/
def marker : WriteCall → Option RequestMarker
  | putDoc r => requestMarker r.requestId "PutDoc" (r.tenantId, r.collection, r.id)
  | deleteDoc r => requestMarker r.requestId "DeleteDoc" (r.tenantId, r.collection, r.id)
  | putNode r => requestMarker r.requestId "PutNode" (r.tenantId, r.graph, r.nodeId)
  | addEdge r => requestMarker r.requestId "AddEdge" (r.tenantId, r.graph, r.edgeId)
  | deleteEdge r => requestMarker r.requestId "DeleteEdge" (r.tenantId, r.graph, r.edgeId)
  | upload stream =>
    (uploaded stream).bind fun (head, _) => requestMarker head.requestId "Upload" (head.tenantId, head.bucket, head.fileId)
  | delete r => requestMarker r.requestId "Delete" (r.tenantId, r.bucket, r.fileId)

/-- The tenant a call is for. -/
def tenantId : WriteCall → String
  | putDoc r => r.tenantId
  | deleteDoc r => r.tenantId
  | putNode r => r.tenantId
  | addEdge r => r.tenantId
  | deleteEdge r => r.tenantId
  | upload stream => ((uploaded stream).map fun (head, _) => head.tenantId).getD ""
  | delete r => r.tenantId

/-- What is checked of a call before a replay is known: the stream of an upload. -/
def vet : WriteCall → Except Status Unit
  | upload stream =>
    match drain stream.ending none [] stream.messages with
    | .error e => .error e
    | .ok (none, _) => .error (invalidArgument "upload stream carried no messages at all")
    | .ok (some head, bytes) => checkUpload head bytes
  | _ => .ok ()

/-- What is checked of a call against the store. -/
def check : WriteCall → Store → Except Status Unit
  | addEdge r => Store.checkEdge r
  | _ => fun _ => .ok ()

/-- What a call stores. -/
def put : WriteCall → Store → Store
  | putDoc r => Store.putDoc r
  | deleteDoc r => Store.deleteDoc r
  | putNode r => Store.putNode r
  | addEdge r => Store.addEdge r
  | deleteEdge r => Store.deleteEdge r
  | upload stream =>
    match uploaded stream with
    | some (head, bytes) => Store.upload head bytes
    | none => id
  | delete r => Store.delete r

end WriteCall

/-- The seven writes, as a service that absorbs replays. -/
def writes : Absorbing.Service Store WriteCall RequestMarker Status where
  key := WriteCall.marker
  vet := WriteCall.vet
  apply call store := (call.check store).map fun _ => call.put (store.register call.tenantId)

/-- The store and the markers of a server. -/
def State.marked (s : State) : Absorbing.Marked Store RequestMarker := { contents := s.store, marks := s.appliedRequests }

/-! ## Runs -/

/-- A new server, after `emit_non_rfc3339_timestamps` or without it. -/
def State.start (nonRfc3339Timestamps : Bool) : State :=
  { State.default with store := { Store.empty with nonRfc3339Timestamps := nonRfc3339Timestamps } }

/-- What can happen to a server: a call of some client, or something that is scripted. The format of the timestamps is chosen before
a run. -/
inductive Event where
  | call (authorization : Option String) (write : WriteCall)
  /-- A read, by the RPC it is for: nothing of the store depends on what it asks for. -/
  | read (rpc : String) (authorization : Option String)
  | download (authorization : Option String) (r : DownloadRequest)
  /-- `fail_next`. -/
  | failNext (rpc : String) (times : Nat) (code : Code)
  /-- `accept_only_tokens`. -/
  | acceptOnlyTokens (tokens : Finset String)
  /-- `fail_download_after_chunks`. -/
  | failDownloadAfterChunks (chunks : Nat) (code : Code)
  /-- `fail_upload_before_reading`. -/
  | failUploadBeforeReading (code : Code)

/-- What an event makes of the server. -/
def State.step (s : State) : Event → State
  | .call authorization write => (write.handle authorization s).2
  | .read rpc authorization => (s.enter rpc authorization).2
  | .download authorization r => (s.download authorization r).2
  | .failNext rpc times code =>
    { s with failures := Function.update s.failures rpc (s.failures rpc ++ List.replicate times code) }
  | .acceptOnlyTokens tokens => { s with acceptedTokens := some (tokens.image fun token => "Bearer " ++ token) }
  | .failDownloadAfterChunks chunks code => { s with downloadChunkFailure := some (chunks, code) }
  | .failUploadBeforeReading code => { s with uploadRejectBeforeReading := some code }

/-- What a run of events makes of the server. -/
def State.run (s : State) (events : List Event) : State := events.foldl State.step s

/-- The call of an event, if it lands: it is acknowledged, and is not a replay. -/
def Event.lands (s : State) : Event → Option WriteCall
  | .call authorization write =>
    match (write.handle authorization s).1 with
    | .ok () => if s.absorbsReplay write.marker then none else some write
    | .error _ => none
  | _ => none

/-- The calls of a run that land, in the order they do. -/
def State.landed : State → List Event → List WriteCall
  | _, [] => []
  | s, event :: events => (event.lands s).toList ++ (s.step event).landed events

end Server

end RociaSdk

import Mathlib.Logic.Function.Iterate
import RociaSdk.Error

/-!
# The two upload streams

`chunkUploadRequests` cuts a file held in memory into `UploadRequest` messages; `rechunkUploadRequests` does it for a source
that yields byte pieces of any size (`file.rs`). The second is the `stream::unfold` of the source: `rechunkIteration` is one
iteration of its loop, and `Rechunk.step` drives the loop and collects what it emits. Byte counts the source keeps in a `u64`
are `UInt64`, whose addition wraps like the release build's; lengths of things in memory are naturals.
-/

namespace RociaSdk

/-- `DEFAULT_CHUNK_SIZE`: 1 MiB. -/
def defaultChunkSize : Nat := 1024 * 1024

/-- `UPLOAD_OPERATION`. -/
def uploadOperation : String := "failed to upload file"

/-- A `bytes::Bytes` value: like every Rust allocation it is no longer than `isize::MAX`. -/
structure Bytes where
  data : List UInt8
  len_lt : data.length < 2 ^ 63

/-- A SHA-256 digest, the `[u8; 32]` of the source. -/
abbrev Digest := Vector UInt8 32

/-- The protobuf `UploadRequest`. -/
structure UploadRequest where
  tenantId : String := ""
  bucket : String := ""
  fileId : String := ""
  sizeBytes : UInt64 := 0
  contentType : String := ""
  checksum : List UInt8 := []
  chunk : List UInt8 := []
  requestId : String := ""
deriving DecidableEq, Repr

/-! ## A file in memory -/

/-- What the closure of `chunk_upload_requests` has captured: fields the first request takes, and later ones find empty. -/
structure ChunkCapture where
  tenantId : Option String
  bucket : Option String
  fileId : Option String
  contentType : Option String
  checksum : Option Digest
  requestId : Option String

/-- The number of messages: one for an empty file, which still has metadata to deliver. -/
def chunkCount (bytes : List UInt8) : Nat :=
  if bytes.isEmpty then 1 else (bytes.length + defaultChunkSize - 1) / defaultChunkSize

/-- One call of the closure: the request with index `index`, and what is left captured. -/
def chunkRequest (bytes : List UInt8) (capture : ChunkCapture) (index : Nat) : UploadRequest × ChunkCapture :=
  let start := index * defaultChunkSize
  let stop := min (start + defaultChunkSize) bytes.length
  ({ tenantId := capture.tenantId.getD ""
     bucket := capture.bucket.getD ""
     fileId := capture.fileId.getD ""
     sizeBytes := if index = 0 then UInt64.ofNat bytes.length else 0
     contentType := capture.contentType.getD ""
     checksum := (capture.checksum.map Vector.toList).getD []
     chunk := (bytes.take stop).drop start
     requestId := capture.requestId.getD "" },
    { tenantId := none, bucket := none, fileId := none, contentType := none, checksum := none, requestId := none })

/-- The closure mapped over a range of indices. -/
def chunkRequests (bytes : List UInt8) : ChunkCapture → List Nat → List UploadRequest
  | _, [] => []
  | capture, index :: rest =>
    (chunkRequest bytes capture index).1 :: chunkRequests bytes (chunkRequest bytes capture index).2 rest

/-- `chunk_upload_requests`. -/
def chunkUploadRequests (tenantId bucket fileId : String) (bytes : List UInt8) (contentType : String) (checksum : Digest)
    (requestId : String) : List UploadRequest :=
  chunkRequests bytes
    { tenantId := some tenantId, bucket := some bucket, fileId := some fileId, contentType := some contentType,
      checksum := some checksum, requestId := some requestId }
    (List.range (chunkCount bytes))

/-! ## A stream of pieces -/

/-- A caller's source: what its `n`-th poll yields, an item or the end. -/
abbrev Source := Nat → Option (Except IoError Bytes)

/-- The finite source that yields the items of a list. -/
def Source.ofList (items : List (Except IoError Bytes)) : Source := fun n => items[n]?

/-- The source that yields the pieces and then goes on as `rest` does. -/
def Source.ofPieces (pieces : List Bytes) (rest : Source) : Source := fun n =>
  match pieces[n]? with
  | some piece => some (.ok piece)
  | none => rest (n - pieces.length)

/-- `UploadMetadata`. -/
structure UploadMetadata where
  tenantId : String
  bucket : String
  fileId : String
  contentType : String
  checksum : Digest
  requestId : String

/-- `RechunkState`, with the position in the source and the error slot it shares with `upload_file_chunked`. -/
structure RechunkState where
  source : Source
  polled : Nat
  buffer : List UInt8
  pending : List UInt8
  pendingOffset : Nat
  sizeBytes : UInt64
  totalWritten : UInt64
  wroteAny : Bool
  sourceExhausted : Bool
  metadata : Option UploadMetadata
  errorSlot : Option RociaDbError

namespace RechunkState

/-- `record_error`. -/
def recordError (s : RechunkState) (error : RociaDbError) : RechunkState := { s with errorSlot := some error }

/-- `record_size_error`. -/
def recordSizeError (s : RechunkState) (message : String) : RechunkState := s.recordError (.validation message)

/-- `record_io_error`. -/
def recordIoError (s : RechunkState) (error : IoError) : RechunkState :=
  s.recordError (.io "the upload chunk stream" error)

/-- `unsent_len`: the bytes held but not emitted, buffered or pending. -/
def unsentLen (s : RechunkState) : UInt64 := UInt64.ofNat (s.buffer.length + (s.pending.length - s.pendingOffset))

/-- `next_request`: the metadata goes out with the first request only. -/
def nextRequest (s : RechunkState) (chunk : List UInt8) : UploadRequest × RechunkState :=
  match s.metadata with
  | some metadata =>
    ({ tenantId := metadata.tenantId
       bucket := metadata.bucket
       fileId := metadata.fileId
       sizeBytes := s.sizeBytes
       contentType := metadata.contentType
       checksum := metadata.checksum.toList
       chunk := chunk
       requestId := metadata.requestId }, { s with metadata := none })
  | none => ({ chunk := chunk }, s)

/-- `ingest`: copy a source item into the buffer, or its head, leaving the tail pending. -/
def ingest (s : RechunkState) (piece : List UInt8) : RechunkState :=
  let spaceLeft := defaultChunkSize - s.buffer.length
  if piece.length ≤ spaceLeft then { s with buffer := s.buffer ++ piece }
  else { s with buffer := s.buffer ++ piece.take spaceLeft, pending := piece, pendingOffset := spaceLeft }

/-- `has_pending`. -/
def hasPending (s : RechunkState) : Bool := s.pendingOffset < s.pending.length

/-- `drain_pending`: move as much of the pending tail into the buffer as fits, and free it once it is all moved. -/
def drainPending (s : RechunkState) : RechunkState :=
  if !s.hasPending then s
  else
    let spaceLeft := defaultChunkSize - s.buffer.length
    let available := s.pending.length - s.pendingOffset
    let stop := s.pendingOffset + min spaceLeft available
    let drained := { s with buffer := s.buffer ++ (s.pending.take stop).drop s.pendingOffset, pendingOffset := stop }
    if !drained.hasPending then { drained with pending := [], pendingOffset := 0 } else drained

/-- Whether the next full chunk completes the declared total. -/
def completesTheFile (s : RechunkState) : Bool := s.totalWritten + UInt64.ofNat defaultChunkSize == s.sizeBytes

end RechunkState

/-- The message recorded when the source delivers more than it declared. -/
def overshootMessage (sizeBytes : UInt64) : String :=
  "upload_file_chunked received more data than size_bytes (" ++ toString sizeBytes ++ " bytes) declared"

/-- The message recorded when the source ends short of what it declared. -/
def shortfallMessage (totalWritten sizeBytes : UInt64) : String :=
  "upload_file_chunked sent " ++ toString totalWritten ++ " bytes but size_bytes declared " ++ toString sizeBytes

/-- How one iteration of the loop ends: the loop continues, the stream yields a request, or the stream ends. -/
inductive Flow where
  | continue (s : RechunkState)
  | yield (request : UploadRequest) (s : RechunkState)
  | finish (s : RechunkState)

/-- Emit `chunk` as the next request: what both emitting branches of the loop do once the chunk is out of the buffer. -/
def RechunkState.emit (s : RechunkState) (chunk rest : List UInt8) : Flow :=
  let sent := { s with buffer := rest, totalWritten := s.totalWritten + UInt64.ofNat chunk.length, wroteAny := true }
  .yield (sent.nextRequest chunk).1 (sent.nextRequest chunk).2

/-- The `match state.source.next().await` of the loop. -/
def RechunkState.pollSource (s : RechunkState) : Flow :=
  let polled := { s with polled := s.polled + 1 }
  match s.source s.polled with
  | some (.ok piece) => .continue (polled.ingest piece.data)
  | some (.error error) =>
    -- A source that fails with every declared byte in hand is done, unless nothing was declared.
    if 0 < s.sizeBytes ∧ s.totalWritten + s.unsentLen = s.sizeBytes then .continue { polled with sourceExhausted := true }
    else .finish (polled.recordIoError error)
  | none => .continue { polled with sourceExhausted := true }

/-- One iteration of the loop of `rechunk_upload_requests`. -/
def rechunkIteration (s : RechunkState) : Flow :=
  if s.totalWritten + s.unsentLen > s.sizeBytes then .finish (s.recordSizeError (overshootMessage s.sizeBytes))
  else if defaultChunkSize ≤ s.buffer.length ∧ (s.completesTheFile = false ∨ s.sourceExhausted = true) then
    s.emit (s.buffer.take defaultChunkSize) (s.buffer.drop defaultChunkSize)
  else if s.hasPending then .continue s.drainPending
  else if !s.sourceExhausted then s.pollSource
  else if s.buffer ≠ [] ∨ s.wroteAny = false then s.emit s.buffer []
  else if s.totalWritten ≠ s.sizeBytes then
    .finish (s.recordSizeError (shortfallMessage s.totalWritten s.sizeBytes))
  else .finish s

/-- The outgoing stream of `rechunk_upload_requests`: the state of the unfold, the requests emitted so far, and whether the
stream has reported its end. -/
structure Rechunk where
  state : RechunkState
  emitted : List UploadRequest
  ended : Bool

/-- One iteration of the loop, with what it emits collected; an ended stream stays as it is. -/
def Rechunk.step (r : Rechunk) : Rechunk :=
  if r.ended then r
  else
    match rechunkIteration r.state with
    | .continue s => { r with state := s }
    | .yield request s => { r with state := s, emitted := r.emitted ++ [request] }
    | .finish s => { r with state := s, ended := true }

/-- The stream after `n` iterations of the loop. -/
def Rechunk.run (n : Nat) (r : Rechunk) : Rechunk := Rechunk.step^[n] r

/-- `rechunk_upload_requests`: the stream before its first poll. -/
def rechunkUploadRequests (tenantId bucket fileId : String) (sizeBytes : UInt64) (contentType : String)
    (checksum : Digest) (requestId : String) (chunks : Source) : Rechunk :=
  { state :=
      { source := chunks, polled := 0, buffer := [], pending := [], pendingOffset := 0, sizeBytes := sizeBytes,
        totalWritten := 0, wroteAny := false, sourceExhausted := false,
        metadata := some { tenantId, bucket, fileId, contentType, checksum, requestId }, errorSlot := none }
    emitted := []
    ended := false }

/-! ## The call that sends the stream -/

/-- `validate_file_size`. -/
def validateFileSize (sizeBytes maxFileBytes : UInt64) : Result Unit :=
  if sizeBytes > maxFileBytes then
    .error (.validation ("file is " ++ toString sizeBytes ++ " bytes, which exceeds the client's " ++
      toString maxFileBytes ++ "-byte max_file_bytes limit"))
  else .ok ()

/-- `FileStreamUploadOptions`. -/
structure FileStreamUploadOptions where
  sizeBytes : UInt64
  checksum : Digest
  contentType : String
  requestId : Option String

/-- `default_upload_file_request_id`, on the UUID drawn. -/
def defaultUploadFileRequestId (uuid : String) : String := "upload_file:" ++ uuid

/-- The stream `upload_file_chunked` hands to the transport. -/
def chunkedRequests (tenantId bucket fileId : String) (chunks : Source) (options : FileStreamUploadOptions)
    (uuid : String) : Rechunk :=
  rechunkUploadRequests tenantId bucket fileId options.sizeBytes options.contentType options.checksum
    (options.requestId.getD (defaultUploadFileRequestId uuid)) chunks

/-- `upload_file_chunked`, for a transport that drove the stream through `polls` iterations before the server's answer. -/
def uploadFileChunked (maxFileBytes : UInt64) (tenantId bucket fileId : String) (chunks : Source)
    (options : FileStreamUploadOptions) (uuid : String) (polls : Nat) (answer : Except Status Unit) : Result Unit :=
  match validateFileSize options.sizeBytes maxFileBytes with
  | .error error => .error error
  | .ok () =>
    match ((chunkedRequests tenantId bucket fileId chunks options uuid).run polls).state.errorSlot with
    | some error => .error error
    | none => statusContext uploadOperation answer

end RociaSdk

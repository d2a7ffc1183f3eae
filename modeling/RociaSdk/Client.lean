import RociaSdk.Upload
import RociaSdk.Download
import RociaSdk.Auth
import RociaSdk.Lib.Program

/-!
# Calls with a replay

The functions of the client that may send a call twice (`lib.rs`, `file.rs`): `attempt_with_replay`, which every unary call and
the opening call of a download go through, and `upload_file`. Each is a `Program` whose operations are the places at which it
meets the rest of the world: it reads or steps the shared token manager, sends a request or awaits its answer, or draws a UUID.
`Client.act` says what each operation does to the manager and to the record of what has been sent and answered. Everything
else that happens to the manager meanwhile is the environment's.
-/

namespace RociaSdk

open Interleave

/-! ## Operations -/

/-- `tonic::Request`: the message, and the timeout of its `grpc-timeout` header. -/
structure Request (Req : Type) where
  message : Req
  timeout : Option Nat
deriving DecidableEq, Repr

/-- Where a call meets the rest of the world. -/
inductive Op (Req : Type) where
  /-- The interceptor stamps the request and it is sent. -/
  | send (request : Request Req)
  /-- The answer is awaited. -/
  | answer
  /-- The answer is awaited for a time at most. -/
  | answerWithin (timeout : Nat)
  /-- The pre-flight test of `ensure_fresh`. -/
  | isFresh (margin : Nat)
  /-- `refresh_now` begins. -/
  | begin
  /-- `refresh_now` is awaited. -/
  | refreshed (call : Nat)
  /-- A UUID is drawn. -/
  | uuid

/-- What an operation gives back. -/
def Ans (Req Resp : Type) : Op Req → Type
  | .send _ => Unit
  | .answer => Except Status Resp
  | .answerWithin _ => Option (Except Status Resp)
  | .isFresh _ => Bool
  | .begin => Nat
  | .refreshed _ => Except AuthError Unit
  | .uuid => String

/-- What the client computes by such operations. -/
abbrev Call (Req Resp α : Type) := Program (Op Req) (Ans Req Resp) α

namespace Call

variable {Req Resp : Type}

/-- Have the request stamped and sent. -/
def send (request : Request Req) : Call Req Resp Unit := .perform (Op.send request)

/-- Await the answer. -/
def answer : Call Req Resp (Except Status Resp) := .perform Op.answer

/-- Await the answer for a time: `tokio::time::timeout`. -/
def answerWithin (timeout : Nat) : Call Req Resp (Option (Except Status Resp)) := .perform (Op.answerWithin timeout)

/-- Read the lifetime and the clock. -/
def isFresh (margin : Nat) : Call Req Resp Bool := .perform (Op.isFresh margin)

/-- Begin a call of `refresh_now`, under a number of its own. -/
def begin : Call Req Resp Nat := .perform Op.begin

/-- Await a call of `refresh_now`. -/
def refreshed (call : Nat) : Call Req Resp (Except AuthError Unit) := .perform (Op.refreshed call)

/-- `Uuid::new_v4`. -/
def uuid : Call Req Resp String := .perform Op.uuid

end Call

/-! ## Refreshing -/

/-- The client, by what these calls read of it. -/
structure Client where
  /-- Whether it has a token manager. -/
  authEnabled : Bool
  requestTimeout : Option Nat
  maxFileBytes : UInt64

/-- `STREAMING_TOKEN_REFRESH_MARGIN`. -/
def streamingTokenRefreshMargin : Nat := secs 5

namespace Client

variable {Req Resp : Type}

/-- `TokenManager::refresh_now`. -/
def refreshNow : Call Req Resp (Except AuthError Unit) := do
  let call ← Call.begin
  Call.refreshed call

/-- `TokenManager::ensure_fresh`. -/
def ensureFresh (margin : Nat) : Call Req Resp (Except AuthError Unit) := do
  if ← Call.isFresh margin then return .ok () else refreshNow

/-- `refresh_for_replay`. -/
def refreshForReplay (client : Client) (error : RociaDbError) : Call Req Resp Bool := do
  if !error.isUnauthenticated then return false
  else if !client.authEnabled then return false
  else
    match ← refreshNow with
    | .error _ => return false
    | .ok () => return true

/-- `refresh_token_before_stream`. -/
def refreshTokenBeforeStream (client : Client) : Call Req Resp Unit := do
  if !client.authEnabled then return ()
  else
    match ← ensureFresh streamingTokenRefreshMargin with
    | .error _ => return ()
    | .ok () => return ()

/-! ## Unary calls and downloads -/

/-- `deadline_exceeded`. -/
def deadlineExceeded (operation : String) (timeout : Nat) : RociaDbError :=
  .status operation
    { code := .deadlineExceeded
      message := "the client-side request timeout of " ++ toString (min (timeout / 10 ^ 6) (2 ^ 64 - 1)) ++ "ms expired"
      timeoutExpired := false }

/-- `is_local_deadline_expired`. -/
def isLocalDeadlineExpired (status : Status) : Bool := status.timeoutExpired

/-- `attempt`. -/
def attempt (operation : String) (message : Req) (timeout : Option Nat) : Call Req Resp (Result Resp) := do
  match timeout with
  | none =>
    Call.send { message := message, timeout := none }
    return statusContext operation (← Call.answer)
  | some timeout =>
    Call.send { message := message, timeout := some timeout }
    match ← Call.answerWithin timeout with
    | none => return .error (deadlineExceeded operation timeout)
    | some (.error status) =>
      if isLocalDeadlineExpired status then return .error (deadlineExceeded operation timeout)
      else return statusContext operation (.error status)
    | some (.ok response) => return statusContext operation (.ok response)

/-- `attempt_with_replay`. -/
def attemptWithReplay (client : Client) (operation : String) (message : Req) (timeout : Option Nat) :
    Call Req Resp (Result Resp) := do
  let replay := if client.authEnabled then some message else none
  match ← attempt operation message timeout with
  | .ok response => return .ok response
  | .error error =>
    match replay with
    | none => return .error error
    | some replay =>
      if ← client.refreshForReplay error then attempt operation replay timeout
      else return .error error

/-- `unary`. -/
def unary (client : Client) (operation : String) (message : Req) : Call Req Resp (Result Resp) :=
  client.attemptWithReplay operation message client.requestTimeout

/-- `server_streaming`: no deadline. -/
def serverStreaming (client : Client) (operation : String) (message : Req) : Call Req Resp (Result Resp) :=
  client.attemptWithReplay operation message none

end Client

/-- `DOWNLOAD_OPERATION`. -/
def downloadOperation : String := "failed to start file download"

/-- `DownloadRequest`. -/
structure DownloadRequest where
  tenantId : String
  bucket : String
  fileId : String
deriving DecidableEq, Repr

/-- `download_file_stream`, for any type of stream. -/
def Client.downloadFileStream {Stream : Type} (client : Client) (tenantId bucket fileId : String) :
    Call DownloadRequest Stream (Result Stream) := do
  client.refreshTokenBeforeStream
  client.serverStreaming downloadOperation { tenantId := tenantId, bucket := bucket, fileId := fileId }

/-! ## Uploads -/

/-- `FileUploadOptions`. -/
structure FileUploadOptions where
  contentType : String
  checksum : Option Digest
  requestId : Option String

/-- `resolve_checksum_offloaded`, wherever it hashes. -/
def resolveChecksum (hash : Sha256) (checksum : Option Digest) (bytes : List UInt8) : Digest :=
  checksum.getD (hash.digest bytes)

namespace Client

/-- `upload_raw`. -/
def uploadRaw (client : Client) (requests : List UploadRequest) : Call (List UploadRequest) Unit (Except Status Unit) := do
  client.refreshTokenBeforeStream
  Call.send { message := requests, timeout := none }
  Call.answer

/-- The request id of an upload: the caller's, or the default one. -/
def uploadRequestId (options : FileUploadOptions) : Call (List UploadRequest) Unit String :=
  match options.requestId with
  | some requestId => return requestId
  | none => do return defaultUploadFileRequestId (← Call.uuid)

/-- `upload_file`. -/
def uploadFile (client : Client) (hash : Sha256) (tenantId bucket fileId : String) (bytes : Bytes)
    (options : FileUploadOptions) : Call (List UploadRequest) Unit (Result Unit) := do
  match validateFileSize (UInt64.ofNat bytes.data.length) client.maxFileBytes with
  | .error error => return .error error
  | .ok () =>
    let checksum := resolveChecksum hash options.checksum bytes.data
    let requestId ← uploadRequestId options
    let requests := fun (_ : Unit) =>
      chunkUploadRequests tenantId bucket fileId bytes.data options.contentType checksum requestId
    match ← client.uploadRaw (requests ()) with
    | .ok () => return .ok ()
    | .error status =>
      let error := RociaDbError.status uploadOperation status
      if !(← client.refreshForReplay error) then return .error error
      else return statusContext uploadOperation (← client.uploadRaw (requests ()))

end Client

/-! ## What operations do -/

/-- What a call has to do with the rest of the world. -/
inductive Entry (Req Resp : Type) where
  /-- A request was sent, with the token of the header the interceptor stamped it with. -/
  | sent (request : Request Req) (stamp : Option Token)
  /-- It was answered, or not in time, when so many refresh attempts had run to completion. -/
  | answered (answer : Option (Except Status Resp)) (completed : Nat)
  /-- A call of `refresh_now` returned. -/
  | refreshed (answer : Except AuthError Unit)

/-- The token manager that calls share, and the record of one of them. -/
structure Shared (Req Resp : Type) where
  manager : TokenManager
  history : List (Entry Req Resp)

namespace Client

variable {Req Resp : Type}

/-- `BearerInterceptor::call`: the header that is in the cell, if there is a manager. -/
def stamp (client : Client) (m : TokenManager) : Option Token := if client.authEnabled then some m.header else none

/-- What an operation of a call can do. -/
def act (client : Client) : (op : Op Req) → Shared Req Resp → Ans Req Resp op → Shared Req Resp → Prop
  | .send request, s, _, t => t = { s with history := s.history ++ [.sent request (client.stamp s.manager)] }
  | .answer, s, answer, t => t = { s with history := s.history ++ [.answered (some answer) s.manager.log.length] }
  | .answerWithin _, s, answer, t => t = { s with history := s.history ++ [.answered answer s.manager.log.length] }
  | .isFresh margin, s, fresh, t => fresh = s.manager.isFresh margin ∧ t = s
  | .begin, s, call, t => ∃ m, s.manager.step (.begin call) = some m ∧ t = { s with manager := m }
  | .refreshed call, s, answer, t =>
    (∃ fetched, s.manager.phase call = .returned fetched answer) ∧
      t = { s with history := s.history ++ [.refreshed answer] }
  | .uuid, s, _, t => t = s

end Client

/-- What everything else can do: any steps of the manager, those of the call's own `refresh_now` among them. -/
def Shared.env {Req Resp : Type} (s t : Shared Req Resp) : Prop :=
  t.history = s.history ∧ Transition.Reaches TokenManager.step s.manager t.manager

end RociaSdk

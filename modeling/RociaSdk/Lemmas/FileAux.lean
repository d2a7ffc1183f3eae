import RociaSdk.Lemmas.HostedAux
import RociaSdk.Lemmas.StoreAux
import RociaSdk.Theorems.ChunkRequests
import RociaSdk.Theorems.Download

/-!
# Files on the server

What the server makes of the messages of an upload, and what a download of a file makes of its bytes. A file is looked at without
its stamps, as a `FileContent`.
-/

namespace RociaSdk

namespace Server

/-- What is stored of a file, less its stamps. -/
structure FileContent where
  bytes : List UInt8
  sizeBytes : UInt64
  contentType : String
  checksum : List UInt8
deriving DecidableEq, Repr

/-- A file without its stamps. -/
def StoredFile.content (file : StoredFile) : FileContent :=
  { bytes := file.bytes, sizeBytes := file.sizeBytes, contentType := file.contentType, checksum := file.checksum }

/-- What a server tells of a file. -/
def StoredFile.stat (file : StoredFile) : StatResponse :=
  { sizeBytes := file.sizeBytes, contentType := file.contentType, checksum := file.checksum, createdAt := file.createdAt,
    updatedAt := file.updatedAt }

/-- What an upload with this first message and these bytes makes of a file. -/
def FileContent.uploaded (head : UploadRequest) (bytes : List UInt8) : FileContent :=
  { bytes := bytes, sizeBytes := UInt64.ofNat bytes.length, contentType := head.contentType, checksum := head.checksum }

/-- The file that is there, without its stamps. -/
def Store.content (store : Store) (scope : String × String) (fileId : String) : Option FileContent :=
  (store.files.find? scope fileId).map StoredFile.content

namespace FileAux

open HostedAux

/-! ## What a stream comes to -/

/-- A stream is drained if it ends well and none of its chunks is too long. -/
theorem drain_ok_iff {ending : Except Status Unit} {head head' : Option UploadRequest} {bytes bytes' : List UInt8}
    {messages : List UploadRequest} :
    drain ending head bytes messages = .ok (head', bytes') ↔
      ending = .ok () ∧ (∀ m ∈ messages, m.chunk.length ≤ maxUploadChunk) ∧ bytes' = bytes ++ bytesIn messages ∧
        head' = head.or (messages.head?.map fun m => { m with chunk := [] }) := by
  induction messages generalizing head bytes with
  | nil =>
    cases ending with
    | error e => simp [drain, Except.map]
    | ok u =>
      simp only [drain, Except.map, Except.ok.injEq, Prod.mk.injEq, bytesIn_nil, List.append_nil, List.head?_nil, Option.map_none,
        Option.or_none]
      grind
  | cons message rest ih =>
    by_cases hlong : message.chunk.length > maxUploadChunk
    · simp only [drain, if_pos hlong, reduceCtorEq, List.mem_cons, forall_eq_or_imp, false_iff]
      rintro ⟨-, ⟨hle, -⟩, -⟩
      exact absurd hlong (Nat.not_lt_of_le hle)
    · have hbytes : bytes ++ bytesIn (message :: rest) = bytes ++ message.chunk ++ bytesIn rest := by
        simp [bytesIn, chunksIn]
      have hhead : (some (head.getD { message with chunk := [] })).or (rest.head?.map fun m => { m with chunk := [] }) =
          head.or (some { message with chunk := [] }) := by
        cases head <;> rfl
      rw [drain, if_neg hlong, ih, hbytes, hhead]
      simp [Nat.le_of_not_lt hlong]

/-- What is uploaded by a stream: the first message without its chunk, and the bytes of all of them. -/
theorem uploaded_eq_some_iff {stream : UploadStream} {head : UploadRequest} {bytes : List UInt8} :
    WriteCall.uploaded stream = some (head, bytes) ↔
      stream.ending = .ok () ∧ (∀ m ∈ stream.messages, m.chunk.length ≤ maxUploadChunk) ∧ bytes = bytesIn stream.messages ∧
        ∃ first, stream.messages.head? = some first ∧ head = { first with chunk := [] } := by
  have hdrain : WriteCall.uploaded stream = some (head, bytes) ↔
      drain stream.ending none [] stream.messages = .ok (some head, bytes) := by
    unfold WriteCall.uploaded
    split
    · rename_i head' bytes' h
      rw [h]
      simp
    · rename_i hother
      exact ⟨nofun, fun h => absurd h (hother head bytes)⟩
  rw [hdrain, drain_ok_iff, Option.none_or, List.nil_append]
  cases stream.messages.head? <;> simp [eq_comm]

/-- An upload is vetted if what it comes to passes the checks of the server. -/
theorem vet_upload_iff {stream : UploadStream} :
    (WriteCall.upload stream).vet = .ok () ↔
      ∃ head bytes, WriteCall.uploaded stream = some (head, bytes) ∧ checkUpload head bytes = .ok () := by
  simp only [WriteCall.vet, WriteCall.uploaded]
  rcases drain stream.ending none [] stream.messages with e | ⟨_ | head, bytes⟩
  · simp only [reduceCtorEq, false_and, exists_false]
  · simp only [reduceCtorEq, false_and, exists_false]
  · simp only [Option.some.injEq, Prod.mk.injEq, and_assoc, exists_eq_left', exists_and_left]

theorem checkUpload_ok_iff {head : UploadRequest} {bytes : List UInt8} :
    checkUpload head bytes = .ok () ↔ head.checksum.length = checksumLen ∧ UInt64.ofNat bytes.length = head.sizeBytes := by
  unfold checkUpload
  by_cases hchecksum : head.checksum.length = checksumLen
  · by_cases hsize : UInt64.ofNat bytes.length = head.sizeBytes <;> simp [hchecksum, hsize]
  · simp [hchecksum]

/-! ## The messages of the client -/

/-- What the messages of an upload come to. -/
theorem uploaded_uploadMessages {m : UploadMetadata} {sizeBytes : UInt64} {chunks : List (List UInt8)} (hsome : chunks ≠ [])
    (hlength : ∀ chunk ∈ chunks, chunk.length ≤ maxUploadChunk) :
    WriteCall.uploaded { messages := uploadMessages m sizeBytes chunks, ending := .ok () } =
      some (firstRequest m sizeBytes [], chunks.flatten) := by
  refine uploaded_eq_some_iff.2 ⟨rfl, ?_, by rw [bytesIn, ChunkAux.chunksIn_uploadMessages], ?_⟩
  · cases chunks with
    | nil => exact absurd rfl hsome
    | cons chunk rest =>
      simp only [uploadMessages, List.mem_cons, List.mem_map, forall_eq_or_imp, forall_exists_index, and_imp,
        forall_apply_eq_imp_iff₂] at hlength ⊢
      exact hlength
  · obtain ⟨chunk, rest, rfl⟩ := List.exists_cons_of_ne_nil hsome
    exact ⟨_, rfl, rfl⟩

/-- The chunks of a file are within the limit of the server. -/
theorem length_fileChunks {D chunk : List UInt8} (h : chunk ∈ fileChunks D) : chunk.length ≤ maxUploadChunk := by
  unfold fileChunks at h
  split at h
  · rw [List.mem_singleton.1 h]
    exact Nat.zero_le _
  · obtain ⟨i, -, rfl⟩ := List.mem_map.1 h
    rw [Chunks.length_piece]
    exact Nat.min_le_left _ _

theorem fileChunks_ne_nil (D : List UInt8) : fileChunks D ≠ [] := by
  rw [ChunkAux.fileChunks_eq]
  have hpos := ChunkAux.chunkCount_pos D
  simp only [ne_eq, List.map_eq_nil_iff, List.range_eq_nil]
  omega

/-! ## What a call makes of a file -/

variable {scope : String × String} {fileId : String}

theorem content_upload (store : Store) (head : UploadRequest) (bytes : List UInt8) :
    (store.upload head bytes).content scope fileId =
      if (head.tenantId, head.bucket) = scope ∧ head.fileId = fileId then some (FileContent.uploaded head bytes)
      else store.content scope fileId := by
  simp only [Store.upload, Store.tick, Store.content, Table.find?_put]
  split <;> rfl

theorem content_delete (store : Store) (r : DeleteRequest) :
    (store.delete r).content scope fileId =
      if (r.tenantId, r.bucket) = scope ∧ r.fileId = fileId then none else store.content scope fileId := by
  simp only [Store.delete, Store.content, Table.find?_remove]
  split <;> rfl

/-! ## Downloads of the client -/

/-- A verified download into a buffer succeeds for the right size and the right digest. -/
theorem downloadFileVerified_ok_iff (sha : Sha256) (metadata : FileMetadata) {chunks : List (List UInt8)}
    (hfit : chunks.flatten.length < 2 ^ 64) (bytes : List UInt8) :
    downloadFileVerified sha (.ok metadata) (.ok { messages := chunks, ending := .ok () }) = .ok bytes ↔
      bytes = chunks.flatten ∧ chunks.flatten.length = metadata.sizeBytes.toNat ∧
        (sha.digest chunks.flatten).toList = metadata.checksum := by
  have hroom : WriterBehaviour.vec.accepts chunks.flatten.length := nofun
  unfold downloadFileVerified downloadFileVerifiedTo
  dsimp only
  by_cases hle : chunks.flatten.length ≤ metadata.sizeBytes.toNat
  · obtain ⟨polls, houtcome⟩ := DownloadAux.outcome_ended sha WriterBehaviour.vec metadata chunks hfit hle hroom
    rw [houtcome, DownloadAux.finish_after sha _ _ _ hfit hle]
    by_cases hlt : chunks.flatten.length < metadata.sizeBytes.toNat
    · rw [if_pos hlt]
      simp only [reduceCtorEq, false_iff]
      rintro ⟨-, hsize, -⟩
      omega
    · rw [if_neg hlt]
      by_cases hdigest : (sha.digest chunks.flatten).toList = metadata.checksum
      · rw [if_neg (not_not.2 hdigest)]
        simp only [WriterBehaviour.vec, Except.ok.injEq, hdigest, and_true]
        exact ⟨fun h => ⟨h.symm, by omega⟩, fun h => h.1.symm⟩
      · rw [if_pos hdigest]
        simp only [hdigest, and_false, reduceCtorEq]
  · have hfail := DownloadAux.not_ok_of_failure sha WriterBehaviour.vec metadata chunks hfit fun h => hle h.1
    rcases hinto : downloadVerifiedInto sha metadata (.ok { messages := chunks, ending := .ok () }) WriterBehaviour.vec.writer with
      ⟨_ | n, w, rest⟩
    · simp only [reduceCtorEq, false_iff]
      rintro ⟨-, hsize, -⟩
      omega
    · exact absurd (congrArg Prod.fst hinto) (hfail n)

/-- A stream that is torn is not read to its end, whatever has come of it. -/
theorem absorbStream_torn {sha : Sha256} (v : VerifiedDownload sha) (w : Writer) (e : Status) (chunks : List (List UInt8)) :
    ∃ error, (absorbStream v w (.error e) chunks).1 = .error error := by
  induction chunks generalizing v w with
  | nil => exact ⟨_, rfl⟩
  | cons chunk rest ih =>
    unfold absorbStream
    split
    · exact ⟨_, rfl⟩
    · exact ih _ _

/-- A verified download of a stream that is torn fails. -/
theorem downloadFileVerified_torn (sha : Sha256) (metadata : FileMetadata) (chunks : List (List UInt8)) (e : Status) :
    ∃ error, downloadFileVerified sha (.ok metadata) (.ok { messages := chunks, ending := .error e }) = .error error := by
  obtain ⟨error, h⟩ := absorbStream_torn (VerifiedDownload.new sha metadata.sizeBytes) WriterBehaviour.vec.writer e chunks
  refine ⟨error, ?_⟩
  rcases habsorb : absorbStream (VerifiedDownload.new sha metadata.sizeBytes) WriterBehaviour.vec.writer (.error e) chunks with
    ⟨answer, w, rest⟩
  rw [habsorb] at h
  dsimp only at h
  subst h
  simp only [downloadFileVerified, downloadFileVerifiedTo, downloadVerifiedInto, habsorb]

/-! ## Calls for a file -/

variable {client : Client} {world : World} {tenantId bucket : String}

theorem stat_reads (r : StatRequest) :
    Reads State.stat r "Stat" fun store =>
      rowOr ("file " ++ r.fileId) ((store.files.find? (r.tenantId, r.bucket) r.fileId).map StoredFile.stat) := by
  refine reads_of_row fun authorization => ?_
  unfold State.stat
  refine congrArg (State.read "Stat" authorization) (funext fun store => ?_)
  cases store.files.find? (r.tenantId, r.bucket) r.fileId <;> rfl

/-- A `stat_file` that is let in. -/
theorem statFile_let_in (tenantId bucket fileId : String) (h : world.Admits client "Stat") :
    let s := world.arrived client "Stat"
    statFile (hosted client State.stat) tenantId bucket fileId world =
      (((s.store.files.find? (tenantId, bucket) fileId).map fun file => FileStat.fromResponse file.stat).elim
        (.error (.status "failed to stat file" (notFound ("file " ++ fileId ++ " not found")))) .ok, world.later s) := by
  intro s
  unfold statFile
  rw [read_let_in _ (stat_reads _) _ h]
  dsimp only
  cases (world.arrived client "Stat").store.files.find? (tenantId, bucket) fileId <;> rfl

/-- A `stat_file` that is not let in is an error. -/
theorem statFile_turned_away (tenantId bucket fileId : String) (h : ¬world.Admits client "Stat") :
    ∃ e t, statFile (hosted client State.stat) tenantId bucket fileId world = (.error (.status "failed to stat file" e), world.later t) :=
  read_turned_away "failed to stat file" (stat_reads _) (fun response => .ok (FileStat.fromResponse response)) h

/-- What the handler of a download goes on with where the call is let in. -/
def opened (r : DownloadRequest) (s : State) : Except Status DownloadStream × State :=
  match s.store.files.find? (r.tenantId, r.bucket) r.fileId with
  | none => (.error (notFound ("file " ++ r.fileId ++ " not found")), s)
  | some file =>
    match s.downloadChunkFailure with
    | some (deliver, code) =>
      (.ok {
        messages := (Chunks.chunksOf downloadChunk file.bytes).take deliver
        ending := .error {
          code := code, message := "download failed after " ++ toString deliver ++ " chunks", timeoutExpired := false } },
        { s with downloadChunkFailure := none })
    | none => (.ok { messages := Chunks.chunksOf downloadChunk file.bytes, ending := .ok () }, s)

theorem download_enters (r : DownloadRequest) : Enters State.download r "Download" (opened r) where
  eq _ := rfl
  plain s := by
    unfold opened
    split
    · exact plain_error (by simp [notFound, status]) rfl
    · split
      · exact plain_ok _
      · exact plain_ok _

/-- What opening a download comes to that is let in. -/
theorem download_let_in (operation : String) (r : DownloadRequest) (h : world.Admits client.untimed "Download") :
    ∃ t, hostedStreaming client State.download operation r world =
      (statusContext operation (opened r (world.arrived client.untimed "Download")).1, world.later t) := by
  rw [hostedStreaming_eq, hosted_let_in operation (download_enters r) h]
  exact ⟨_, rfl⟩

/-- A download that is not let in is an error. -/
theorem download_turned_away (operation : String) (r : DownloadRequest) (h : ¬world.Admits client.untimed "Download") :
    ∃ e t, hostedStreaming client State.download operation r world = (.error (.status operation e), world.later t) := by
  rw [hostedStreaming_eq]
  exact hosted_turned_away operation (download_enters r) h

/-- A verified download from the server, once the metadata is known. -/
theorem openDownload_ok_iff (sha : Sha256) (client : Client) (world : World) (metadata : FileMetadata) (bytes : List UInt8)
    {s : State} (hs : world.arrived client.untimed "Download" = s)
    (hmemory : ∀ file, s.store.files.find? (tenantId, bucket) fileId = some file → file.bytes.length < 2 ^ 64) :
    downloadFileVerified sha (.ok metadata) (openDownload (hostedStreaming client State.download) tenantId bucket fileId world).1 =
        .ok bytes ↔
      world.Admits client.untimed "Download" ∧ s.downloadChunkFailure = none ∧
        ∃ file, s.store.files.find? (tenantId, bucket) fileId = some file ∧ bytes = file.bytes ∧
          file.bytes.length = metadata.sizeBytes.toNat ∧ (sha.digest file.bytes).toList = metadata.checksum := by
  have hclosed : ∀ e, downloadFileVerified sha (.ok metadata) (.error e) = .error e := fun _ => rfl
  unfold openDownload
  by_cases hopen : world.Admits client.untimed "Download"
  swap
  · obtain ⟨e, t, hanswer⟩ := download_turned_away downloadOperation
      { tenantId := tenantId, bucket := bucket, fileId := fileId } hopen
    simp [hanswer, hopen, hclosed]
  obtain ⟨t, hanswer⟩ := download_let_in downloadOperation { tenantId := tenantId, bucket := bucket, fileId := fileId } hopen
  rw [hanswer, hs]
  unfold opened
  cases hfile : s.store.files.find? (tenantId, bucket) fileId with
  | none => simp [hclosed, statusContext]
  | some file =>
    have hflatten : (Chunks.chunksOf downloadChunk file.bytes).flatten = file.bytes := Chunks.flatten_chunksOf (by decide) file.bytes
    cases hscript : s.downloadChunkFailure with
    | some failure =>
      obtain ⟨error, htorn⟩ := downloadFileVerified_torn sha metadata ((Chunks.chunksOf downloadChunk file.bytes).take failure.1)
        { code := failure.2, message := "download failed after " ++ toString failure.1 ++ " chunks", timeoutExpired := false }
      simp only [statusContext, htorn]
      simp
    | none =>
      simp only [statusContext, hopen, true_and, Option.some.injEq, exists_eq_left']
      rw [downloadFileVerified_ok_iff sha metadata (by rw [hflatten]; exact hmemory file hfile), hflatten]

end FileAux

end Server

end RociaSdk

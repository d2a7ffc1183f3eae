import RociaSdk.Lemmas.FileAux
import RociaSdk.Lemmas.RechunkRun
import RociaSdk.Theorems.Download
import RociaSdk.Theorems.Reads
import RociaSdk.Theorems.Upload

/-!
# Files from end to end

A file that is uploaded, from memory or from a source, comes back as it was (`upload_comes_back`), and one that a source does not
deliver as it was declared is never stored (`chunked_upload_exact`). What a download hands out is what the last call that landed
for the file has left (`files_last_upload`), and a verified download never mixes two versions of it (`verified_download_iff`).
-/

namespace RociaSdk

/-- A source delivers what was declared: its first `k` polls yield as many bytes, and it ends there, or fails when something was
declared. -/
def Source.Delivers (source : Source) (sizeBytes : UInt64) (k : Nat) : Prop :=
  source.FitsTo sizeBytes k ∧ source.DoneAt sizeBytes k ∧ (source.bytes k).length = sizeBytes.toNat

namespace Server

/-- What a call says of a file: that it is there so, or that it is not there. -/
def WriteCall.saysFile (scope : String × String) (fileId : String) : WriteCall → Option (Option FileContent)
  | upload stream => (uploaded stream).bind fun (head, bytes) =>
    if (head.tenantId, head.bucket) = scope ∧ head.fileId = fileId then some (some (FileContent.uploaded head bytes)) else none
  | delete r => if (r.tenantId, r.bucket) = scope ∧ r.fileId = fileId then some none else none
  | _ => none

/-- An upload is let in: nothing is scripted for it, before its stream is read or after it. -/
def State.TakesUpload (s : State) (authorization : Option String) : Prop :=
  s.LetsIn "Upload" authorization ∧ s.uploadRejectBeforeReading = none

/-- The streams with which the client uploads a file: from memory, and from a source that delivers it. -/
inductive UploadsFile (m : UploadMetadata) (bytes : List UInt8) : UploadStream → Prop where
  | memory : UploadsFile m bytes {
      messages := chunkUploadRequests m.tenantId m.bucket m.fileId bytes m.contentType m.checksum m.requestId
      ending := .ok () }
  | chunked (sizeBytes : UInt64) (source : Source) (k n : Nat) (hwrap : source.NoWrap sizeBytes)
      (hdelivers : source.Delivers sizeBytes k) (hbytes : source.bytes k = bytes)
      (hended : ((rechunkUploadRequests m.tenantId m.bucket m.fileId sizeBytes m.contentType m.checksum m.requestId source).run
        n).ended = true) :
      UploadsFile m bytes {
        messages := ((rechunkUploadRequests m.tenantId m.bucket m.fileId sizeBytes m.contentType m.checksum m.requestId
          source).run n).emitted
        ending := .ok () }

namespace FileAux

open HostedAux StoreAux ReadAux

variable {scope : String × String} {fileId : String} {authorization : Option String} {s : State} {stream : UploadStream}
  {source : Source} {sizeBytes : UInt64} {m : UploadMetadata} {r : Rechunk}

/-! ## What the messages of a source come to -/

/-- No more is sent than was declared. -/
theorem length_sent_le (h : r.Live source sizeBytes m) : (bytesIn r.emitted).length ≤ sizeBytes.toNat := by
  have hsent : (bytesIn r.emitted).length ≤ (source.bytes r.state.polled).length := by
    rw [← h.inv.bytes_eq, List.length_append]
    exact Nat.le_add_right _ _
  have hheld : r.Held sizeBytes → (bytesIn r.emitted).length ≤ sizeBytes.toNat := by
    rintro (hnil | hlt)
    · rw [hnil]
      exact Nat.zero_le _
    · exact Nat.le_of_lt hlt
  have hdone : ∀ k, r.state.polled = k + 1 → source.FitsTo sizeBytes k → source.DoneAt sizeBytes k →
      (bytesIn r.emitted).length ≤ sizeBytes.toNat := by
    intro k hpolled hfits hdone
    rw [hpolled, hdone.bytes_succ] at hsent
    exact hsent.trans hfits.le
  cases h.stage with
  | reading _ _ _ _ _ hh => exact hheld hh
  | overshot _ _ _ _ _ _ _ hh _ => exact hheld hh
  | failed _ _ _ _ _ _ _ hh _ => exact hheld hh
  | flushing k _ hpolled _ hfits hd _ => exact hdone k hpolled hfits hd
  | short k _ hpolled hfits hsrc _ _ => exact hdone k hpolled hfits (.inl hsrc)
  | complete k _ hpolled hfits hd _ _ _ _ => exact hdone k hpolled hfits hd

/-- A stream that has sent what was declared has read a source that delivers it. -/
theorem delivers_of_live (h : r.Live source sizeBytes m) (hsome : r.emitted ≠ [])
    (hlength : (bytesIn r.emitted).length = sizeBytes.toNat) :
    ∃ k, source.Delivers sizeBytes k ∧ bytesIn r.emitted = source.bytes k := by
  have hsent : (bytesIn r.emitted).length ≤ (source.bytes r.state.polled).length := by
    rw [← h.inv.bytes_eq, List.length_append]
    exact Nat.le_add_right _ _
  have hheld : ¬r.Held sizeBytes := by
    rintro (hnil | hlt)
    · exact hsome hnil
    · omega
  have hdone : ∀ k, r.state.polled = k + 1 → source.FitsTo sizeBytes k → source.DoneAt sizeBytes k →
      ∃ k, source.Delivers sizeBytes k ∧ bytesIn r.emitted = source.bytes k := by
    intro k hpolled hfits hdone
    have hbytes := h.inv.bytes_eq
    have hle := hfits.le
    rw [hpolled, hdone.bytes_succ] at hsent hbytes
    have hpulled : bytesIn r.emitted = source.bytes k := by
      rw [← hbytes]
      refine (List.append_right_eq_self.2 ?_).symm
      have := congrArg List.length hbytes
      rw [List.length_append] at this
      exact List.eq_nil_of_length_eq_zero (by omega)
    exact ⟨k, ⟨hfits, hdone, by rw [← hpulled, hlength]⟩, hpulled⟩
  cases h.stage with
  | reading _ _ _ _ _ hh => exact absurd hh hheld
  | overshot _ _ _ _ _ _ _ hh _ => exact absurd hh hheld
  | failed _ _ _ _ _ _ _ hh _ => exact absurd hh hheld
  | flushing k _ hpolled _ hfits hd _ => exact hdone k hpolled hfits hd
  | short k _ hpolled hfits hsrc _ _ => exact hdone k hpolled hfits (.inl hsrc)
  | complete k _ hpolled hfits hd _ _ _ _ => exact hdone k hpolled hfits hd

/-- A stream that has ended with no error has sent what a source delivers that delivers what was declared. -/
theorem sent_of_delivers (h : r.Live source sizeBytes m) (hend : r.ended = true) {k : Nat} (hk : source.Delivers sizeBytes k) :
    r.state.errorSlot = none ∧ r.emitted ≠ [] ∧ bytesIn r.emitted = source.bytes k := by
  obtain ⟨hfits, hdone, hlength⟩ := hk
  have hpos : ∀ j, source.FitsTo sizeBytes j → (∀ p, source j ≠ some (.ok p)) → j = k := fun j hj hnot =>
    Source.eq_of_first_not_ok (fun i hi => (hj i hi).1) hnot (fun i hi => (hfits i hi).1) hdone.not_ok
  cases h.stage with
  | reading hrun => rw [hend] at hrun; cases hrun
  | flushing _ hrun => rw [hend] at hrun; cases hrun
  | overshot j piece _ _ hfitsj hsrc hover _ _ =>
    rcases Nat.lt_trichotomy j k with hlt | rfl | hgt
    · exact absurd (hfits j hlt).2 (Nat.not_le_of_lt hover)
    · exact absurd hsrc (hdone.not_ok piece)
    · obtain ⟨p, hp⟩ := (hfitsj k hgt).1
      exact absurd hp (hdone.not_ok p)
  | failed j error _ _ hfitsj hsrc hne _ _ =>
    have hj := hpos j hfitsj (by simp [hsrc])
    subst hj
    rcases hdone with hnone | ⟨-, -, hposs⟩
    · rw [hnone] at hsrc
      cases hsrc
    · have := hne hlength
      omega
  | short j _ _ hfitsj hsrc hlt _ =>
    have hj := hpos j hfitsj (by simp [hsrc])
    subst hj
    omega
  | complete j _ hpolled hfitsj hdonej heq hnone hsome hslot =>
    have hj := hpos j hfitsj hdonej.not_ok
    subst hj
    refine ⟨hslot, hsome, ?_⟩
    have hbytes := h.inv.bytes_eq
    rw [hnone, List.append_nil, hpolled, hdonej.bytes_succ] at hbytes
    exact hbytes

/-- The chunks that are sent are within the limit of the server. -/
theorem length_chunk_of_inv (h : r.Inv source sizeBytes m) {chunk : List UInt8} (hchunk : chunk ∈ chunksIn r.emitted) :
    chunk.length ≤ maxUploadChunk := by
  have hlimit : defaultChunkSize = maxUploadChunk := rfl
  rcases h.shape with hfull | ⟨-, -, full, last, hchunks, hfull, hlast, -⟩
  · exact Nat.le_of_eq (hfull chunk hchunk)
  · rw [hchunks, List.mem_append, List.mem_singleton] at hchunk
    rcases hchunk with hmem | rfl
    · exact Nat.le_of_eq (hfull chunk hmem)
    · omega

/-- What the messages of a source come to. -/
theorem uploaded_of_inv (h : r.Inv source sizeBytes m) (hsome : r.emitted ≠ []) :
    WriteCall.uploaded { messages := r.emitted, ending := .ok () } = some (firstRequest m sizeBytes [], bytesIn r.emitted) := by
  have hchunks : chunksIn r.emitted ≠ [] := by simpa [chunksIn] using hsome
  have huploaded : WriteCall.uploaded { messages := uploadMessages m sizeBytes (chunksIn r.emitted), ending := .ok () } =
      some (firstRequest m sizeBytes [], bytesIn r.emitted) :=
    uploaded_uploadMessages hchunks fun chunk hchunk => length_chunk_of_inv h hchunk
  rwa [← h.messages] at huploaded

/-- A stream with which the client uploads a file comes to the file, with its metadata and its size. -/
theorem uploaded_of_uploadsFile {bytes : List UInt8} (h : UploadsFile m bytes stream) :
    WriteCall.uploaded stream = some (firstRequest m (UInt64.ofNat bytes.length) [], bytes) := by
  cases h with
  | memory =>
    rw [ChunkAux.chunkUploadRequests_eq, uploaded_uploadMessages (fileChunks_ne_nil bytes) fun _ => length_fileChunks,
      ChunkAux.flatten_fileChunks]
  | chunked sizeBytes source k n hwrap hdelivers hbytes hended =>
    have hlive := (Rechunk.live_init m.tenantId m.bucket m.fileId sizeBytes m.contentType m.checksum m.requestId source).run hwrap n
    obtain ⟨-, hsome, hsent⟩ := sent_of_delivers hlive hended hdelivers
    rw [uploaded_of_inv hlive.inv hsome, hsent, ← hbytes, hdelivers.2.2, UInt64.ofNat_toNat]

/-- Such a stream passes the checks of the server. -/
theorem vet_of_uploadsFile {bytes : List UInt8} (h : UploadsFile m bytes stream) : (WriteCall.upload stream).vet = .ok () :=
  vet_upload_iff.2 ⟨_, _, uploaded_of_uploadsFile h, checkUpload_ok_iff.2 ⟨m.checksum.size_toArray, rfl⟩⟩

/-- A stream of a source that is vetted, however much of it was sent, is that of a source that delivers what was declared. -/
theorem delivers_of_vet (h : r.Live source sizeBytes m) {ending : Except Status Unit}
    (hvet : (WriteCall.upload { messages := r.emitted, ending := ending }).vet = .ok ()) :
    ∃ k, source.Delivers sizeBytes k ∧
      WriteCall.uploaded { messages := r.emitted, ending := ending } = some (firstRequest m sizeBytes [], source.bytes k) := by
  obtain ⟨head, bytes, huploaded, hcheck⟩ := vet_upload_iff.1 hvet
  obtain ⟨rfl, -, hbytes, first, hfirst, hhead⟩ := uploaded_eq_some_iff.1 huploaded
  have hsome : r.emitted ≠ [] := fun hnil => by rw [hnil] at hfirst; cases hfirst
  rw [uploaded_of_inv h.inv hsome] at huploaded ⊢
  cases huploaded
  have hsize : (bytesIn r.emitted).length = sizeBytes.toNat := by
    have hle := length_sent_le h
    have hlt := sizeBytes.toNat_lt
    have := congrArg UInt64.toNat (checkUpload_ok_iff.1 hcheck).2
    rwa [UInt64.toNat_ofNat', Nat.mod_eq_of_lt (by omega)] at this
  obtain ⟨k, hk, hsent⟩ := delivers_of_live h hsome hsize
  exact ⟨k, hk, by rw [hsent]⟩

/-- An upload of a source succeeds if its size is within the limit, no error was recorded, and it was acknowledged. -/
theorem uploadFileChunked_ok_iff {maxFileBytes : UInt64} {tenantId bucket uuid : String} {options : FileStreamUploadOptions}
    {polls : Nat} {answer : Except Status Unit} :
    uploadFileChunked maxFileBytes tenantId bucket fileId source options uuid polls answer = .ok () ↔
      options.sizeBytes ≤ maxFileBytes ∧
        ((chunkedRequests tenantId bucket fileId source options uuid).run polls).state.errorSlot = none ∧ answer = .ok () := by
  unfold uploadFileChunked validateFileSize
  by_cases hlimit : options.sizeBytes > maxFileBytes
  · rw [if_pos hlimit]
    simp only [reduceCtorEq, false_iff]
    rintro ⟨hle, -⟩
    exact UInt64.not_le.2 hlimit hle
  · rw [if_neg hlimit]
    simp only [UInt64.not_lt.1 hlimit, true_and]
    cases ((chunkedRequests tenantId bucket fileId source options uuid).run polls).state.errorSlot with
    | some error => simp
    | none => cases answer <;> simp [statusContext]

/-! ## Uploads that are let in -/

/-- An upload that is acknowledged was vetted. -/
theorem vet_of_acknowledged (h : (s.upload authorization stream).1 = .ok ()) : (WriteCall.upload stream).vet = .ok () := by
  rcases upload_cases authorization stream s with ⟨⟨e, he⟩, -⟩ | hserved
  · rw [h] at he
    cases he
  · have hanswer := congrArg Prod.fst hserved
    dsimp only at hanswer
    rw [h] at hanswer
    rcases Absorbing.Service.handle_ok_iff.1 hanswer.symm with hland | ⟨hvet, -⟩
    · obtain ⟨store, hstore⟩ := Option.isSome_iff_exists.1 hland
      exact (Absorbing.Service.land_eq_some_iff.1 hstore).1
    · exact hvet

/-- An upload that is refused changes neither the store nor the markers. -/
theorem marked_of_refused {e : Status} (h : (s.upload authorization stream).1 = .error e) :
    (s.upload authorization stream).2.marked = s.marked := by
  rcases upload_cases authorization stream s with ⟨-, hmarked⟩ | hserved
  · exact hmarked
  · have hanswer := congrArg Prod.fst hserved
    have hstate := congrArg Prod.snd hserved
    dsimp only at hanswer hstate
    rw [hstate]
    exact Absorbing.Service.handle_refused (hanswer.symm.trans h)

/-- An upload that is let in is handled as a service that absorbs replays handles it. -/
theorem upload_let_in (h : s.TakesUpload authorization) (stream : UploadStream) :
    ((s.upload authorization stream).1, (s.upload authorization stream).2.marked) = writes.handle s.marked (.upload stream) := by
  unfold State.upload
  rw [h.2]
  rcases hdrain : drain stream.ending none [] stream.messages with e | ⟨head, bytes⟩
  · simp [Absorbing.Service.handle, writes, WriteCall.vet, hdrain]
  · cases head with
    | none => simp [Absorbing.Service.handle, writes, WriteCall.vet, hdrain]
    | some head =>
      have huploaded : WriteCall.uploaded stream = some (head, bytes) := by simp [WriteCall.uploaded, hdrain]
      simp only [State.entering, enter_let_in h.1, Absorbing.Service.handle, writes, WriteCall.vet, hdrain, WriteCall.marker,
        huploaded, WriteCall.check, WriteCall.put, WriteCall.tenantId, Option.bind_some, Option.map_some, Option.getD_some]
      cases checkUpload head bytes with
      | error e => rfl
      | ok u => exact write_eq _ _ _ _ s

/-- An upload that is let in is acknowledged if it is vetted. -/
theorem acknowledged_iff (h : s.TakesUpload authorization) :
    (s.upload authorization stream).1 = .ok () ↔ (WriteCall.upload stream).vet = .ok () := by
  have hanswer := congrArg Prod.fst (upload_let_in h stream)
  dsimp only at hanswer
  rw [hanswer, Absorbing.Service.handle_ok_iff, Option.isSome_iff_exists]
  simp only [Absorbing.Service.land_eq_some_iff]
  constructor
  · rintro (⟨_, hvet, -⟩ | ⟨hvet, -⟩) <;> exact hvet
  · intro hvet
    cases hknows : s.marked.knows (writes.key (.upload stream)) with
    | true => exact .inr ⟨hvet, rfl⟩
    | false => exact .inl ⟨_, hvet, rfl, rfl⟩

/-! ## What runs make of a file -/

theorem content_apply {call : WriteCall} {store store' : Store} (h : writes.apply call store = .ok store') :
    store'.content scope fileId = (call.saysFile scope fileId).getD (store.content scope fileId) := by
  rw [apply_eq h]
  cases call with
  | upload stream =>
    simp only [WriteCall.put, WriteCall.saysFile]
    cases WriteCall.uploaded stream with
    | none => rfl
    | some drained =>
      obtain ⟨head, bytes⟩ := drained
      simp only [Option.bind_some, content_upload]
      split <;> rfl
  | delete r =>
    simp only [WriteCall.put, WriteCall.saysFile, content_delete]
    split <;> rfl
  | putDoc r => rfl
  | deleteDoc r => rfl
  | putNode r => rfl
  | addEdge r => rfl
  | deleteEdge r => rfl

/-- After a run a file is what the last call that landed for it has left. -/
theorem content_run (s : State) (events : List Event) (scope : String × String) (fileId : String) :
    (s.run events).store.content scope fileId =
      (lastSaid (WriteCall.saysFile scope fileId) (s.landed events)).getD (s.store.content scope fileId) :=
  run_view (fun store => store.content scope fileId) _ (fun _ _ _ => content_apply) s events

/-- A run in which no call lands for a file leaves it as it is. -/
theorem content_quiet {events : List Event} (h : ∀ call ∈ s.landed events, call.saysFile scope fileId = none) :
    (s.run events).store.content scope fileId = s.store.content scope fileId := by
  have hnone : lastSaid (WriteCall.saysFile scope fileId) (s.landed events) = none :=
    List.findSome?_eq_none_iff.2 fun call hcall => h call (List.mem_reverse.1 hcall)
  rw [content_run, hnone]
  rfl

/-! ## What reads make of a file -/

/-- What a `stat_file` that is let in returns of a file, less its stamps. -/
theorem statFile_content {client : Client} {world : World} (tenantId bucket fileId : String) (h : world.Admits client "Stat") :
    (statFile (hosted client State.stat) tenantId bucket fileId world).1.map
        (fun stat => (stat.sizeBytes, stat.checksum, stat.contentType)) =
      found "failed to stat file" ("file " ++ fileId)
        (fun content => .ok (content.sizeBytes, content.checksum, content.contentType))
        ((world.arrived client "Stat").store.content (tenantId, bucket) fileId) := by
  rw [statFile_let_in tenantId bucket fileId h, Store.content]
  cases (world.arrived client "Stat").store.files.find? (tenantId, bucket) fileId <;> rfl

/-- What a `download_file` that is let in returns of a file. -/
theorem downloadFile_content {client : Client} {world : World} (tenantId bucket fileId : String)
    (h : world.Admits client.untimed "Download") :
    let s := world.arrived client.untimed "Download"
    (downloadFile (hostedStreaming client State.download) tenantId bucket fileId world).1 =
      found downloadOperation ("file " ++ fileId)
        (fun content =>
          match s.downloadChunkFailure with
          | none => .ok content.bytes
          | some (deliver, code) => .error (.status "file download stream failed" {
              code := code, message := "download failed after " ++ toString deliver ++ " chunks", timeoutExpired := false }))
        (s.store.content (tenantId, bucket) fileId) := by
  intro s
  obtain ⟨t, hanswer⟩ := download_let_in downloadOperation { tenantId := tenantId, bucket := bucket, fileId := fileId } h
  unfold downloadFile readDecoded
  rw [hanswer, Store.content]
  unfold opened
  cases s.store.files.find? (tenantId, bucket) fileId with
  | none => rfl
  | some stored =>
    cases s.downloadChunkFailure with
    | some failure => rfl
    | none => exact congrArg Except.ok (Chunks.flatten_chunksOf (by decide) stored.bytes)

/-- What an upload that is acknowledged, and is no replay, leaves of its file. -/
theorem stored_of_fresh {head : UploadRequest} {bytes : List UInt8} (h : (s.upload authorization stream).1 = .ok ())
    (huploaded : WriteCall.uploaded stream = some (head, bytes))
    (hfresh : s.absorbsReplay (requestMarker head.requestId "Upload" (head.tenantId, head.bucket, head.fileId)) = false) :
    (s.upload authorization stream).2.store.content (head.tenantId, head.bucket) head.fileId =
      some (FileContent.uploaded head bytes) := by
  have hmarker : (WriteCall.upload stream).marker =
      requestMarker head.requestId "Upload" (head.tenantId, head.bucket, head.fileId) := by
    simp only [WriteCall.marker, huploaded, Option.bind_some]
  have hland : writes.land s.marked (.upload stream) = some _ :=
    Absorbing.Service.land_eq_some_iff.2 ⟨vet_of_acknowledged h, by rw [← hfresh, ← hmarker]; rfl, rfl⟩
  rcases upload_cases authorization stream s with ⟨⟨e, he⟩, -⟩ | hserved
  · rw [h] at he
    cases he
  · have hstore : (s.upload authorization stream).2.store = _ := congrArg Absorbing.Marked.contents (congrArg Prod.snd hserved)
    rw [hstore, Absorbing.Service.handle_state, hland]
    simp [WriteCall.put, huploaded, content_upload]

end FileAux

open FileAux HostedAux StoreAux

/-- What `stat_file` and `download_file` return of a server that others have been at work on since some state, where the call is let
in: the size and the metadata, and the bytes, that the last call that landed for the file has left, and those of that state if none
did. A file that is not there is reported as not found, and of a download that is cut short no bytes are returned. -/
theorem files_last_upload (client : Client) (tenantId bucket fileId : String) (world : World) :
    let scope := (tenantId, bucket)
    let file := fun events => (lastSaid (WriteCall.saysFile scope fileId) (world.server.landed events)).getD
      (world.server.store.content scope fileId)
    (world.Admits client "Stat" →
      (statFile (hosted client State.stat) tenantId bucket fileId world).1.map
          (fun stat => (stat.sizeBytes, stat.checksum, stat.contentType)) =
        found "failed to stat file" ("file " ++ fileId)
          (fun content => .ok (content.sizeBytes, content.checksum, content.contentType)) (file (world.before client "Stat"))) ∧
    (world.Admits client.untimed "Download" →
      (downloadFile (hostedStreaming client State.download) tenantId bucket fileId world).1 =
        found downloadOperation ("file " ++ fileId)
          (fun content =>
            match (world.arrived client.untimed "Download").downloadChunkFailure with
            | none => .ok content.bytes
            | some (deliver, code) => .error (.status "file download stream failed" {
                code := code, message := "download failed after " ++ toString deliver ++ " chunks", timeoutExpired := false }))
          (file (world.before client.untimed "Download"))) := by
  intro scope file
  have hfile : ∀ events, file events = (world.server.run events).store.content scope fileId := fun events =>
    (content_run world.server events scope fileId).symm
  rw [hfile, hfile]
  exact ⟨statFile_content tenantId bucket fileId, downloadFile_content tenantId bucket fileId⟩

/-- The metadata of a file that holds `abc`. -/
def abcMetadata : UploadMetadata :=
  { tenantId := "t", bucket := "b", fileId := "f", contentType := "text/plain", checksum := abcDigest, requestId := "r" }

/-- Its bytes. -/
def abcBytes : Bytes := ⟨[97, 98, 99], by decide⟩

/-- The stream of its upload from memory. -/
def abcStream : UploadStream :=
  { messages := chunkUploadRequests "t" "b" "f" abcBytes.data "text/plain" abcDigest "r", ending := .ok () }

/-- The removal of it. -/
def abcRemoved : Event := .call none (.delete { tenantId := "t", bucket := "b", fileId := "f", requestId := "" })

/-- A server on which others remove the file, upload it with another byte, and upload another one, before it is downloaded. -/
def abcOverwritten : World where
  server := (State.start false).run [.call none (.upload abcStream)]
  calls _ := replacing [abcRemoved,
    .call none (.upload { messages := chunkUploadRequests "t" "b" "f" [100] "text/plain" abcDigest "s", ending := .ok () }),
    .call none (.upload { messages := chunkUploadRequests "t" "b" "g" [101] "text/plain" abcDigest "s", ending := .ok () })]

/-- The other byte is read. -/
theorem files_last_upload_overwritten :
    (downloadFile (hostedStreaming authenticated State.download) "t" "b" "f" abcOverwritten).1 = .ok [100] := by
  have hread := (files_last_upload authenticated "t" "b" "f" abcOverwritten).2 ⟨⟨rfl, rfl⟩, rfl⟩
  exact hread

/-- A verified download returns bytes if and only if its two calls are let in and the download is not cut short, and the bytes are
those of the file when the download was opened, have the size the file had when `stat_file` was answered, and the digest that was its
checksum then, whatever others have done in between. A call is let in if its last attempt is, which is the first one or the one that
follows a refresh. A `Vec` holds fewer than `2 ^ 64` bytes. -/
theorem verified_download_iff (sha : Sha256) (client : Client) (tenantId bucket fileId : String) (world : World)
    (bytes : List UInt8)
    (hmemory : ∀ content, ((world.later (world.arrived client "Stat")).arrived client.untimed "Download").store.content
      (tenantId, bucket) fileId = some content → content.bytes.length < 2 ^ 64) :
    let first := world.arrived client "Stat"
    let second := (world.later first).arrived client.untimed "Download"
    (downloadVerified sha (hosted client State.stat) (hostedStreaming client State.download) tenantId bucket fileId world).1 =
        .ok bytes ↔
      world.Admits client "Stat" ∧ (world.later first).Admits client.untimed "Download" ∧ second.downloadChunkFailure = none ∧
        ∃ old new, first.store.content (tenantId, bucket) fileId = some old ∧
          second.store.content (tenantId, bucket) fileId = some new ∧ bytes = new.bytes ∧
          new.bytes.length = old.sizeBytes.toNat ∧ (sha.digest new.bytes).toList = old.checksum := by
  intro first second
  unfold downloadVerified
  by_cases hstat : world.Admits client "Stat"
  swap
  · obtain ⟨e, t, hanswer⟩ := statFile_turned_away tenantId bucket fileId hstat
    simp [hanswer, hstat]
  rw [statFile_let_in tenantId bucket fileId hstat]
  simp only [Store.content] at hmemory ⊢
  cases hold : (world.arrived client "Stat").store.files.find? (tenantId, bucket) fileId with
  | none => simp [first]
  | some old =>
    simp only [Option.map_some, Option.elim_some]
    rw [openDownload_ok_iff sha client (world.later (world.arrived client "Stat")) _ bytes rfl fun file hfile =>
      hmemory file.content (by rw [hfile]; rfl)]
    simp [first, second, hstat, StoredFile.content, FileStat.fromResponse, StoredFile.stat]

/-- The upload of it under another request id. -/
def abcAgain : Event :=
  .call none (.upload { abcStream with messages := abcStream.messages.map fun message => { message with requestId := "s" } })

/-- The server with the file. Before the download it is removed and uploaded again, and the opening is rejected for its token. -/
def abcReplaced : World where
  server := (State.start false).run [.call none (.upload abcStream)]
  calls call := if call = 1 then replacing [abcRemoved, abcAgain] else .still "Bearer t"

/-- The download is opened again, and the file is verified. -/
theorem verified_download_iff_again :
    (downloadVerified (Sha256.buffering fun _ => abcDigest) (hosted authenticated State.stat)
      (hostedStreaming authenticated State.download) "t" "b" "f" abcReplaced).1 = .ok abcBytes.data := by
  have hcontent : ((abcReplaced.later (abcReplaced.arrived authenticated "Stat")).arrived authenticated.untimed "Download").store.content
      ("t", "b") "f" = some ⟨abcBytes.data, 3, "text/plain", abcDigest.toList⟩ := rfl
  refine (verified_download_iff (Sha256.buffering fun _ => abcDigest) authenticated "t" "b" "f" abcReplaced abcBytes.data ?_).2
    ⟨⟨⟨rfl, rfl⟩, rfl⟩, ⟨⟨rfl, rfl⟩, rfl⟩, rfl, _, _, rfl, hcontent, rfl, rfl, rfl⟩
  intro content h
  rw [hcontent, Option.some_inj] at h
  subst h
  decide

/-- A file that the client uploads, from memory or from a source, is acknowledged by a server that lets the call in. If the upload is
no replay, its checksum is the digest of the bytes, and no other call lands for the file before it is read, it comes back to a call
that is let in, whatever else others do: `stat_file` returns its size, its checksum and its content type, and, where the download is
not cut short, `download_file` and `download_file_verified` return its bytes. -/
theorem upload_comes_back (sha : Sha256) (m : UploadMetadata) (bytes : Bytes) (hchecksum : m.checksum = sha.digest bytes.data)
    {stream : UploadStream} (hstream : UploadsFile m bytes.data stream) (authorization : Option String) (reader : Client) (s : State)
    (hupload : s.TakesUpload authorization)
    (hfresh : s.absorbsReplay (requestMarker m.requestId "Upload" (m.tenantId, m.bucket, m.fileId)) = false)
    (world : World) (hserver : world.server = s.step (.call authorization (.upload stream))) :
    let quiet := fun (world : World) (client : Client) (rpc : String) =>
      ∀ call ∈ world.server.landed (world.before client rpc), call.saysFile (m.tenantId, m.bucket) m.fileId = none
    let second := world.later (world.arrived reader "Stat")
    (s.upload authorization stream).1 = .ok () ∧
      (world.Admits reader "Stat" → quiet world reader "Stat" →
        (statFile (hosted reader State.stat) m.tenantId m.bucket m.fileId world).1.map
            (fun stat => (stat.sizeBytes, stat.checksum, stat.contentType)) =
          .ok (UInt64.ofNat bytes.data.length, m.checksum.toList, m.contentType)) ∧
      (world.Admits reader.untimed "Download" → quiet world reader.untimed "Download" →
        (world.arrived reader.untimed "Download").downloadChunkFailure = none →
          (downloadFile (hostedStreaming reader State.download) m.tenantId m.bucket m.fileId world).1 = .ok bytes.data) ∧
      (world.Admits reader "Stat" → quiet world reader "Stat" →
        second.Admits reader.untimed "Download" → quiet second reader.untimed "Download" →
          (second.arrived reader.untimed "Download").downloadChunkFailure = none →
            (downloadVerified sha (hosted reader State.stat) (hostedStreaming reader State.download) m.tenantId m.bucket m.fileId
              world).1 = .ok bytes.data) := by
  intro quiet second
  let content : FileContent := FileContent.uploaded (firstRequest m (UInt64.ofNat bytes.data.length) []) bytes.data
  have hacknowledged := (acknowledged_iff hupload).2 (vet_of_uploadsFile hstream)
  have hstored : world.server.store.content (m.tenantId, m.bucket) m.fileId = some content := by
    rw [hserver]
    exact stored_of_fresh hacknowledged (uploaded_of_uploadsFile hstream) hfresh
  have hfound : ∀ client rpc, quiet world client rpc →
      (world.arrived client rpc).store.content (m.tenantId, m.bucket) m.fileId = some content := fun client rpc hquiet =>
    (content_quiet hquiet).trans hstored
  refine ⟨hacknowledged, fun hstat hquiet => ?_, fun hdownload hquiet hwhole => ?_,
    fun hstat hquiet hdownload hquiet' hwhole => ?_⟩
  · rw [statFile_content _ _ _ hstat, hfound _ _ hquiet]
    rfl
  · rw [downloadFile_content _ _ _ hdownload, hfound _ _ hquiet, hwhole]
    rfl
  · have hfirst := hfound _ _ hquiet
    have hsecond : (second.arrived reader.untimed "Download").store.content (m.tenantId, m.bucket) m.fileId = some content :=
      (content_quiet hquiet').trans hfirst
    refine (verified_download_iff sha reader m.tenantId m.bucket m.fileId world bytes.data ?_).2
      ⟨hstat, hdownload, hwhole, content, content, hfirst, hsecond, rfl, ?_, congrArg Vector.toList hchecksum.symm⟩
    · intro found hcontent
      cases hsecond.symm.trans hcontent
      have hfit := bytes.len_lt
      show bytes.data.length < 2 ^ 64
      omega
    · show bytes.data.length = (UInt64.ofNat bytes.data.length).toNat
      have hfit := bytes.len_lt
      rw [UInt64.toNat_ofNat', Nat.mod_eq_of_lt (by omega)]

/-- The upload of another file with the same bytes. -/
def otherFile : Event :=
  .call none (.upload { abcStream with
    messages := abcStream.messages.map fun message => { message with fileId := "g", requestId := "s" } })

/-- The file is uploaded from memory, and another one is uploaded before it is read. -/
theorem upload_comes_back_abc :
    let world : World := {
      server := (State.start false).step (.call none (.upload abcStream))
      calls := fun _ => { Meanwhile.still "Bearer t" with others := fun _ => [otherFile] } }
    (downloadFile (hostedStreaming authenticated State.download) "t" "b" "f" world).1 = .ok abcBytes.data := by
  intro world
  refine (upload_comes_back (Sha256.buffering fun _ => abcDigest) abcMetadata abcBytes rfl .memory none authenticated
    (State.start false) ⟨⟨rfl, rfl⟩, rfl⟩ rfl world rfl).2.2.1 ⟨⟨rfl, rfl⟩, rfl⟩ ?_ rfl
  decide

/-- A source is uploaded to a server in any state, and none of its items takes the byte count past `u64::MAX`. However much of its
stream is sent, and however that ends: an upload that is acknowledged is that of a source that delivers what was declared, and, unless
it is a replay, leaves the bytes of the source with the metadata of the call; and one that is refused changes neither the store nor the
markers. Where the call is let in and the stream has ended, `upload_file_chunked` succeeds if and only if the size is within the
limit of the client and the source delivers it. -/
theorem chunked_upload_exact (tenantId bucket fileId uuid : String) (options : FileStreamUploadOptions) (source : Source)
    (hwrap : source.NoWrap options.sizeBytes) (authorization : Option String) (s : State) (n : Nat) :
    let sent := (chunkedRequests tenantId bucket fileId source options uuid).run n
    let requestId := options.requestId.getD (defaultUploadFileRequestId uuid)
    (∀ ending,
      let answer := s.upload authorization { messages := sent.emitted, ending := ending }
      match answer.1 with
      | .ok () => ∃ k, source.Delivers options.sizeBytes k ∧
          (s.absorbsReplay (requestMarker requestId "Upload" (tenantId, bucket, fileId)) = false →
            answer.2.store.content (tenantId, bucket) fileId = some {
              bytes := source.bytes k, sizeBytes := options.sizeBytes, contentType := options.contentType,
              checksum := options.checksum.toList })
      | .error _ => answer.2.marked = s.marked) ∧
    ∀ maxFileBytes, s.TakesUpload authorization → sent.ended = true →
      (uploadFileChunked maxFileBytes tenantId bucket fileId source options uuid n
          (s.upload authorization { messages := sent.emitted, ending := .ok () }).1 = .ok () ↔
        options.sizeBytes ≤ maxFileBytes ∧ ∃ k, source.Delivers options.sizeBytes k) := by
  intro sent requestId
  have hlive : sent.Live source options.sizeBytes ⟨tenantId, bucket, fileId, options.contentType, options.checksum, requestId⟩ :=
    (Rechunk.live_init tenantId bucket fileId options.sizeBytes options.contentType options.checksum requestId source).run hwrap n
  constructor
  · intro ending answer
    split
    · rename_i hok
      obtain ⟨k, hk, huploaded⟩ := delivers_of_vet hlive (vet_of_acknowledged hok)
      refine ⟨k, hk, fun hfresh => ?_⟩
      refine (stored_of_fresh hok huploaded hfresh).trans ?_
      rw [FileContent.uploaded, hk.2.2, UInt64.ofNat_toNat]
      rfl
    · rename_i e herror
      exact marked_of_refused herror
  · intro maxFileBytes htakes hended
    rw [uploadFileChunked_ok_iff]
    refine and_congr_right fun _ => ⟨fun ⟨_, hanswer⟩ => ?_, fun ⟨k, hk⟩ => ?_⟩
    · obtain ⟨k, hk, -⟩ := delivers_of_vet hlive (vet_of_acknowledged hanswer)
      exact ⟨k, hk⟩
    · obtain ⟨hslot, hsome, hsent⟩ := sent_of_delivers hlive hended hk
      refine ⟨hslot, (acknowledged_iff htakes).2 (vet_upload_iff.2 ⟨_, _, uploaded_of_inv hlive.inv hsome, ?_⟩)⟩
      refine checkUpload_ok_iff.2 ⟨options.checksum.size_toArray, ?_⟩
      rw [hsent, hk.2.2, UInt64.ofNat_toNat]
      rfl

/-- A source that yields `abc` in two pieces and then fails is uploaded. -/
theorem chunked_upload_exact_pieces :
    let options : FileStreamUploadOptions :=
      { sizeBytes := 3, checksum := abcDigest, contentType := "text/plain", requestId := some "r" }
    let source := Source.ofPieces [⟨[97], by decide⟩, ⟨[98, 99], by decide⟩] fun _ => some (.error ⟨"reset"⟩)
    let sent := (chunkedRequests "t" "b" "f" source options "u").run 5
    uploadFileChunked 3 "t" "b" "f" source options "u" 5
      ((State.start false).upload none { messages := sent.emitted, ending := .ok () }).1 = .ok () := by
  intro options source sent
  have hwrap : source.NoWrap options.sizeBytes := UploadAux.ofPieces_noWrap (by decide) nofun
  have hexact := (chunked_upload_exact "t" "b" "f" "u" options source hwrap none (State.start false) 5).2 3 ⟨⟨rfl, rfl⟩, rfl⟩
    (by decide)
  have hfits : source.FitsTo options.sizeBytes 2 := fun i hi =>
    match i, hi with
    | 0, _ => ⟨⟨_, rfl⟩, by decide⟩
    | 1, _ => ⟨⟨_, rfl⟩, by decide⟩
  exact hexact.2 ⟨by decide, 2, hfits, .inr ⟨⟨_, rfl⟩, by decide, by decide⟩, by decide⟩

end Server

end RociaSdk

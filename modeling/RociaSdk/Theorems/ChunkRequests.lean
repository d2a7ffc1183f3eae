import Mathlib.Algebra.Order.Floor.Div
import RociaSdk.Lemmas.ChunkAux
import RociaSdk.Timestamp

/-!
# The messages of a file in memory, one by one

`chunk_upload_requests` cuts a buffer of any length into slices of one mebibyte, the last one possibly shorter, and gives the
metadata to the first message only.
-/

namespace RociaSdk

namespace ChunkAux

/-- A buffer that is not empty has a message for each chunk. -/
theorem chunkCount_eq_count {bytes : List UInt8} (h : bytes ≠ []) :
    chunkCount bytes = Chunks.count defaultChunkSize bytes.length := by
  unfold chunkCount Chunks.count
  rw [if_neg (by simpa using h)]

/-- The number of messages is the length divided by that of a chunk, rounded up, and one for an empty buffer. -/
theorem chunkCount_eq (bytes : List UInt8) : chunkCount bytes = max 1 (bytes.length ⌈/⌉ defaultChunkSize) := by
  by_cases h : bytes = []
  · rw [h, List.length_nil, zero_ceilDiv]
    rfl
  · have hpos := chunkCount_pos bytes
    have hceil : chunkCount bytes = bytes.length ⌈/⌉ defaultChunkSize := by
      rw [chunkCount_eq_count h, Nat.ceilDiv_eq_add_pred_div, Chunks.count]
    rw [← hceil, Nat.max_eq_right hpos]

/-- A message that is not the first begins within the buffer. -/
theorem start_lt (bytes : List UInt8) {index : Nat} (hpos : 0 < index) (h : index < chunkCount bytes) :
    index * defaultChunkSize < bytes.length := by
  by_cases hbytes : bytes = []
  · have hone : chunkCount ([] : List UInt8) = 1 := rfl
    rw [hbytes, hone] at h
    omega
  · rw [chunkCount_eq_count hbytes] at h
    exact Chunks.mul_lt_of_lt_count h

/-- Every message begins within the buffer or at its end. -/
theorem start_le (bytes : List UInt8) {index : Nat} (h : index < chunkCount bytes) :
    index * defaultChunkSize ≤ bytes.length := by
  rcases Nat.eq_zero_or_pos index with rfl | hpos
  · rw [Nat.zero_mul]
    exact Nat.zero_le _
  · exact Nat.le_of_lt (start_lt bytes hpos h)

/-- The messages reach to the end of the buffer. -/
theorem le_chunkCount_mul (bytes : List UInt8) : bytes.length ≤ chunkCount bytes * defaultChunkSize := by
  by_cases h : bytes = []
  · rw [h]
    exact Nat.zero_le _
  · rw [chunkCount_eq_count h]
    exact Chunks.le_count_mul defaultChunkSize_pos _

/-- The messages of a list of chunks: the first carries the metadata, the others do not. -/
theorem uploadMessages_getElem? (m : UploadMetadata) (sizeBytes : UInt64) (chunks : List (List UInt8)) (index : Nat) :
    (uploadMessages m sizeBytes chunks)[index]? =
      chunks[index]?.map fun c => if index = 0 then firstRequest m sizeBytes c else { chunk := c } := by
  cases chunks with
  | nil => rfl
  | cons chunk rest =>
    cases index with
    | zero => rfl
    | succ index => rw [uploadMessages, List.getElem?_cons_succ, List.getElem?_map, List.getElem?_cons_succ]; rfl

/-- As many messages as chunks. -/
theorem length_uploadMessages (m : UploadMetadata) (sizeBytes : UInt64) (chunks : List (List UInt8)) :
    (uploadMessages m sizeBytes chunks).length = chunks.length := by
  cases chunks with
  | nil => rfl
  | cons chunk rest => rw [uploadMessages, List.length_cons, List.length_map, List.length_cons]

/-- They carry the chunks. -/
theorem chunksIn_uploadMessages (m : UploadMetadata) (sizeBytes : UInt64) (chunks : List (List UInt8)) :
    chunksIn (uploadMessages m sizeBytes chunks) = chunks := by
  cases chunks with
  | nil => rfl
  | cons chunk rest =>
    have hrest : (rest.map fun c => ({ chunk := c } : UploadRequest)).map UploadRequest.chunk = rest := by
      rw [List.map_map]
      exact List.map_id _
    exact congrArg (chunk :: ·) hrest

/-- The chunks of a file put end to end are the file. -/
theorem flatten_fileChunks (bytes : List UInt8) : (fileChunks bytes).flatten = bytes := by
  rw [fileChunks_eq, Chunks.flatten_pieces, List.take_of_length_le (le_chunkCount_mul bytes)]

/-- What the message with an index carries. -/
theorem request_of_getElem? {tenantId bucket fileId : String} {bytes : List UInt8} {contentType : String} {checksum : Digest}
    {requestId : String} {index : Nat} {request : UploadRequest}
    (h : (chunkUploadRequests tenantId bucket fileId bytes contentType checksum requestId)[index]? = some request) :
    index < chunkCount bytes ∧ request.chunk = Chunks.piece defaultChunkSize bytes index ∧
      (index = 0 → request = firstRequest { tenantId, bucket, fileId, contentType, checksum, requestId }
        (UInt64.ofNat bytes.length) request.chunk) ∧
      (0 < index → request = { chunk := request.chunk }) := by
  rw [chunkUploadRequests_eq, uploadMessages_getElem?, fileChunks_eq, List.getElem?_map, Option.map_map,
    Option.map_eq_some_iff] at h
  obtain ⟨i, hi, rfl⟩ := h
  obtain ⟨hlt, heq⟩ := List.getElem?_eq_some_iff.1 hi
  rw [List.length_range] at hlt
  rw [List.getElem_range] at heq
  subst heq
  rw [Function.comp_apply]
  split
  · exact ⟨hlt, rfl, fun _ => rfl, fun hpos => by omega⟩
  · exact ⟨hlt, rfl, fun hzero => by omega, fun _ => rfl⟩

/-- As many messages as there are to be. -/
theorem length_chunkUploadRequests (tenantId bucket fileId : String) (bytes : List UInt8) (contentType : String)
    (checksum : Digest) (requestId : String) :
    (chunkUploadRequests tenantId bucket fileId bytes contentType checksum requestId).length = chunkCount bytes := by
  rw [chunkUploadRequests_eq, length_uploadMessages, fileChunks_eq, List.length_map, List.length_range]

end ChunkAux

open ChunkAux

/-- There is a message for each mebibyte begun, and one for an empty buffer. Every message is a slice in range: a whole mebibyte,
or, if it is the last one, what is left, which is not empty unless the buffer is. The slices put end to end are the buffer. The
first message has the metadata and the size, and the later ones have nothing but their slice. -/
theorem chunk_upload_requests_exact (tenantId bucket fileId : String) (bytes : Bytes) (contentType : String) (checksum : Digest)
    (requestId : String) :
    let size := bytes.data.length
    let requests := chunkUploadRequests tenantId bucket fileId bytes.data contentType checksum requestId
    requests.length = max 1 (size ⌈/⌉ defaultChunkSize) ∧
    (requests.map UploadRequest.chunk).flatten = bytes.data ∧
    ∀ index request, requests[index]? = some request →
      index * defaultChunkSize + defaultChunkSize < 2 ^ 64 ∧
      Checked.slice bytes.data (index * defaultChunkSize) (min (index * defaultChunkSize + defaultChunkSize) size) =
        (.ok request.chunk : Checked String (List UInt8)) ∧
      (index + 1 < requests.length → request.chunk.length = 1024 * 1024) ∧
      (index + 1 = requests.length → request.chunk.length ≤ 1024 * 1024 ∧ (request.chunk = [] ↔ size = 0)) ∧
      (index = 0 → request.tenantId = tenantId ∧ request.bucket = bucket ∧ request.fileId = fileId ∧
        request.contentType = contentType ∧ request.checksum = checksum.toList ∧ request.requestId = requestId ∧
        request.sizeBytes.toNat = size) ∧
      (0 < index → request.tenantId = "" ∧ request.bucket = "" ∧ request.fileId = "" ∧ request.contentType = "" ∧
        request.checksum = [] ∧ request.requestId = "" ∧ request.sizeBytes = 0) := by
  intro size requests
  have hcount : requests.length = chunkCount bytes.data := length_chunkUploadRequests ..
  have hsize : size < 2 ^ 63 := bytes.len_lt
  refine ⟨hcount.trans (chunkCount_eq _), ?_, ?_⟩
  · have hchunks : requests.map UploadRequest.chunk = fileChunks bytes.data := by
      unfold requests
      rw [chunkUploadRequests_eq]
      exact chunksIn_uploadMessages ..
    rw [hchunks, flatten_fileChunks]
  intro index request hrequest
  obtain ⟨hindex, hchunk, hfirst, hlater⟩ := request_of_getElem? hrequest
  have hstart := start_le bytes.data hindex
  have hlength : request.chunk.length = min defaultChunkSize (size - index * defaultChunkSize) := by
    rw [hchunk, Chunks.length_piece]
  have hmebibyte : defaultChunkSize = 1024 * 1024 := rfl
  rw [hcount]
  refine ⟨by omega, ?_, ?_, ?_, ?_, ?_⟩
  · unfold Checked.slice
    rw [if_pos ⟨by omega, Nat.min_le_right ..⟩, slice_eq_piece, hchunk]
  · intro hnext
    have hlt := start_lt bytes.data (Nat.add_one_pos index) hnext
    rw [Nat.add_mul, Nat.one_mul] at hlt
    omega
  · intro hlast
    refine ⟨by omega, ?_⟩
    rw [← List.length_eq_zero_iff, hlength]
    constructor
    · intro hzero
      rcases Nat.eq_zero_or_pos index with rfl | hpos
      · omega
      · have hlt := start_lt bytes.data hpos hindex
        omega
    · intro hempty
      omega
  · intro hzero
    rw [hfirst hzero]
    exact ⟨rfl, rfl, rfl, rfl, rfl, rfl, (UInt64.toNat_ofNat' ..).trans (Nat.mod_eq_of_lt (by omega))⟩
  · intro hpos
    rw [hlater hpos]
    exact ⟨rfl, rfl, rfl, rfl, rfl, rfl, rfl⟩

end RociaSdk

import RociaSdk.Lemmas.RechunkAux

/-!
# The messages of a file in memory

`chunk_upload_requests` yields the messages `uploadMessages` of the chunks `fileChunks` cuts the buffer into.
-/

namespace RociaSdk

namespace ChunkAux

/-- The slice with index `i` is the piece with index `i`. -/
theorem slice_eq_piece (bytes : List UInt8) (i : Nat) :
    (bytes.take (min (i * defaultChunkSize + defaultChunkSize) bytes.length)).drop (i * defaultChunkSize) =
      Chunks.piece defaultChunkSize bytes i := by
  unfold Chunks.piece
  rw [List.drop_take]
  apply List.take_eq_take_iff.2
  rw [List.length_drop]
  omega

/-- Once the first request has taken what the closure captured, every later one carries its slice alone. -/
theorem chunkRequests_none (bytes : List UInt8) (indices : List Nat) (h : ∀ i ∈ indices, i ≠ 0) :
    chunkRequests bytes ⟨none, none, none, none, none, none⟩ indices =
      indices.map fun i => { chunk := Chunks.piece defaultChunkSize bytes i } := by
  induction indices with
  | nil => rfl
  | cons i rest ih =>
    have hi : i ≠ 0 := h i (List.mem_cons_self ..)
    have hrest : ∀ j ∈ rest, j ≠ 0 := fun j hj => h j (List.mem_cons_of_mem _ hj)
    unfold chunkRequests
    rw [List.map_cons, ← slice_eq_piece]
    simp only [chunkRequest, ih hrest, Option.getD_none, Option.map_none, if_neg hi]

/-- The chunks of a file are its pieces with the indices below `chunk_count`. -/
theorem fileChunks_eq (bytes : List UInt8) :
    fileChunks bytes = (List.range (chunkCount bytes)).map (Chunks.piece defaultChunkSize bytes) := by
  cases bytes with
  | nil => rfl
  | cons b bs => simp only [fileChunks, chunkCount, Chunks.chunksOf, Chunks.count, List.isEmpty_cons, reduceCtorEq, if_false,
      Bool.false_eq_true]

/-- There is at least one message. -/
theorem chunkCount_pos (bytes : List UInt8) : 0 < chunkCount bytes := by
  unfold chunkCount
  split
  · exact Nat.one_pos
  · rename_i hne
    have hpos : 0 < bytes.length := List.length_pos_iff.2 (by simpa using hne)
    exact Nat.div_pos (by omega) defaultChunkSize_pos

/-- The messages of a file in memory carry its chunks. -/
theorem chunkUploadRequests_eq (tenantId bucket fileId : String) (bytes : List UInt8) (contentType : String)
    (checksum : Digest) (requestId : String) :
    chunkUploadRequests tenantId bucket fileId bytes contentType checksum requestId =
      uploadMessages { tenantId, bucket, fileId, contentType, checksum, requestId } (UInt64.ofNat bytes.length)
        (fileChunks bytes) := by
  obtain ⟨n, hn⟩ : ∃ n, chunkCount bytes = n + 1 := ⟨_, (Nat.succ_pred_eq_of_pos (chunkCount_pos bytes)).symm⟩
  have hlater : ∀ i ∈ (List.range n).map Nat.succ, i ≠ 0 := by simp
  have hfirst := slice_eq_piece bytes 0
  rw [fileChunks_eq, chunkUploadRequests, hn, List.range_succ_eq_map, List.map_cons, uploadMessages, chunkRequests,
    ← hfirst, firstRequest, List.map_map]
  congr 1
  refine (chunkRequests_none bytes _ hlater).trans ?_
  rw [List.map_map, List.map_map]
  rfl

end ChunkAux

end RociaSdk

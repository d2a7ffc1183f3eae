import RociaSdk.Lemmas.ChunkAux
import RociaSdk.Lemmas.RechunkRun

/-!
# The two upload streams agree

However a source cuts a file into pieces, the rechunked stream carries the messages of the file in memory.
-/

namespace RociaSdk

open RechunkAux

namespace UploadAux

/-! ## The pieces of a whole file -/

section

variable {sizeBytes : UInt64} {pieces : List Bytes} {rest : Source}

/-- The polls before the end of the pieces yield them. -/
theorem ofPieces_lt {i : Nat} (hi : i < pieces.length) : Source.ofPieces pieces rest i = some (.ok pieces[i]) := by
  simp only [Source.ofPieces, List.getElem?_eq_getElem hi]

/-- The poll after the last piece is the first of the rest. -/
theorem ofPieces_length : Source.ofPieces pieces rest pieces.length = rest 0 := by
  simp only [Source.ofPieces, List.getElem?_eq_none (Nat.le_refl _), Nat.sub_self]

/-- The bytes of the first `n` polls are those of the first `n` pieces. -/
theorem ofPieces_bytes {n : Nat} (hn : n ≤ pieces.length) :
    (Source.ofPieces pieces rest).bytes n = ((pieces.take n).map Bytes.data).flatten := by
  induction n with
  | zero => rfl
  | succ n ih =>
    have hlt : n < pieces.length := hn
    rw [Source.bytes_succ_ok (ofPieces_lt hlt), ih hlt.le, List.take_succ_eq_append_getElem hlt, List.map_append,
      List.flatten_append]
    simp

/-- The first polls deliver no more than the whole file. -/
theorem ofPieces_bytes_le {n : Nat} (hn : n ≤ pieces.length) :
    ((Source.ofPieces pieces rest).bytes n).length ≤ ((pieces.map Bytes.data).flatten).length := by
  have h := Source.bytes_length_mono (Source.ofPieces pieces rest) hn
  rwa [ofPieces_bytes (Nat.le_refl _), List.take_length] at h

/-- A poll that yields a piece is one of the polls of the pieces, when the rest starts with none. -/
theorem lt_of_ok {k : Nat} {piece : Bytes} (hrest : ∀ p, rest 0 ≠ some (.ok p))
    (hok : ∀ i < k, ∃ p, Source.ofPieces pieces rest i = some (.ok p))
    (hsrc : Source.ofPieces pieces rest k = some (.ok piece)) : k < pieces.length := by
  by_contra hge
  rcases Nat.lt_or_eq_of_le (Nat.le_of_not_lt hge) with hlt | heq
  · obtain ⟨p, hp⟩ := hok _ hlt
    rw [ofPieces_length] at hp
    exact hrest p hp
  · rw [← heq, ofPieces_length] at hsrc
    exact hrest piece hsrc

/-- The first poll that yields no piece is the one after the last piece. -/
theorem eq_length_of_not_ok {k : Nat} (hrest : ∀ p, rest 0 ≠ some (.ok p))
    (hok : ∀ i < k, ∃ p, Source.ofPieces pieces rest i = some (.ok p))
    (hsrc : ∀ p, Source.ofPieces pieces rest k ≠ some (.ok p)) : k = pieces.length :=
  Source.eq_of_first_not_ok hok hsrc (fun _ hi => ⟨_, ofPieces_lt hi⟩) fun p => by rw [ofPieces_length]; exact hrest p

/-- A source that delivers exactly the declared bytes wraps no byte count. -/
theorem ofPieces_noWrap (hsize : ((pieces.map Bytes.data).flatten).length = sizeBytes.toNat)
    (hrest : ∀ p, rest 0 ≠ some (.ok p)) : (Source.ofPieces pieces rest).NoWrap sizeBytes := by
  intro k piece hfits hsrc
  have hk := lt_of_ok hrest (fun i hi => (hfits i hi).1) hsrc
  have hle : ((Source.ofPieces pieces rest).bytes (k + 1)).length ≤ _ := ofPieces_bytes_le hk
  rw [hsize] at hle
  exact Nat.lt_of_le_of_lt hle sizeBytes.toNat_lt

end

/-! ## The chunks of a finished stream -/

/-- Chunks in the shape of a stream are the chunks of the bytes they carry. -/
theorem chunks_eq_fileChunks {s : RechunkState} {chunks : List (List UInt8)} (hshape : ChunksShape s chunks)
    (hsome : chunks ≠ []) : chunks = fileChunks chunks.flatten := by
  have hpos := defaultChunkSize_pos
  rcases hshape with hfull | ⟨_, _, full, last, rfl, hfull, hlt, hempty⟩
  · obtain ⟨c, cs, rfl⟩ := List.exists_cons_of_ne_nil hsome
    have hc : c.length = defaultChunkSize := hfull c (List.mem_cons_self ..)
    have hne : (c :: cs).flatten ≠ [] := by
      intro h
      have := congrArg List.length h
      rw [List.flatten_cons, List.length_append, List.length_nil] at this
      omega
    unfold fileChunks
    rw [if_neg hne, Chunks.chunksOf_flatten_full hpos _ hfull]
  · by_cases hlast : last = []
    · subst hlast
      rw [hempty rfl]
      rfl
    · have hne : (full ++ [last]).flatten ≠ [] := by simp [hlast]
      unfold fileChunks
      rw [if_neg hne, Chunks.chunksOf_flatten_snoc hpos _ _ hfull hlast hlt.le]

/-- A stream that has sent all it has read has sent the messages of a file in memory. -/
theorem emitted_eq {source : Source} {sizeBytes : UInt64} {m : UploadMetadata} {r : Rechunk}
    (h : r.Inv source sizeBytes m) (hnone : r.state.unsent = []) (hsome : r.emitted ≠ []) :
    r.emitted = uploadMessages m sizeBytes (fileChunks (source.bytes r.state.polled)) := by
  have hbytes := h.bytes_eq
  rw [hnone, List.append_nil] at hbytes
  have hchunks : chunksIn r.emitted ≠ [] := by simpa [chunksIn] using hsome
  conv_lhs => rw [h.messages, chunks_eq_fileChunks h.shape hchunks]
  rw [← hbytes, bytesIn]

end UploadAux

open UploadAux

/-- For every file, every way of cutting it into pieces and every ending of the source that is forgiven, the rechunked
stream ends, its messages are those `chunk_upload_requests` yields for the file in memory, no error is recorded, and nothing
after the item that follows the last piece is pulled. -/
theorem rechunk_eq_chunk (tenantId bucket fileId contentType requestId : String) (checksum : Digest)
    (sizeBytes : UInt64) (D : List UInt8) (pieces : List Bytes) (rest : Source) (hsize : D.length = sizeBytes.toNat)
    (hpieces : (pieces.map Bytes.data).flatten = D)
    (hrest : rest 0 = none ∨ 0 < sizeBytes ∧ ∃ error, rest 0 = some (.error error)) :
    let stream := rechunkUploadRequests tenantId bucket fileId sizeBytes contentType checksum requestId
      (Source.ofPieces pieces rest)
    (∃ n, (stream.run n).ended = true) ∧
      ∀ n, (stream.run n).state.errorSlot = none ∧ (stream.run n).state.polled ≤ pieces.length + 1 ∧
        ((stream.run n).ended = true →
          (stream.run n).emitted =
            chunkUploadRequests tenantId bucket fileId D contentType checksum requestId) := by
  intro stream
  subst hpieces
  have hnok : ∀ p, rest 0 ≠ some (.ok p) := by
    rintro p h
    rcases hrest with hnone | ⟨_, e, herr⟩
    · rw [hnone] at h
      cases h
    · rw [herr] at h
      cases h
  have hw := ofPieces_noWrap hsize hnok
  have hinit : stream.Live _ sizeBytes _ := Rechunk.live_init _ _ _ _ _ _ _ _
  have hend : ∀ p, Source.ofPieces pieces rest pieces.length ≠ some (.ok p) := by
    intro p
    rw [ofPieces_length]
    exact hnok p
  have hbytes : (Source.ofPieces pieces rest).bytes pieces.length = (pieces.map Bytes.data).flatten := by
    rw [ofPieces_bytes (Nat.le_refl _), List.take_length]
  refine ⟨hinit.ends hw hend, ?_⟩
  intro n
  have hlive := hinit.run hw n
  generalize stream.run n = r at hlive ⊢
  cases hlive.stage with
  | reading hrun _ hslot hok _ _ =>
    refine ⟨hslot, ?_, fun h => absurd h (by simp [hrun])⟩
    by_contra hlt
    obtain ⟨p, hp⟩ := hok pieces.length (by omega)
    exact hend p hp
  | overshot k piece _ _ hfits hsrc hover _ _ =>
    have hk := lt_of_ok hnok (fun i hi => (hfits i hi).1) hsrc
    have hle : ((Source.ofPieces pieces rest).bytes (k + 1)).length ≤ _ := ofPieces_bytes_le hk
    rw [hsize] at hle
    exact absurd hle (Nat.not_le_of_lt hover)
  | failed k error _ _ hfits hsrc hne _ _ =>
    have hk := eq_length_of_not_ok hnok (fun i hi => (hfits i hi).1) (by simp [hsrc])
    subst hk
    rw [ofPieces_length] at hsrc
    rcases hrest with hnone | ⟨hpos, _⟩
    · rw [hnone] at hsrc
      cases hsrc
    · have hzero := hne (by rw [hbytes, hsize])
      rw [UInt64.lt_iff_toNat_lt, hzero] at hpos
      exact absurd hpos (Nat.lt_irrefl 0)
  | flushing k hrun hpolled _ hfits hdone hslot =>
    have hk := eq_length_of_not_ok hnok (fun i hi => (hfits i hi).1) hdone.not_ok
    exact ⟨hslot, by omega, fun h => absurd h (by simp [hrun])⟩
  | short k _ _ hfits hsrc hlt _ =>
    have hk := eq_length_of_not_ok hnok (fun i hi => (hfits i hi).1) (by simp [hsrc])
    subst hk
    rw [hbytes] at hlt
    omega
  | complete k _ hpolled hfits hdone _ hnone hsome hslot =>
    have hk := eq_length_of_not_ok hnok (fun i hi => (hfits i hi).1) hdone.not_ok
    refine ⟨hslot, by omega, ?_⟩
    intro _
    rw [emitted_eq hlive.inv hnone hsome, hpolled, hdone.bytes_succ, hk, hbytes, ChunkAux.chunkUploadRequests_eq, hsize,
      UInt64.ofNat_toNat]

/-- An empty piece, two pieces and a failure after the last declared byte. -/
theorem rechunk_eq_chunk_split :
    let pieces : List Bytes := [⟨[], by decide⟩, ⟨[1, 2], by decide⟩, ⟨[3], by decide⟩]
    let stream := rechunkUploadRequests "t" "b" "f" 3 "text/plain" (Vector.replicate 32 0) "r"
      (Source.ofPieces pieces fun _ => some (.error ⟨"reset"⟩))
    (∃ n, (stream.run n).ended = true) ∧
      ∀ n, (stream.run n).state.errorSlot = none ∧ (stream.run n).state.polled ≤ 4 ∧
        ((stream.run n).ended = true →
          (stream.run n).emitted =
            chunkUploadRequests "t" "b" "f" [1, 2, 3] "text/plain" (Vector.replicate 32 0) "r") :=
  rechunk_eq_chunk "t" "b" "f" "text/plain" "r" (Vector.replicate 32 0) 3 [1, 2, 3] _ _ (by decide) (by decide)
    (Or.inr ⟨by decide, _, rfl⟩)

end RociaSdk

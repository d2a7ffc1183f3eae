import RociaSdk.Upload
import RociaSdk.Lib.Chunks

/-!
# One iteration of the rechunking loop

`Rechunk.Inv` is what holds at every iteration as long as the bytes pulled so far fit a `u64`: emitted, buffered and pending
bytes put end to end are the bytes pulled, the buffer never outgrows a chunk, and the requests emitted have the shape
`uploadMessages`. `branch` says once what an iteration can do, under the tests of the loop, and `step_cases` reads those tests on
the bytes pulled; every later statement about the stream is derived from the one or the other.
-/

namespace RociaSdk

theorem defaultChunkSize_pos : 0 < defaultChunkSize := by decide

/-! ## The shape of an upload -/

/-- The request that opens an upload: the metadata, the declared size and the first chunk. -/
def firstRequest (m : UploadMetadata) (sizeBytes : UInt64) (chunk : List UInt8) : UploadRequest :=
  { tenantId := m.tenantId, bucket := m.bucket, fileId := m.fileId, sizeBytes := sizeBytes, contentType := m.contentType,
    checksum := m.checksum.toList, chunk := chunk, requestId := m.requestId }

/-- The requests that carry a list of chunks: metadata on the first, defaults on the others. -/
def uploadMessages (m : UploadMetadata) (sizeBytes : UInt64) : List (List UInt8) → List UploadRequest
  | [] => []
  | chunk :: rest => firstRequest m sizeBytes chunk :: rest.map fun c => { chunk := c }

/-- The chunks a list of requests carries. -/
def chunksIn (requests : List UploadRequest) : List (List UInt8) := requests.map (·.chunk)

/-- The bytes a list of requests carries. -/
def bytesIn (requests : List UploadRequest) : List UInt8 := (chunksIn requests).flatten

@[simp] theorem chunksIn_append (a b : List UploadRequest) : chunksIn (a ++ b) = chunksIn a ++ chunksIn b := by
  simp [chunksIn]

@[simp] theorem chunksIn_singleton (r : UploadRequest) : chunksIn [r] = [r.chunk] := rfl

@[simp] theorem chunksIn_nil : chunksIn [] = [] := rfl

@[simp] theorem bytesIn_append (a b : List UploadRequest) : bytesIn (a ++ b) = bytesIn a ++ bytesIn b := by
  simp [bytesIn]

@[simp] theorem bytesIn_singleton (r : UploadRequest) : bytesIn [r] = r.chunk := by
  simp [bytesIn]

@[simp] theorem bytesIn_nil : bytesIn [] = [] := rfl

/-- The messages of one chunk more. -/
theorem uploadMessages_snoc (m : UploadMetadata) (sizeBytes : UInt64) (chunks : List (List UInt8)) (c : List UInt8) :
    uploadMessages m sizeBytes (chunks ++ [c]) =
      uploadMessages m sizeBytes chunks ++ [if chunks = [] then firstRequest m sizeBytes c else { chunk := c }] := by
  cases chunks <;> simp [uploadMessages]

/-- `next_request` opens the upload while the metadata is there, and carries the bare chunk afterwards. -/
theorem nextRequest_eq (s : RechunkState) (c : List UInt8) :
    s.nextRequest c =
      ((match s.metadata with | some m => firstRequest m s.sizeBytes c | none => { chunk := c }),
        { s with metadata := none }) := by
  cases s with
  | mk source polled buffer pending pendingOffset sizeBytes totalWritten wroteAny sourceExhausted metadata errorSlot =>
    cases metadata <;> rfl

/-- The chunks an upload of `D` is cut into: one empty chunk for an empty file. -/
def fileChunks (D : List UInt8) : List (List UInt8) := if D = [] then [[]] else Chunks.chunksOf defaultChunkSize D

/-! ## The bytes a source has delivered -/

/-- The bytes of the `Ok` items among the first `n` polls. -/
def Source.bytes (source : Source) : Nat → List UInt8
  | 0 => []
  | n + 1 =>
    source.bytes n ++ match source n with
      | some (.ok piece) => piece.data
      | _ => []

theorem Source.bytes_succ_ok {source : Source} {n : Nat} {piece : Bytes} (h : source n = some (.ok piece)) :
    source.bytes (n + 1) = source.bytes n ++ piece.data := by
  simp [Source.bytes, h]

theorem Source.bytes_succ_error {source : Source} {n : Nat} {e : IoError} (h : source n = some (.error e)) :
    source.bytes (n + 1) = source.bytes n := by
  simp [Source.bytes, h]

theorem Source.bytes_succ_none {source : Source} {n : Nat} (h : source n = none) :
    source.bytes (n + 1) = source.bytes n := by
  simp [Source.bytes, h]

theorem Source.bytes_length_mono (source : Source) {i j : Nat} (h : i ≤ j) :
    (source.bytes i).length ≤ (source.bytes j).length := by
  induction h with
  | refl => exact Nat.le_refl _
  | step _ ih =>
    refine ih.trans ?_
    simp [Source.bytes]

/-! ## The invariant -/

/-- The bytes held but not emitted. -/
def RechunkState.unsent (s : RechunkState) : List UInt8 := s.buffer ++ s.pending.drop s.pendingOffset

/-- The chunks of a stream that has not flushed its remainder are full; the remainder, once flushed, is the last chunk. -/
def ChunksShape (s : RechunkState) (chunks : List (List UInt8)) : Prop :=
  (∀ c ∈ chunks, c.length = defaultChunkSize) ∨
    (s.sourceExhausted = true ∧ s.unsent = [] ∧
      ∃ full last, chunks = full ++ [last] ∧ (∀ c ∈ full, c.length = defaultChunkSize) ∧
        last.length < defaultChunkSize ∧ (last = [] → full = []))

/-- What holds at every iteration of the loop, for a source, a declared size and the metadata of an upload, as long as the
bytes pulled before the iteration fit a `u64`. -/
structure Rechunk.Inv (source : Source) (sizeBytes : UInt64) (m : UploadMetadata) (r : Rechunk) : Prop where
  source_eq : r.state.source = source
  size_eq : r.state.sizeBytes = sizeBytes
  buffer_le : r.state.buffer.length ≤ defaultChunkSize
  offset_le : r.state.pendingOffset ≤ r.state.pending.length
  bytes_eq : bytesIn r.emitted ++ r.state.unsent = source.bytes r.state.polled
  written : r.state.totalWritten.toNat = (bytesIn r.emitted).length
  wroteAny_iff : r.state.wroteAny = true ↔ r.emitted ≠ []
  metadata_eq : r.state.metadata = if r.emitted = [] then some m else none
  messages : r.emitted = uploadMessages m sizeBytes (chunksIn r.emitted)
  shape : ChunksShape r.state (chunksIn r.emitted)

namespace RechunkAux

/-- A stream before its first poll satisfies the invariant. -/
theorem inv_init (tenantId bucket fileId : String) (sizeBytes : UInt64) (contentType : String) (checksum : Digest)
    (requestId : String) (source : Source) :
    (rechunkUploadRequests tenantId bucket fileId sizeBytes contentType checksum requestId source).Inv source sizeBytes
      { tenantId, bucket, fileId, contentType, checksum, requestId } where
  source_eq := rfl
  size_eq := rfl
  buffer_le := Nat.zero_le _
  offset_le := Nat.le_refl _
  bytes_eq := rfl
  written := rfl
  wroteAny_iff := by simp [rechunkUploadRequests]
  metadata_eq := rfl
  messages := rfl
  shape := Or.inl (by simp [rechunkUploadRequests])

variable {source : Source} {sizeBytes : UInt64} {m : UploadMetadata} {r : Rechunk}

/-- The bytes held, as the source counts them. -/
theorem unsent_length (s : RechunkState) : s.unsent.length = s.buffer.length + (s.pending.length - s.pendingOffset) := by
  simp [RechunkState.unsent]

/-- Emitted and held bytes together are as many as were pulled. -/
theorem length_eq (h : r.Inv source sizeBytes m) :
    (bytesIn r.emitted).length + r.state.unsent.length = (source.bytes r.state.polled).length := by
  rw [← h.bytes_eq, List.length_append]

/-- `total_written + unsent_len()` is the number of bytes pulled, as long as that fits a `u64`. -/
theorem total_toNat (h : r.Inv source sizeBytes m) (hfit : (source.bytes r.state.polled).length < 2 ^ 64) :
    (r.state.totalWritten + r.state.unsentLen).toNat = (source.bytes r.state.polled).length := by
  have hlen := length_eq h
  rw [RechunkState.unsentLen, ← unsent_length, UInt64.toNat_add, h.written, UInt64.toNat_ofNat', Nat.add_mod_mod, hlen,
    Nat.mod_eq_of_lt hfit]

/-- The overshoot check compares the bytes pulled with the declared size. -/
theorem overshoot_iff (h : r.Inv source sizeBytes m) (hfit : (source.bytes r.state.polled).length < 2 ^ 64) :
    r.state.totalWritten + r.state.unsentLen > r.state.sizeBytes ↔
      sizeBytes.toNat < (source.bytes r.state.polled).length := by
  rw [gt_iff_lt, UInt64.lt_iff_toNat_lt, total_toNat h hfit, h.size_eq]

/-! ## What an iteration does -/

end RechunkAux

/-- The state after `chunk` has gone out of the buffer and `rest` is left in it. -/
def RechunkState.sent (s : RechunkState) (chunk rest : List UInt8) : RechunkState :=
  { s with buffer := rest, totalWritten := s.totalWritten + UInt64.ofNat chunk.length, wroteAny := true, metadata := none }

/-- The request that carries `chunk` out of a state. -/
def RechunkState.requestFor (s : RechunkState) (chunk : List UInt8) : UploadRequest :=
  match s.metadata with
  | some m => firstRequest m s.sizeBytes chunk
  | none => { chunk := chunk }

/-- The stream after emitting everything in the buffer. -/
def Rechunk.emitBuffer (r : Rechunk) : Rechunk :=
  { r with state := r.state.sent r.state.buffer [], emitted := r.emitted ++ [r.state.requestFor r.state.buffer] }

/-- The state after one more poll. -/
def RechunkState.advance (s : RechunkState) : RechunkState := { s with polled := s.polled + 1 }

/-- The overshoot check of the loop. -/
def RechunkState.Overshoots (s : RechunkState) : Prop := s.totalWritten + s.unsentLen > s.sizeBytes

/-- The loop goes past its first two tests: no overshoot and no chunk that is to go out. -/
structure RechunkState.Waits (s : RechunkState) : Prop where
  fits : ¬s.Overshoots
  holds : ¬(defaultChunkSize ≤ s.buffer.length ∧ (s.completesTheFile = false ∨ s.sourceExhausted = true))

/-- It has nothing pending either and polls the source. -/
structure RechunkState.Polls (s : RechunkState) : Prop where
  waits : s.Waits
  pending : s.hasPending = false
  reading : s.sourceExhausted = false

/-- It has nothing pending and the source is done. -/
structure RechunkState.Flushes (s : RechunkState) : Prop where
  waits : s.Waits
  pending : s.hasPending = false
  exhausted : s.sourceExhausted = true

/-- The branches of an iteration of a running stream, each under the tests of the loop that lead to it. -/
inductive Rechunk.Branch (r : Rechunk) : Rechunk → Prop where
  | overshoot (hover : r.state.Overshoots) :
      Branch r { r with state := r.state.recordSizeError (overshootMessage r.state.sizeBytes), ended := true }
  | full (hfits : ¬r.state.Overshoots) (hfull : defaultChunkSize ≤ r.state.buffer.length)
      (hheld : r.state.completesTheFile = false ∨ r.state.sourceExhausted = true) :
      Branch r { r with
        state := r.state.sent (r.state.buffer.take defaultChunkSize) (r.state.buffer.drop defaultChunkSize)
        emitted := r.emitted ++ [r.state.requestFor (r.state.buffer.take defaultChunkSize)] }
  | drain (hwaits : r.state.Waits) (hpend : r.state.hasPending = true) : Branch r { r with state := r.state.drainPending }
  | pollOk (piece : Bytes) (hpolls : r.state.Polls) (hsrc : r.state.source r.state.polled = some (.ok piece)) :
      Branch r { r with state := r.state.advance.ingest piece.data }
  | pollForgiven (error : IoError) (hpolls : r.state.Polls) (hsrc : r.state.source r.state.polled = some (.error error))
      (hall : 0 < r.state.sizeBytes ∧ r.state.totalWritten + r.state.unsentLen = r.state.sizeBytes) :
      Branch r { r with state := { r.state.advance with sourceExhausted := true } }
  | pollFailed (error : IoError) (hpolls : r.state.Polls) (hsrc : r.state.source r.state.polled = some (.error error))
      (hshort : ¬(0 < r.state.sizeBytes ∧ r.state.totalWritten + r.state.unsentLen = r.state.sizeBytes)) :
      Branch r { r with state := r.state.advance.recordIoError error, ended := true }
  | pollEnd (hpolls : r.state.Polls) (hsrc : r.state.source r.state.polled = none) :
      Branch r { r with state := { r.state.advance with sourceExhausted := true } }
  | flush (hflushes : r.state.Flushes) (hleft : r.state.buffer ≠ [] ∨ r.state.wroteAny = false) : Branch r r.emitBuffer
  | short (hflushes : r.state.Flushes) (hempty : r.state.buffer = []) (hwrote : r.state.wroteAny = true)
      (hne : r.state.totalWritten ≠ r.state.sizeBytes) :
      Branch r { r with
        state := r.state.recordSizeError (shortfallMessage r.state.totalWritten r.state.sizeBytes)
        ended := true }
  | complete (hflushes : r.state.Flushes) (hempty : r.state.buffer = []) (hwrote : r.state.wroteAny = true)
      (heq : r.state.totalWritten = r.state.sizeBytes) : Branch r { r with ended := true }

/-- What one iteration of a running stream can do, and when: the guards are on the bytes pulled, not on machine counters. -/
inductive Rechunk.Iteration (source : Source) (sizeBytes : UInt64) (r : Rechunk) : Rechunk → Prop where
  | overshoot (hover : sizeBytes.toNat < (source.bytes r.state.polled).length) :
      Iteration source sizeBytes r
        { r with state := r.state.recordSizeError (overshootMessage sizeBytes), ended := true }
  | full (hle : (source.bytes r.state.polled).length ≤ sizeBytes.toNat)
      (hfull : r.state.buffer.length = defaultChunkSize)
      (hheld : (bytesIn r.emitted).length + defaultChunkSize ≠ sizeBytes.toNat ∨ r.state.sourceExhausted = true) :
      Iteration source sizeBytes r r.emitBuffer
  | drain (hle : (source.bytes r.state.polled).length ≤ sizeBytes.toNat) (hpend : r.state.hasPending = true)
      (hspace : r.state.buffer.length < defaultChunkSize) :
      Iteration source sizeBytes r { r with state := r.state.drainPending }
  | pollOk (piece : Bytes) (hle : (source.bytes r.state.polled).length ≤ sizeBytes.toNat)
      (hpend : r.state.hasPending = false) (hex : r.state.sourceExhausted = false)
      (hsrc : source r.state.polled = some (.ok piece)) :
      Iteration source sizeBytes r { r with state := r.state.advance.ingest piece.data }
  | pollForgiven (error : IoError) (heq : (source.bytes r.state.polled).length = sizeBytes.toNat)
      (hpos : 0 < sizeBytes.toNat) (hpend : r.state.hasPending = false) (hex : r.state.sourceExhausted = false)
      (hsrc : source r.state.polled = some (.error error)) :
      Iteration source sizeBytes r { r with state := { r.state.advance with sourceExhausted := true } }
  | pollFailed (error : IoError) (hle : (source.bytes r.state.polled).length ≤ sizeBytes.toNat)
      (hne : (source.bytes r.state.polled).length = sizeBytes.toNat → sizeBytes.toNat = 0)
      (hpend : r.state.hasPending = false) (hex : r.state.sourceExhausted = false)
      (hsrc : source r.state.polled = some (.error error)) :
      Iteration source sizeBytes r { r with state := r.state.advance.recordIoError error, ended := true }
  | pollEnd (hle : (source.bytes r.state.polled).length ≤ sizeBytes.toNat) (hpend : r.state.hasPending = false)
      (hex : r.state.sourceExhausted = false) (hsrc : source r.state.polled = none) :
      Iteration source sizeBytes r { r with state := { r.state.advance with sourceExhausted := true } }
  | flush (hle : (source.bytes r.state.polled).length ≤ sizeBytes.toNat) (hpend : r.state.hasPending = false)
      (hex : r.state.sourceExhausted = true) (hspace : r.state.buffer.length < defaultChunkSize)
      (hflush : r.state.buffer ≠ [] ∨ r.emitted = []) :
      Iteration source sizeBytes r r.emitBuffer
  | short (hlt : (source.bytes r.state.polled).length < sizeBytes.toNat) (hex : r.state.sourceExhausted = true)
      (hnone : r.state.unsent = []) (hsome : r.emitted ≠ []) :
      Iteration source sizeBytes r
        { r with
          state := r.state.recordSizeError (shortfallMessage r.state.totalWritten sizeBytes)
          ended := true }
  | complete (heq : (source.bytes r.state.polled).length = sizeBytes.toNat) (hex : r.state.sourceExhausted = true)
      (hnone : r.state.unsent = []) (hsome : r.emitted ≠ []) :
      Iteration source sizeBytes r { r with ended := true }

namespace RechunkAux

variable {source : Source} {sizeBytes : UInt64} {m : UploadMetadata} {r : Rechunk}

/-- An ended stream stays as it is. -/
theorem step_ended (h : r.ended = true) : r.step = r := by
  simp [Rechunk.step, h]

/-- One iteration more. -/
theorem run_succ (r : Rechunk) (n : Nat) : r.run (n + 1) = (r.run n).step := Function.iterate_succ_apply' _ _ _

/-- A running stream takes what one iteration of the loop does. -/
theorem step_eq (h : r.ended = false) :
    r.step = match rechunkIteration r.state with
      | .continue s => { r with state := s }
      | .yield request s => { r with state := s, emitted := r.emitted ++ [request] }
      | .finish s => { r with state := s, ended := true } :=
  if_neg (by simp [h])

/-- Emitting the whole buffer. -/
theorem emit_eq (s : RechunkState) (chunk rest : List UInt8) :
    s.emit chunk rest = .yield (s.requestFor chunk) (s.sent chunk rest) := by
  simp only [RechunkState.emit, nextRequest_eq, RechunkState.requestFor, RechunkState.sent]

theorem pollSource_ok {s : RechunkState} {piece : Bytes} (h : s.source s.polled = some (.ok piece)) :
    s.pollSource = .continue (s.advance.ingest piece.data) := by
  simp only [RechunkState.pollSource, h, RechunkState.advance]

theorem pollSource_none {s : RechunkState} (h : s.source s.polled = none) :
    s.pollSource = .continue { s.advance with sourceExhausted := true } := by
  simp only [RechunkState.pollSource, h, RechunkState.advance]

theorem pollSource_error {s : RechunkState} {error : IoError} (h : s.source s.polled = some (.error error)) :
    s.pollSource =
      if 0 < s.sizeBytes ∧ s.totalWritten + s.unsentLen = s.sizeBytes then
        .continue { s.advance with sourceExhausted := true }
      else .finish (s.advance.recordIoError error) := by
  simp only [RechunkState.pollSource, h, RechunkState.advance]

/-- An iteration of a running stream takes one of the branches. -/
theorem branch (hrun : r.ended = false) : r.Branch r.step := by
  rw [step_eq hrun]
  unfold rechunkIteration
  by_cases hover : r.state.totalWritten + r.state.unsentLen > r.state.sizeBytes
  · rw [if_pos hover]
    exact .overshoot hover
  rw [if_neg hover]
  by_cases hsend : defaultChunkSize ≤ r.state.buffer.length ∧
      (r.state.completesTheFile = false ∨ r.state.sourceExhausted = true)
  · rw [if_pos hsend, emit_eq]
    exact .full hover hsend.1 hsend.2
  rw [if_neg hsend]
  by_cases hpend : r.state.hasPending = true
  · rw [if_pos hpend]
    exact .drain ⟨hover, hsend⟩ hpend
  rw [if_neg hpend]
  rw [Bool.not_eq_true] at hpend
  cases hex : r.state.sourceExhausted with
  | false =>
    have hpolls : r.state.Polls := ⟨⟨hover, hsend⟩, hpend, hex⟩
    rw [if_pos (by rfl)]
    cases hsrc : r.state.source r.state.polled with
    | none =>
      rw [pollSource_none hsrc]
      exact .pollEnd hpolls hsrc
    | some item =>
      cases item with
      | ok piece =>
        rw [pollSource_ok hsrc]
        exact .pollOk piece hpolls hsrc
      | error error =>
        rw [pollSource_error hsrc]
        by_cases hall : 0 < r.state.sizeBytes ∧ r.state.totalWritten + r.state.unsentLen = r.state.sizeBytes
        · rw [if_pos hall]
          exact .pollForgiven error hpolls hsrc hall
        · rw [if_neg hall]
          exact .pollFailed error hpolls hsrc hall
  | true =>
    have hflushes : r.state.Flushes := ⟨⟨hover, hsend⟩, hpend, hex⟩
    rw [if_neg (by decide)]
    by_cases hleft : r.state.buffer ≠ [] ∨ r.state.wroteAny = false
    · rw [if_pos hleft, emit_eq]
      exact .flush hflushes hleft
    rw [if_neg hleft]
    rw [not_or, not_not, Bool.not_eq_false] at hleft
    by_cases hne : r.state.totalWritten ≠ r.state.sizeBytes
    · rw [if_pos hne]
      exact .short hflushes hleft.1 hleft.2 hne
    · rw [if_neg hne]
      exact .complete hflushes hleft.1 hleft.2 (not_not.1 hne)

/-- Without an overshoot the wrapping additions of the loop do not wrap: the full chunk in the buffer completes the file
exactly when its last byte is the last declared one. -/
theorem completesTheFile_iff (h : r.Inv source sizeBytes m)
    (hle : (source.bytes r.state.polled).length ≤ sizeBytes.toNat) (hfull : r.state.buffer.length = defaultChunkSize) :
    r.state.completesTheFile = true ↔ (bytesIn r.emitted).length + defaultChunkSize = sizeBytes.toNat := by
  have hlen := length_eq h
  have hsize := sizeBytes.toNat_lt
  rw [unsent_length, hfull] at hlen
  have hchunk : (UInt64.ofNat defaultChunkSize).toNat = defaultChunkSize := rfl
  rw [RechunkState.completesTheFile, beq_iff_eq, ← UInt64.toNat_inj, UInt64.toNat_add, h.written, h.size_eq, hchunk,
    Nat.mod_eq_of_lt (by omega)]

/-- With nothing pending, what is held is the buffer. -/
theorem unsent_of_not_pending (s : RechunkState) (h : s.hasPending = false) : s.unsent = s.buffer := by
  have hle : s.pending.length ≤ s.pendingOffset := by simpa [RechunkState.hasPending] using h
  unfold RechunkState.unsent
  rw [List.drop_of_length_le hle, List.append_nil]

/-- A loop that goes past the overshoot check has pulled no more than the declared size. -/
theorem pulled_le (h : r.Inv source sizeBytes m) (hfit : (source.bytes r.state.polled).length < 2 ^ 64)
    (hfits : ¬r.state.Overshoots) : (source.bytes r.state.polled).length ≤ sizeBytes.toNat :=
  Nat.le_of_not_lt fun hlt => hfits ((overshoot_iff h hfit).2 hlt)

/-- A full buffer would complete the file with a tail still pending, and that is an overshoot: `drain_pending` has room. -/
theorem buffer_lt_of_drains (h : r.Inv source sizeBytes m) (hfit : (source.bytes r.state.polled).length < 2 ^ 64)
    (hwaits : r.state.Waits) (hpend : r.state.hasPending = true) : r.state.buffer.length < defaultChunkSize := by
  refine Nat.lt_of_le_of_ne h.buffer_le fun hfull => hwaits.holds ⟨hfull.ge, Or.inl ?_⟩
  have hle := pulled_le h hfit hwaits.fits
  have hlen := length_eq h
  have hlt : r.state.pendingOffset < r.state.pending.length := by simpa [RechunkState.hasPending] using hpend
  rw [← Bool.not_eq_true, completesTheFile_iff h hle hfull]
  rw [unsent_length] at hlen
  omega

/-- With every byte accounted for, the declared size has been read exactly. -/
theorem total_eq_size_iff (h : r.Inv source sizeBytes m) (hfit : (source.bytes r.state.polled).length < 2 ^ 64) :
    r.state.totalWritten + r.state.unsentLen = r.state.sizeBytes ↔
      (source.bytes r.state.polled).length = sizeBytes.toNat := by
  rw [← UInt64.toNat_inj, total_toNat h hfit, h.size_eq]

/-- So it has when everything has been sent. -/
theorem written_eq_size_iff (h : r.Inv source sizeBytes m) (hnone : r.state.unsent = []) :
    r.state.totalWritten = r.state.sizeBytes ↔ (source.bytes r.state.polled).length = sizeBytes.toNat := by
  have hlen := length_eq h
  rw [hnone, List.length_nil, Nat.add_zero] at hlen
  rw [← UInt64.toNat_inj, h.written, hlen, h.size_eq]

/-- What an iteration of a running stream does, as long as the bytes pulled fit a `u64`. -/
theorem step_cases (h : r.Inv source sizeBytes m) (hfit : (source.bytes r.state.polled).length < 2 ^ 64)
    (hrun : r.ended = false) : r.Iteration source sizeBytes r.step := by
  have hbranch := branch hrun
  have hsize := h.size_eq
  have hsource : r.state.source r.state.polled = source r.state.polled := by rw [h.source_eq]
  generalize r.step = r' at hbranch ⊢
  cases hbranch with
  | overshoot hover =>
    rw [hsize]
    exact .overshoot ((overshoot_iff h hfit).1 hover)
  | full hfits hfull hheld =>
    have hle := pulled_le h hfit hfits
    have hfull' : r.state.buffer.length = defaultChunkSize := Nat.le_antisymm h.buffer_le hfull
    rw [← hfull', List.take_length, List.drop_length]
    refine .full hle hfull' (hheld.imp (?_) id)
    intro hc heq
    rw [(completesTheFile_iff h hle hfull').2 heq] at hc
    cases hc
  | drain hwaits hpend => exact .drain (pulled_le h hfit hwaits.fits) hpend (buffer_lt_of_drains h hfit hwaits hpend)
  | pollOk piece hpolls hsrc =>
    exact .pollOk piece (pulled_le h hfit hpolls.waits.fits) hpolls.pending hpolls.reading (hsource.symm.trans hsrc)
  | pollForgiven error hpolls hsrc hall =>
    rw [total_eq_size_iff h hfit, hsize, UInt64.lt_iff_toNat_lt] at hall
    exact .pollForgiven error hall.2 hall.1 hpolls.pending hpolls.reading (hsource.symm.trans hsrc)
  | pollFailed error hpolls hsrc hshort =>
    rw [total_eq_size_iff h hfit, hsize, UInt64.lt_iff_toNat_lt] at hshort
    refine .pollFailed error (pulled_le h hfit hpolls.waits.fits) ?_ hpolls.pending hpolls.reading (hsource.symm.trans hsrc)
    intro heq
    by_contra hne
    exact hshort ⟨Nat.pos_of_ne_zero hne, heq⟩
  | pollEnd hpolls hsrc =>
    exact .pollEnd (pulled_le h hfit hpolls.waits.fits) hpolls.pending hpolls.reading (hsource.symm.trans hsrc)
  | flush hflushes hleft =>
    have hspace : r.state.buffer.length < defaultChunkSize :=
      Nat.lt_of_not_le fun hfull => hflushes.waits.holds ⟨hfull, Or.inr hflushes.exhausted⟩
    refine .flush (pulled_le h hfit hflushes.waits.fits) hflushes.pending hflushes.exhausted hspace (hleft.imp id ?_)
    intro hw
    by_contra hne
    rw [h.wroteAny_iff.2 hne] at hw
    cases hw
  | short hflushes hempty hwrote hne =>
    have hnone : r.state.unsent = [] := (unsent_of_not_pending _ hflushes.pending).trans hempty
    have hle := pulled_le h hfit hflushes.waits.fits
    rw [hsize]
    exact .short (Nat.lt_of_le_of_ne hle fun heq => hne ((written_eq_size_iff h hnone).2 heq)) hflushes.exhausted hnone
      (h.wroteAny_iff.1 hwrote)
  | complete hflushes hempty hwrote heq =>
    have hnone : r.state.unsent = [] := (unsent_of_not_pending _ hflushes.pending).trans hempty
    exact .complete ((written_eq_size_iff h hnone).1 heq) hflushes.exhausted hnone (h.wroteAny_iff.1 hwrote)

/-! ## The invariant is kept -/

/-- `drain_pending` moves bytes from the pending tail into the buffer, never past one chunk, and touches nothing else. -/
theorem drainPending_frame (s : RechunkState) (hbuf : s.buffer.length ≤ defaultChunkSize)
    (hoff : s.pendingOffset ≤ s.pending.length) :
    ∃ b p o, s.drainPending = { s with buffer := b, pending := p, pendingOffset := o } ∧
      b.length ≤ defaultChunkSize ∧ o ≤ p.length ∧ b ++ p.drop o = s.unsent ∧
      p.length - o =
        s.pending.length - s.pendingOffset - min (defaultChunkSize - s.buffer.length) (s.pending.length - s.pendingOffset) := by
  unfold RechunkState.drainPending
  by_cases h1 : s.hasPending = true
  swap
  · rw [if_pos (by simp [h1])]
    have hle : s.pending.length ≤ s.pendingOffset := by simpa [RechunkState.hasPending] using h1
    exact ⟨s.buffer, s.pending, s.pendingOffset, rfl, hbuf, hoff, rfl, by omega⟩
  rw [if_neg (by simp [h1])]
  generalize hstop : s.pendingOffset + min (defaultChunkSize - s.buffer.length) (s.pending.length - s.pendingOffset) = stop
  have hmoved : (s.buffer ++ (s.pending.take stop).drop s.pendingOffset).length ≤ defaultChunkSize := by
    rw [List.length_append, List.length_drop, List.length_take]
    omega
  have hsplit : (s.buffer ++ (s.pending.take stop).drop s.pendingOffset) ++ s.pending.drop stop = s.unsent := by
    have htail : (s.pending.take stop).drop s.pendingOffset ++ s.pending.drop stop = s.pending.drop s.pendingOffset := by
      conv_rhs => rw [← List.take_append_drop stop s.pending]
      rw [List.drop_append_of_le_length]
      rw [List.length_take]
      omega
    rw [List.append_assoc, htail, RechunkState.unsent]
  by_cases h2 : stop < s.pending.length
  · refine ⟨_, s.pending, stop, ?_, hmoved, h2.le, hsplit, by omega⟩
    simp [RechunkState.hasPending, hstop, h2]
  · refine ⟨_, [], 0, ?_, hmoved, Nat.le_refl _, ?_, by rw [List.length_nil]; omega⟩
    · simp [RechunkState.hasPending, hstop, h2]
    · rw [← hsplit, List.drop_of_length_le (Nat.le_of_not_lt h2), List.drop_nil]

/-- `ingest`, with nothing pending, takes in the whole item: what fits goes to the buffer and the tail is pending. -/
theorem ingest_frame (s : RechunkState) (piece : List UInt8) (hbuf : s.buffer.length ≤ defaultChunkSize)
    (hoff : s.pendingOffset ≤ s.pending.length) (hpend : s.hasPending = false) :
    ∃ b p o, s.ingest piece = { s with buffer := b, pending := p, pendingOffset := o } ∧
      b.length ≤ defaultChunkSize ∧ o ≤ p.length ∧ b ++ p.drop o = s.unsent ++ piece := by
  have hunsent := unsent_of_not_pending s hpend
  have hle : s.pending.length ≤ s.pendingOffset := by simpa [RechunkState.hasPending] using hpend
  unfold RechunkState.ingest
  by_cases h1 : piece.length ≤ defaultChunkSize - s.buffer.length
  · refine ⟨s.buffer ++ piece, s.pending, s.pendingOffset, if_pos h1, ?_, hoff, ?_⟩
    · rw [List.length_append]
      omega
    · rw [List.drop_of_length_le hle, List.append_nil, hunsent]
  · refine ⟨s.buffer ++ piece.take (defaultChunkSize - s.buffer.length), piece, defaultChunkSize - s.buffer.length,
      if_neg h1, ?_, by omega, ?_⟩
    · rw [List.length_append, List.length_take]
      omega
    · rw [List.append_assoc, List.take_append_drop, hunsent]

/-- An item taken in behind the bytes held makes the bytes of one poll more. -/
theorem bytes_ingest {sent held : List UInt8} {n : Nat} {piece : Bytes} {s : RechunkState} (hsrc : source n = some (.ok piece))
    (hbytes : sent ++ s.unsent = source.bytes n) (hheld : held = s.unsent ++ piece.data) :
    sent ++ held = source.bytes (n + 1) := by
  rw [hheld, Source.bytes_succ_ok hsrc, ← hbytes, List.append_assoc]

/-- The chunk of the request that carries it. -/
theorem requestFor_chunk (s : RechunkState) (chunk : List UInt8) : (s.requestFor chunk).chunk = chunk := by
  unfold RechunkState.requestFor
  cases s.metadata <;> rfl

/-- Emitting the buffer sends its bytes after those already sent. -/
theorem bytesIn_emitBuffer (r : Rechunk) : bytesIn r.emitBuffer.emitted = bytesIn r.emitted ++ r.state.buffer := by
  simp [Rechunk.emitBuffer, requestFor_chunk]

theorem chunksIn_emitBuffer (r : Rechunk) : chunksIn r.emitBuffer.emitted = chunksIn r.emitted ++ [r.state.buffer] := by
  simp [Rechunk.emitBuffer, requestFor_chunk]

/-- Emitting the buffer keeps the invariant, as soon as the chunks keep their shape. -/
theorem emitBuffer_inv (h : r.Inv source sizeBytes m) (hfit : (source.bytes r.state.polled).length < 2 ^ 64)
    (hshape : ChunksShape r.emitBuffer.state (chunksIn r.emitted ++ [r.state.buffer])) :
    r.emitBuffer.Inv source sizeBytes m := by
  have hlen := length_eq h
  rw [unsent_length] at hlen
  have hwritten := h.written
  have hb := bytesIn_emitBuffer r
  have hc := chunksIn_emitBuffer r
  refine ⟨h.source_eq, h.size_eq, Nat.zero_le _, h.offset_le, ?_, ?_, ?_, ?_, ?_, hc ▸ hshape⟩
  · rw [hb, List.append_assoc]
    exact h.bytes_eq
  · rw [hb]
    simp only [Rechunk.emitBuffer, RechunkState.sent, UInt64.toNat_add, UInt64.toNat_ofNat', List.length_append]
    rw [Nat.add_mod_mod, hwritten, Nat.mod_eq_of_lt (by omega)]
  · simp [Rechunk.emitBuffer, RechunkState.sent]
  · simp [Rechunk.emitBuffer, RechunkState.sent]
  · -- The metadata is still there exactly when this is the first request.
    have hnil : chunksIn r.emitted = [] ↔ r.emitted = [] := by simp [chunksIn]
    rw [hc, uploadMessages_snoc, ← h.messages]
    simp only [Rechunk.emitBuffer, RechunkState.requestFor, h.metadata_eq, h.size_eq, hnil]
    by_cases he : r.emitted = []
    · simp [he]
    · simp [he]

end RechunkAux

open RechunkAux

/-- Every iteration of a running stream keeps the invariant. -/
theorem Rechunk.Iteration.inv {source : Source} {sizeBytes : UInt64} {m : UploadMetadata} {r r' : Rechunk}
    (hstep : r.Iteration source sizeBytes r') (h : r.Inv source sizeBytes m)
    (hfit : (source.bytes r.state.polled).length < 2 ^ 64) : r'.Inv source sizeBytes m := by
  cases hstep with
  | overshoot _ =>
    exact ⟨h.source_eq, h.size_eq, h.buffer_le, h.offset_le, h.bytes_eq, h.written, h.wroteAny_iff, h.metadata_eq,
      h.messages, h.shape⟩
  | full hle hfull hheld =>
    refine emitBuffer_inv h hfit (Or.inl ?_)
    rcases h.shape with hall | ⟨_, hnone, _⟩
    · intro c hc
      rcases List.mem_append.mp hc with hc | hc
      · exact hall c hc
      · rw [List.mem_singleton.mp hc]
        exact hfull
    · have hlen : r.state.buffer.length = 0 := by
        have := congrArg List.length hnone
        rw [unsent_length, List.length_nil] at this
        omega
      have := defaultChunkSize_pos
      omega
  | drain hle hpend hspace =>
    obtain ⟨b, p, o, he, hb, ho, hun, _⟩ := drainPending_frame r.state h.buffer_le h.offset_le
    rw [he]
    refine ⟨h.source_eq, h.size_eq, hb, ho, ?_, h.written, h.wroteAny_iff, h.metadata_eq, h.messages, ?_⟩
    · rw [← h.bytes_eq, ← hun]
      rfl
    · rcases h.shape with hall | ⟨hex, hnone, hlast⟩
      · exact Or.inl hall
      · exact Or.inr ⟨hex, hun.trans hnone, hlast⟩
  | pollOk piece hle hpend hex hsrc =>
    obtain ⟨b, p, o, he, hb, ho, hun⟩ :=
      ingest_frame r.state.advance piece.data h.buffer_le h.offset_le hpend
    rw [he]
    refine ⟨h.source_eq, h.size_eq, hb, ho, bytes_ingest hsrc h.bytes_eq hun, h.written, h.wroteAny_iff, h.metadata_eq,
      h.messages, ?_⟩
    rcases h.shape with hall | ⟨hex', _, _⟩
    · exact Or.inl hall
    · rw [hex] at hex'
      cases hex'
  | pollForgiven error heq hpos hpend hex hsrc =>
    refine ⟨h.source_eq, h.size_eq, h.buffer_le, h.offset_le, ?_, h.written, h.wroteAny_iff, h.metadata_eq, h.messages,
      ?_⟩
    · exact h.bytes_eq.trans (Source.bytes_succ_error hsrc).symm
    · rcases h.shape with hall | ⟨_, hrest⟩
      · exact Or.inl hall
      · exact Or.inr ⟨rfl, hrest⟩
  | pollFailed error hle hne hpend hex hsrc =>
    exact ⟨h.source_eq, h.size_eq, h.buffer_le, h.offset_le, h.bytes_eq.trans (Source.bytes_succ_error hsrc).symm,
      h.written, h.wroteAny_iff, h.metadata_eq, h.messages, h.shape⟩
  | pollEnd hle hpend hex hsrc =>
    refine ⟨h.source_eq, h.size_eq, h.buffer_le, h.offset_le, ?_, h.written, h.wroteAny_iff, h.metadata_eq, h.messages,
      ?_⟩
    · exact h.bytes_eq.trans (Source.bytes_succ_none hsrc).symm
    · rcases h.shape with hall | ⟨_, hrest⟩
      · exact Or.inl hall
      · exact Or.inr ⟨rfl, hrest⟩
  | flush hle hpend hex hspace hflush =>
    refine emitBuffer_inv h hfit ?_
    have hunsent := unsent_of_not_pending r.state hpend
    rcases h.shape with hall | ⟨_, hnone, full, last, hchunks, _, _, _⟩
    · refine Or.inr ⟨hex, ?_, chunksIn r.emitted, r.state.buffer, rfl, hall, hspace, ?_⟩
      · unfold RechunkState.unsent at hunsent ⊢
        refine List.append_cancel_left (?_ : r.state.buffer ++ _ = r.state.buffer ++ _)
        simpa [Rechunk.emitBuffer, RechunkState.sent] using hunsent
      · intro hb
        rcases hflush with hne | he
        · exact absurd hb hne
        · rw [he, chunksIn_nil]
    · -- Already flushed: the buffer is empty and a request has gone out, so there is nothing to flush.
      rcases hflush with hne | he
      · exact absurd (hunsent.symm.trans hnone) hne
      · rw [he, chunksIn_nil] at hchunks
        simp at hchunks
  | short _ _ _ _ =>
    exact ⟨h.source_eq, h.size_eq, h.buffer_le, h.offset_le, h.bytes_eq, h.written, h.wroteAny_iff, h.metadata_eq,
      h.messages, h.shape⟩
  | complete _ _ _ _ =>
    exact ⟨h.source_eq, h.size_eq, h.buffer_le, h.offset_le, h.bytes_eq, h.written, h.wroteAny_iff, h.metadata_eq,
      h.messages, h.shape⟩

end RociaSdk

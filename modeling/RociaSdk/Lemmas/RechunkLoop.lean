import RociaSdk.Lemmas.RechunkAux
import RociaSdk.UploadPanics

/-!
# The loop, however many bytes are pulled

`Rechunk.Bounded` holds at every iteration, even after a byte count has wrapped: the buffer is within one chunk, the tail held
back is that of the item pulled last, and no byte is lost. It is enough for the loop not to panic (`iterationChecked_eq`) and
for the source to be polled only with nothing pending (`step_polled`).
-/

namespace RociaSdk

/-- The tail held back is empty, or bytes of the item pulled last are left in it. -/
def RechunkState.HoldsTail (source : Source) (s : RechunkState) : Prop :=
  s.pending = [] ∨
    s.hasPending = true ∧ ∃ i piece, s.polled = i + 1 ∧ source i = some (.ok piece) ∧ s.pending = piece.data

/-- The bytes of the tail that are left to copy. -/
def RechunkState.pendingLeft (s : RechunkState) : Nat := s.pending.length - s.pendingOffset

/-- What holds at every iteration of the loop, for a source and a declared size. -/
structure Rechunk.Bounded (source : Source) (sizeBytes : UInt64) (r : Rechunk) : Prop where
  source_eq : r.state.source = source
  size_eq : r.state.sizeBytes = sizeBytes
  buffer_le : r.state.buffer.length ≤ defaultChunkSize
  offset_le : r.state.pendingOffset ≤ r.state.pending.length
  bytes_eq : bytesIn r.emitted ++ r.state.unsent = source.bytes r.state.polled
  tail : r.state.HoldsTail source
  written : r.state.totalWritten = UInt64.ofNat (bytesIn r.emitted).length
  chunks : r.state.sourceExhausted = false → (bytesIn r.emitted).length = r.emitted.length * defaultChunkSize

namespace RechunkAux

variable {source : Source} {sizeBytes : UInt64} {r : Rechunk}

/-- A stream before its first poll. -/
theorem bounded_init (tenantId bucket fileId : String) (sizeBytes : UInt64) (contentType : String) (checksum : Digest)
    (requestId : String) (source : Source) :
    (rechunkUploadRequests tenantId bucket fileId sizeBytes contentType checksum requestId source).Bounded source
      sizeBytes where
  source_eq := rfl
  size_eq := rfl
  buffer_le := Nat.zero_le _
  offset_le := Nat.le_refl _
  bytes_eq := rfl
  tail := Or.inl rfl
  written := rfl
  chunks _ := (Nat.zero_mul _).symm

/-- With nothing pending the tail is empty. -/
theorem pending_nil_of_tail {s : RechunkState} (h : s.HoldsTail source) (hpend : s.hasPending = false) : s.pending = [] := by
  rcases h with hnil | ⟨hsome, _⟩
  · exact hnil
  · rw [hpend] at hsome
    cases hsome

/-- `drain_pending` leaves bytes of the same tail, or frees it. -/
theorem holdsTail_drainPending {s : RechunkState} (h : s.HoldsTail source) : s.drainPending.HoldsTail source := by
  unfold RechunkState.drainPending
  by_cases h1 : s.hasPending = true
  swap
  · rw [if_pos (by simp [h1])]
    exact h
  rw [if_neg (by simp [h1])]
  rcases h with hnil | ⟨_, hitem⟩
  · rw [RechunkState.hasPending, hnil] at h1
    simp at h1
  · simp only
    split
    · exact Or.inl rfl
    · rename_i hleft
      exact Or.inr ⟨by simpa using hleft, hitem⟩

/-- `ingest`, with nothing pending, leaves the tail of the item it takes in, if any. -/
theorem holdsTail_ingest {s : RechunkState} {i : Nat} {piece : Bytes} (hnil : s.pending = []) (hpolled : s.polled = i + 1)
    (hsrc : source i = some (.ok piece)) : (s.ingest piece.data).HoldsTail source := by
  unfold RechunkState.ingest
  simp only
  split
  · exact Or.inl hnil
  · rename_i hlong
    refine Or.inr ⟨?_, i, piece, hpolled, hsrc, rfl⟩
    simpa [RechunkState.hasPending] using hlong

/-- A full chunk is the whole buffer. -/
theorem sendsFull_eq (hbuffer : r.state.buffer.length ≤ defaultChunkSize) (hfull : defaultChunkSize ≤ r.state.buffer.length) :
    { r with
      state := r.state.sent (r.state.buffer.take defaultChunkSize) (r.state.buffer.drop defaultChunkSize)
      emitted := r.emitted ++ [r.state.requestFor (r.state.buffer.take defaultChunkSize)] } = r.emitBuffer := by
  rw [← Nat.le_antisymm hbuffer hfull, List.take_length, List.drop_length]
  rfl

/-- Emitting the buffer keeps the bounds, as soon as it is a whole chunk or the source is done. -/
theorem emitBuffer_bounded (h : r.Bounded source sizeBytes)
    (hchunk : r.state.sourceExhausted = false → r.state.buffer.length = defaultChunkSize) :
    r.emitBuffer.Bounded source sizeBytes := by
  have hbytes := bytesIn_emitBuffer r
  refine ⟨h.source_eq, h.size_eq, Nat.zero_le _, h.offset_le, ?_, h.tail, ?_, ?_⟩
  · rw [hbytes, List.append_assoc]
    exact h.bytes_eq
  · rw [hbytes, List.length_append, UInt64.ofNat_add, ← h.written]
    rfl
  · intro hex
    rw [hbytes, List.length_append, h.chunks hex, hchunk hex]
    simp [Rechunk.emitBuffer, Nat.add_mul]

/-- A poll that yields no piece keeps the bounds. -/
theorem advance_bounded (h : r.Bounded source sizeBytes) (hpolls : r.state.Polls)
    (hbytes : source.bytes (r.state.polled + 1) = source.bytes r.state.polled) (exhausted ended : Bool)
    (slot : Option RociaDbError) :
    { r with
      state := { r.state.advance with sourceExhausted := exhausted, errorSlot := slot }
      ended := ended }.Bounded source sizeBytes := by
  have hnil := pending_nil_of_tail h.tail hpolls.pending
  exact ⟨h.source_eq, h.size_eq, h.buffer_le, h.offset_le, h.bytes_eq.trans hbytes.symm, Or.inl hnil, h.written,
    fun _ => h.chunks hpolls.reading⟩

/-- Every iteration keeps the bounds. -/
theorem bounded_step (h : r.Bounded source sizeBytes) : r.step.Bounded source sizeBytes := by
  cases hrun : r.ended with
  | true =>
    rw [step_ended hrun]
    exact h
  | false =>
    have hbranch := branch hrun
    have hsource : r.state.source r.state.polled = source r.state.polled := by rw [h.source_eq]
    generalize r.step = r' at hbranch ⊢
    cases hbranch with
    | overshoot _ => exact ⟨h.source_eq, h.size_eq, h.buffer_le, h.offset_le, h.bytes_eq, h.tail, h.written, h.chunks⟩
    | short _ _ _ _ => exact ⟨h.source_eq, h.size_eq, h.buffer_le, h.offset_le, h.bytes_eq, h.tail, h.written, h.chunks⟩
    | complete _ _ _ _ => exact ⟨h.source_eq, h.size_eq, h.buffer_le, h.offset_le, h.bytes_eq, h.tail, h.written, h.chunks⟩
    | full _ hfull _ =>
      rw [sendsFull_eq h.buffer_le hfull]
      exact emitBuffer_bounded h fun _ => Nat.le_antisymm h.buffer_le hfull
    | drain _ _ =>
      have htail := holdsTail_drainPending h.tail
      obtain ⟨b, p, o, he, hb, ho, hun, _⟩ := drainPending_frame r.state h.buffer_le h.offset_le
      rw [he] at htail ⊢
      refine ⟨h.source_eq, h.size_eq, hb, ho, ?_, htail, h.written, h.chunks⟩
      rw [← h.bytes_eq, ← hun]
      rfl
    | pollOk piece hpolls hsrc =>
      rw [hsource] at hsrc
      have hnil := pending_nil_of_tail h.tail hpolls.pending
      have htail : (r.state.advance.ingest piece.data).HoldsTail source := holdsTail_ingest hnil rfl hsrc
      obtain ⟨b, p, o, he, hb, ho, hun⟩ :=
        ingest_frame r.state.advance piece.data h.buffer_le h.offset_le hpolls.pending
      rw [he] at htail ⊢
      exact ⟨h.source_eq, h.size_eq, hb, ho, bytes_ingest hsrc h.bytes_eq hun, htail, h.written, h.chunks⟩
    | pollForgiven error hpolls hsrc _ =>
      exact advance_bounded h hpolls (Source.bytes_succ_error (hsource.symm.trans hsrc)) _ _ _
    | pollFailed error hpolls hsrc _ =>
      exact advance_bounded h hpolls (Source.bytes_succ_error (hsource.symm.trans hsrc)) _ _ _
    | pollEnd hpolls hsrc => exact advance_bounded h hpolls (Source.bytes_succ_none (hsource.symm.trans hsrc)) _ _ _
    | flush hflushes _ =>
      refine emitBuffer_bounded h ?_
      intro hex
      rw [hflushes.exhausted] at hex
      cases hex

/-! ## What an iteration counts -/

/-- Draining the pending tail polls nothing. -/
theorem drainPending_polled (s : RechunkState) : s.drainPending.polled = s.polled := by
  unfold RechunkState.drainPending
  split
  · rfl
  · simp only
    split <;> rfl

/-- Taking in an item polls nothing. -/
theorem ingest_polled (s : RechunkState) (piece : List UInt8) : (s.ingest piece).polled = s.polled := by
  unfold RechunkState.ingest
  simp only
  split <;> rfl

/-- An iteration leaves the position in the source, or polls it once with nothing pending. -/
theorem step_polled (r : Rechunk) :
    r.step.state.polled = r.state.polled ∨ r.state.Polls ∧ r.step.state.polled = r.state.polled + 1 := by
  cases hrun : r.ended with
  | true =>
    rw [step_ended hrun]
    exact Or.inl rfl
  | false =>
    have hbranch := branch hrun
    generalize r.step = r' at hbranch ⊢
    cases hbranch with
    | overshoot _ => exact Or.inl rfl
    | full _ _ _ => exact Or.inl rfl
    | drain _ _ => exact Or.inl (drainPending_polled _)
    | pollOk _ hpolls _ => exact Or.inr ⟨hpolls, ingest_polled _ _⟩
    | pollForgiven _ hpolls _ _ => exact Or.inr ⟨hpolls, rfl⟩
    | pollFailed _ hpolls _ _ => exact Or.inr ⟨hpolls, rfl⟩
    | pollEnd hpolls _ => exact Or.inr ⟨hpolls, rfl⟩
    | flush _ _ => exact Or.inl rfl
    | short _ _ _ _ => exact Or.inl rfl
    | complete _ _ _ _ => exact Or.inl rfl

/-- No iteration unpolls the source. -/
theorem polled_mono (r : Rechunk) : r.state.polled ≤ r.step.state.polled := by
  rcases step_polled r with heq | ⟨_, hsucc⟩
  · exact heq.ge
  · rw [hsucc]
    exact Nat.le_succ _

/-- No iteration takes a request back. -/
theorem emitted_mono (r : Rechunk) : r.emitted.length ≤ r.step.emitted.length := by
  cases hrun : r.ended with
  | true =>
    rw [step_ended hrun]
  | false =>
    rw [step_eq hrun]
    cases rechunkIteration r.state with
    | «continue» s => exact Nat.le_refl _
    | yield request s =>
      rw [List.length_append]
      exact Nat.le_add_right _ _
    | finish s => exact Nat.le_refl _

/-- An iteration that finds room to drain into ends the stream, emits, polls, or leaves fewer bytes pending. -/
theorem step_progress (h : r.Bounded source sizeBytes) (hrun : r.ended = false)
    (hroom : r.state.Waits → r.state.hasPending = true → r.state.buffer.length < defaultChunkSize) :
    r.step.ended = true ∨ r.emitted.length < r.step.emitted.length ∨ r.state.polled < r.step.state.polled ∨
      r.step.state.pendingLeft < r.state.pendingLeft := by
  have hbranch := branch hrun
  have hpolled := step_polled r
  generalize r.step = r' at hbranch hpolled ⊢
  have hpolls : r'.state.polled ≠ r.state.polled → r.state.polled < r'.state.polled := by
    intro hne
    have := (hpolled.resolve_left hne).2
    omega
  cases hbranch with
  | overshoot _ => exact Or.inl rfl
  | short _ _ _ _ => exact Or.inl rfl
  | complete _ _ _ _ => exact Or.inl rfl
  | full _ _ _ => exact Or.inr (Or.inl (by simp))
  | flush _ _ => exact Or.inr (Or.inl (by simp [Rechunk.emitBuffer]))
  | drain hwaits hpend =>
    obtain ⟨b, p, o, he, _, _, _, hleft⟩ := drainPending_frame r.state h.buffer_le h.offset_le
    have hspace := hroom hwaits hpend
    have hlt : r.state.pendingOffset < r.state.pending.length := by simpa [RechunkState.hasPending] using hpend
    refine Or.inr (Or.inr (Or.inr ?_))
    rw [he]
    unfold RechunkState.pendingLeft
    simp only
    omega
  | pollOk _ _ _ => exact Or.inr (Or.inr (Or.inl (hpolls (by simp only [ingest_polled, RechunkState.advance]; omega))))
  | pollForgiven _ _ _ _ => exact Or.inr (Or.inr (Or.inl (Nat.lt_succ_self _)))
  | pollFailed _ _ _ _ => exact Or.inl rfl
  | pollEnd _ _ => exact Or.inr (Or.inr (Or.inl (Nat.lt_succ_self _)))

/-! ## No panic -/

theorem slice_ok {ε : Type} {bytes : List UInt8} {start stop : Nat} (h : start ≤ stop ∧ stop ≤ bytes.length) :
    (Checked.slice bytes start stop : Checked ε (List UInt8)) = .ok ((bytes.take stop).drop start) := if_pos h

theorem subUsize_ok {ε : Type} {a b : Nat} (h : b ≤ a) : (Checked.subUsize a b : Checked ε Nat) = .ok (a - b) := if_pos h

/-- `ingest` subtracts and slices in range. -/
theorem ingestChecked_eq (s : RechunkState) (piece : List UInt8) (hbuf : s.buffer.length ≤ defaultChunkSize) :
    s.ingestChecked piece = .ok (s.ingest piece) := by
  unfold RechunkState.ingestChecked RechunkState.ingest
  rw [subUsize_ok hbuf]
  simp only [bind, Checked.bind]
  split
  · rfl
  · rename_i hlong
    rw [slice_ok ⟨Nat.zero_le _, by omega⟩]
    rfl

/-- So does `drain_pending`. -/
theorem drainPendingChecked_eq (s : RechunkState) (hbuf : s.buffer.length ≤ defaultChunkSize)
    (hoff : s.pendingOffset ≤ s.pending.length) : s.drainPendingChecked = .ok s.drainPending := by
  unfold RechunkState.drainPendingChecked RechunkState.drainPending
  split
  · rfl
  · rw [subUsize_ok hbuf, subUsize_ok hoff]
    simp only [bind, Checked.bind]
    rw [slice_ok ⟨Nat.le_add_right _ _, by omega⟩]
    rfl

/-- An iteration within the bounds does not panic. -/
theorem iterationChecked_eq (h : r.Bounded source sizeBytes) :
    rechunkIterationChecked r.state = .ok (rechunkIteration r.state) := by
  unfold rechunkIterationChecked rechunkIteration
  split
  · rfl
  split
  · rename_i hfull
    rw [slice_ok ⟨Nat.zero_le _, hfull.1⟩]
    rfl
  split
  · rw [drainPendingChecked_eq r.state h.buffer_le h.offset_le]
    rfl
  split
  · unfold RechunkState.pollSourceChecked
    split
    · rename_i piece hsrc
      rw [pollSource_ok hsrc]
      simp only
      rw [ingestChecked_eq]
      · rfl
      · exact h.buffer_le
    · rfl
  split
  · rfl
  split <;> rfl

/-! ## Whole runs -/

/-- Every run keeps the bounds. -/
theorem bounded_run (h : r.Bounded source sizeBytes) (n : Nat) : (r.run n).Bounded source sizeBytes :=
  Function.Iterate.rec (fun r : Rechunk => r.Bounded source sizeBytes) h (fun _ hr => bounded_step hr) n

end RechunkAux

end RociaSdk

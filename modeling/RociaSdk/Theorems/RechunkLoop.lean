import RociaSdk.Lemmas.RechunkWrap
import RociaSdk.Lib.Progress

/-!
# The rechunking loop never spins

At every iteration the bytes emitted, buffered and pending are the bytes pulled, at most one chunk and one source item are held,
nothing panics, and the loop makes progress. All of it holds exactly when no item takes the byte count past `u64::MAX`: past
it, a full chunk that completes the file can be held back with a tail pending, and the loop goes round without end.
-/

namespace RociaSdk

open RechunkAux SourceAux

/-- What holds at an iteration of the loop. -/
structure Rechunk.LoopInvariant (source : Source) (r : Rechunk) : Prop where
  buffer_le : r.state.buffer.length ≤ defaultChunkSize
  offset_le : r.state.pendingOffset ≤ r.state.pending.length
  /-- The source is polled only when nothing is pending. -/
  polls : r.step.state.polled ≠ r.state.polled → r.state.hasPending = false
  /-- `total_written` is the sum of the chunk lengths emitted. -/
  written : r.state.totalWritten.toNat = ((chunksIn r.emitted).map List.length).sum
  /-- No byte pulled is lost, repeated or out of place. -/
  bytes_eq : (chunksIn r.emitted).flatten ++ (r.state.buffer ++ r.state.pending.drop r.state.pendingOffset) =
    source.bytes r.state.polled
  /-- Besides the buffer, no more than the item pulled last is held. -/
  memory : r.state.pending = [] ∨
    ∃ i piece, r.state.polled = i + 1 ∧ source i = some (.ok piece) ∧ r.state.pending = piece.data
  /-- No subtraction underflows and no slice is out of range. -/
  checked : rechunkIterationChecked r.state = .ok (rechunkIteration r.state)
  /-- `drain_pending` is not reached with a full buffer. -/
  drains : r.ended = false → r.state.Waits → r.state.hasPending = true → r.state.buffer.length < defaultChunkSize
  /-- An iteration that neither ends the stream, emits nor polls leaves fewer bytes pending. -/
  progress : r.ended = false → r.step.ended = true ∨ r.emitted.length < r.step.emitted.length ∨
    r.state.polled < r.step.state.polled ∨ r.step.state.pendingLeft < r.state.pendingLeft

/-- After every iteration the stream comes to its end, emits a request or polls the source once more. -/
def Rechunk.NeverSpins (stream : Rechunk) : Prop :=
  ∀ n, ∃ m, n < m ∧ ((stream.run m).ended = true ∨ (stream.run n).emitted.length < (stream.run m).emitted.length ∨
    (stream.run n).state.polled < (stream.run m).state.polled)

namespace LoopAux

variable {source : Source} {sizeBytes : UInt64} {m : UploadMetadata} {r : Rechunk}

/-- The requests emitted and the polls made. -/
def events (r : Rechunk) : Nat := r.emitted.length + r.state.polled

theorem events_mono (r : Rechunk) : events r ≤ events r.step := Nat.add_le_add (emitted_mono r) (polled_mono r)

theorem sum_chunks (requests : List UploadRequest) :
    ((chunksIn requests).map List.length).sum = (bytesIn requests).length := List.length_flatten.symm

/-- A live stream whose byte count does not wrap keeps the loop's invariant. -/
theorem loopInvariant_of_live (h : r.Live source sizeBytes m) (hbounded : r.Bounded source sizeBytes)
    (hw : source.NoWrap sizeBytes) : r.LoopInvariant source := by
  have hdrains : r.ended = false → r.state.Waits → r.state.hasPending = true → r.state.buffer.length < defaultChunkSize :=
    fun hrun => buffer_lt_of_drains h.inv (h.stage.fits_u64 hw hrun)
  refine ⟨hbounded.buffer_le, hbounded.offset_le, ?_, ?_, hbounded.bytes_eq, ?_, iterationChecked_eq hbounded, hdrains, ?_⟩
  · intro hne
    exact ((step_polled r).resolve_left hne).1.pending
  · rw [sum_chunks]
    exact h.inv.written
  · exact hbounded.tail.imp id And.right
  · intro hrun
    exact step_progress hbounded hrun (hdrains hrun)

/-- Where every iteration makes progress the loop never spins. -/
theorem neverSpins_of_progress (hall : ∀ n, (r.run n).LoopInvariant source) : r.NeverSpins := by
  intro n
  have hshift : ∀ i, Rechunk.step^[i] (r.run n) = r.run (n + i) := by
    intro i
    rw [Nat.add_comm]
    exact (Function.iterate_add_apply Rechunk.step i n r).symm
  have hstep : ∀ s, (∃ i, s = r.run i) →
      s.step.ended = true ∨ events s < events s.step ∨ s.step.state.pendingLeft < s.state.pendingLeft := by
    rintro _ ⟨i, rfl⟩
    cases hend : (r.run i).ended with
    | true =>
      rw [step_ended hend]
      exact Or.inl hend
    | false =>
      have hemitted := emitted_mono (r.run i)
      have hpolled := polled_mono (r.run i)
      unfold events
      rcases (hall i).progress hend with hdone | hemits | hpolls | hdrains
      · exact Or.inl hdone
      · exact Or.inr (Or.inl (by omega))
      · exact Or.inr (Or.inl (by omega))
      · exact Or.inr (Or.inr hdrains)
  have hkeep : ∀ s, (∃ i, s = r.run i) → ∃ i, s.step = r.run i := by
    rintro _ ⟨i, rfl⟩
    exact ⟨i + 1, (run_succ r i).symm⟩
  obtain ⟨i, _, hnext⟩ := Progress.counts_within events (fun s => s.state.pendingLeft) (fun s => s.ended = true)
    (fun s => ∃ i, s = r.run i) hkeep (fun s _ => events_mono s) hstep ⟨n, rfl⟩
  rw [hshift] at hnext
  refine ⟨n + (i + 1), by omega, hnext.imp id ?_⟩
  unfold events
  omega

/-- Requests emitted and polls made are only added to. -/
theorem run_mono (r : Rechunk) {i j : Nat} (h : i ≤ j) :
    (r.run i).emitted.length ≤ (r.run j).emitted.length ∧ (r.run i).state.polled ≤ (r.run j).state.polled := by
  induction h with
  | refl => exact ⟨Nat.le_refl _, Nat.le_refl _⟩
  | @step j _ ih =>
    rw [Nat.succ_eq_add_one, run_succ]
    exact ⟨ih.1.trans (emitted_mono _), ih.2.trans (polled_mono _)⟩

/-- A stream that keeps counting and polls only so far spins. -/
theorem not_neverSpins_of_counting {k : Nat} (hbounded : r.Bounded source sizeBytes)
    (hall : ∀ n, (r.run n).state.polled ≤ k ∧ (r.run n).Counting source sizeBytes) : ¬r.NeverSpins := by
  intro hnever
  have hbound : ∀ n, events (r.run n) ≤ (source.bytes k).length + k := by
    intro n
    obtain ⟨hle, hcount⟩ := hall n
    have hstay := bounded_run hbounded n
    have hlen := congrArg List.length hstay.bytes_eq
    have hbytes := source.bytes_length_mono hle
    have hmany := Nat.le_mul_of_pos_right (r.run n).emitted.length defaultChunkSize_pos
    rw [List.length_append, hstay.chunks hcount.reading] at hlen
    unfold events
    omega
  refine Progress.not_counts_forever events _ hbound ?_
  intro n
  obtain ⟨m, hlt, hnext⟩ := hnever n
  obtain ⟨hemitted, hpolled⟩ := run_mono r hlt.le
  refine ⟨m, hlt, ?_⟩
  show events (r.run n) < events (r.run m)
  unfold events
  rcases hnext with hend | hemits | hpolls
  · rw [(hall m).2.running] at hend
    cases hend
  · omega
  · omega

/-- A stream that polls past a wrapping item has counted its bytes wrong: with an exact count there is no room for them. -/
theorem not_loopInvariant_of_polls {k : Nat} (hw : WrapsAt source sizeBytes k) (hbounded : r.Bounded source sizeBytes)
    (hpolled : r.state.polled = k + 1) (hpolls : r.state.Polls) : ¬r.LoopInvariant source := by
  intro hinv
  have hwritten := hinv.written
  have hlen := congrArg List.length hbounded.bytes_eq
  have hchunks := hbounded.chunks hpolls.reading
  have hbuffer := hbounded.buffer_le
  have hlt := r.state.totalWritten.toNat_lt
  have hwraps := hw.wraps
  have hC : defaultChunkSize = 2 ^ 20 := by decide
  rw [sum_chunks] at hwritten
  rw [hC] at hchunks hbuffer
  rw [List.length_append, unsent_of_not_pending _ hpolls.pending, hpolled] at hlen
  -- The whole chunk in the buffer is the last one below `2 ^ 64`, and it completes no file but an empty one.
  have hfull : r.state.buffer.length = defaultChunkSize := by
    rw [hC]
    omega
  have hcompletes : r.state.completesTheFile = true := by
    by_contra hnot
    exact hpolls.waits.holds ⟨hfull.ge, Or.inl (Bool.not_eq_true _ ▸ hnot)⟩
  have hzero : sizeBytes.toNat = 0 := by
    unfold RechunkState.completesTheFile at hcompletes
    rw [beq_iff_eq, hbounded.size_eq] at hcompletes
    have hsum : (UInt64.ofNat defaultChunkSize).toNat = defaultChunkSize := rfl
    rw [← hcompletes, UInt64.toNat_add, hsum, hwritten, hC]
    omega
  obtain ⟨piece, hp⟩ := hw.isOk
  have hpiece := piece.len_lt
  have hfits := hw.fits.le
  rw [Source.bytes_succ_ok hp, List.length_append] at hwraps
  omega

/-- The loop's properties do not all hold where the byte count wraps. -/
theorem not_all_of_wraps {k : Nat} (hw : WrapsAt source sizeBytes k) (hbounded : r.Bounded source sizeBytes)
    (hr : r.Counting source sizeBytes) (hpolled : r.state.polled = 0) :
    ¬((∀ n, (r.run n).LoopInvariant source) ∧ r.NeverSpins) := by
  rintro ⟨hall, hnever⟩
  refine not_neverSpins_of_counting hbounded (?_ : ∀ n, (r.run n).state.polled ≤ k + 1 ∧ _) hnever
  intro n
  rcases hw.run hbounded hr (by omega) n with hcount | ⟨_, j, hlast, _, hpolls⟩
  · exact hcount
  · exact absurd (hall j) (not_loopInvariant_of_polls hw (bounded_run hbounded j) hlast hpolls)

end LoopAux

open LoopAux

/-- For every declared size and every source: the invariant holds at every iteration and the loop never spins if and only if no
item takes the byte count past `u64::MAX`. -/
theorem rechunk_loop_invariant_iff (tenantId bucket fileId : String) (sizeBytes : UInt64) (contentType : String)
    (checksum : Digest) (requestId : String) (source : Source) :
    let stream := rechunkUploadRequests tenantId bucket fileId sizeBytes contentType checksum requestId source
    ((∀ n, (stream.run n).LoopInvariant source) ∧ stream.NeverSpins) ↔ source.NoWrap sizeBytes := by
  intro stream
  have hbounded : stream.Bounded source sizeBytes := bounded_init _ _ _ _ _ _ _ _
  constructor
  · intro hall
    by_contra hwrap
    obtain ⟨k, hk⟩ := exists_wrapsAt hwrap
    exact not_all_of_wraps hk hbounded (counting_init _ _ _ _ _ _ _ _) rfl hall
  · intro hw
    have hlive := Rechunk.live_init tenantId bucket fileId sizeBytes contentType checksum requestId source
    have hinv : ∀ n, (stream.run n).LoopInvariant source := fun n =>
      loopInvariant_of_live (hlive.run hw n) (bounded_run hbounded n) hw
    exact ⟨hinv, neverSpins_of_progress hinv⟩

namespace LoopAux

variable {source : Source} {sizeBytes : UInt64} {r : Rechunk}

/-- While the source may yield more, the chunk that completes the file has not been sent. -/
def ChunkHeld (sizeBytes : UInt64) (r : Rechunk) : Prop :=
  r.state.sourceExhausted = false → (bytesIn r.emitted).length + defaultChunkSize ≤ sizeBytes.toNat

/-- For a declared size of whole chunks every iteration holds the completing one back, whatever has been pulled. -/
theorem chunkHeld_step (hdvd : defaultChunkSize ∣ sizeBytes.toNat) (hbounded : r.Bounded source sizeBytes)
    (h : ChunkHeld sizeBytes r) : ChunkHeld sizeBytes r.step := by
  cases hrun : r.ended with
  | true =>
    rw [step_ended hrun]
    exact h
  | false =>
    have hbranch := branch hrun
    generalize r.step = r' at hbranch ⊢
    intro hread
    cases hbranch with
    | overshoot _ => exact h hread
    | drain _ _ =>
      obtain ⟨b, p, o, he, _⟩ := drainPending_frame r.state hbounded.buffer_le hbounded.offset_le
      rw [he] at hread
      exact h hread
    | pollOk _ hpolls _ => exact h hpolls.reading
    | pollForgiven _ _ _ _ => cases hread
    | pollFailed _ hpolls _ _ => exact h hpolls.reading
    | pollEnd _ _ => cases hread
    | flush hflushes _ => cases hread.symm.trans hflushes.exhausted
    | short _ _ _ _ => exact h hread
    | complete _ _ _ _ => exact h hread
    | full _ hfull hheld =>
      have hle := h hread
      have hchunks := hbounded.chunks hread
      have hne : (bytesIn r.emitted).length + defaultChunkSize ≠ sizeBytes.toNat := by
        intro heq
        have hcompletes : r.state.completesTheFile = true := by
          unfold RechunkState.completesTheFile
          rw [beq_iff_eq, hbounded.size_eq, hbounded.written, ← UInt64.ofNat_add, heq, UInt64.ofNat_toNat]
        rcases hheld with hnot | hex
        · rw [hcompletes] at hnot
          cases hnot
        · cases hread.symm.trans hex
      obtain ⟨whole, hwhole⟩ := hdvd
      rw [sendsFull_eq hbounded.buffer_le hfull, bytesIn_emitBuffer, List.length_append,
        Nat.le_antisymm hbounded.buffer_le hfull]
      rw [hchunks, hwhole, ← Nat.succ_mul, Nat.mul_comm defaultChunkSize] at hle hne ⊢
      have hlt : r.emitted.length + 1 < whole :=
        Nat.lt_of_le_of_ne (Nat.le_of_mul_le_mul_right hle defaultChunkSize_pos) fun heq => hne (by rw [← heq])
      rw [← Nat.succ_mul]
      exact Nat.mul_le_mul_right _ hlt

/-- For a declared size of whole chunks the loop spins once the byte count has wrapped: it cannot send the completing chunk
while it reads, and has no room for what comes after it. -/
theorem spins_of_wraps {k : Nat} (hw : WrapsAt source sizeBytes k) (hdvd : defaultChunkSize ∣ sizeBytes.toNat)
    (hpos : 0 < sizeBytes.toNat) (hbounded : r.Bounded source sizeBytes) (hr : r.Counting source sizeBytes)
    (hpolled : r.state.polled = 0) : ¬r.NeverSpins := by
  have hstart : ChunkHeld sizeBytes r := by
    intro _
    have hlen := congrArg List.length hbounded.bytes_eq
    have hone := Nat.le_of_dvd hpos hdvd
    rw [hpolled, Source.bytes, List.length_append, List.length_nil] at hlen
    omega
  have hheld : ∀ n, ChunkHeld sizeBytes (r.run n) := by
    intro n
    induction n with
    | zero => exact hstart
    | succ n ih =>
      rw [run_succ]
      exact chunkHeld_step hdvd (bounded_run hbounded n) ih
  refine not_neverSpins_of_counting hbounded (?_ : ∀ n, (r.run n).state.polled ≤ k + 1 ∧ _)
  intro n
  rcases hw.run hbounded hr (by omega) n with hcount | ⟨_, j, hlast, hcount, hpolls⟩
  · exact hcount
  · have hstay := bounded_run hbounded j
    have hlen := congrArg List.length hstay.bytes_eq
    have hle := hheld j hcount.reading
    have hbuffer := hstay.buffer_le
    have hwraps := hw.wraps
    have hsize := sizeBytes.toNat_lt
    rw [List.length_append, unsent_of_not_pending _ hpolls.pending, hlast] at hlen
    omega

end LoopAux

/-- `2 ^ 44` pieces of one mebibyte for a declared size of one piece less: the last one wraps the byte count to zero, the chunk
that completes the file waits for the source, and the last piece waits for room. -/
theorem rechunk_loop_spins :
    ¬(rechunkUploadRequests "t" "b" "f" (UInt64.ofNat (2 ^ 64 - 2 ^ 20)) "text/plain" (Vector.replicate 32 0) "r"
      (Source.ofList (List.replicate (2 ^ 44 - 1 + 1) (.ok zeroMebibyte)))).NeverSpins := by
  have hlen : zeroMebibyte.data.length = 2 ^ 20 := List.length_replicate
  have hsum : (2 ^ 44 - 1 + 1) * zeroMebibyte.data.length = 2 ^ 64 := by
    rw [hlen]
    decide
  have hwraps := replicate_wraps (2 ^ 44 - 1) zeroMebibyte hsum (UInt64.ofNat (2 ^ 64 - 2 ^ 20)) (by rw [hlen]; decide)
  exact spins_of_wraps hwraps (by decide) (by decide) (bounded_init _ _ _ _ _ _ _ _) (counting_init _ _ _ _ _ _ _ _) rfl

end RociaSdk

import RociaSdk.Lemmas.RechunkLoop
import RociaSdk.Lemmas.SourceAux

/-!
# A byte count that wraps

When the item that first exceeds the declared size also takes the byte count past `u64::MAX`, the wrapped count is below the
declared size again: the overshoot check passes and the loop goes on to pull the next item.
-/

namespace RociaSdk

open RechunkAux SourceAux

/-- The count the loop compares with the declared size. -/
def RechunkState.total (s : RechunkState) : UInt64 := s.totalWritten + s.unsentLen

/-- A running stream that is still reading and whose count is that of the bytes pulled, modulo `2 ^ 64`. -/
structure Rechunk.Counting (source : Source) (sizeBytes : UInt64) (r : Rechunk) : Prop where
  running : r.ended = false
  reading : r.state.sourceExhausted = false
  source_eq : r.state.source = source
  size_eq : r.state.sizeBytes = sizeBytes
  buffer_le : r.state.buffer.length ≤ defaultChunkSize
  offset_le : r.state.pendingOffset ≤ r.state.pending.length
  total_eq : r.state.total = UInt64.ofNat (source.bytes r.state.polled).length

namespace RechunkAux

variable {source : Source} {sizeBytes : UInt64} {r : Rechunk}

theorem total_eq_unsent (s : RechunkState) : s.total = s.totalWritten + UInt64.ofNat s.unsent.length := by
  unfold RechunkState.total
  unfold RechunkState.unsentLen
  rw [unsent_length]

/-- A stream that runs and reads within its bounds is counting. -/
theorem counting_of_bounded (h : r.Bounded source sizeBytes) (hrun : r.ended = false)
    (hread : r.state.sourceExhausted = false) : r.Counting source sizeBytes := by
  refine ⟨hrun, hread, h.source_eq, h.size_eq, h.buffer_le, h.offset_le, ?_⟩
  rw [total_eq_unsent, h.written, ← UInt64.ofNat_add, ← List.length_append, h.bytes_eq]

/-- While the count is within the declared size, an iteration goes on counting the same bytes or polls the source once;
a poll that yields a piece goes on counting. -/
theorem counting_step (hbounded : r.Bounded source sizeBytes) (h : r.Counting source sizeBytes)
    (hle : UInt64.ofNat (source.bytes r.state.polled).length ≤ sizeBytes) :
    (r.step.state.polled = r.state.polled ∧ r.step.Counting source sizeBytes) ∨
      (r.state.Polls ∧ r.step.state.polled = r.state.polled + 1 ∧
        ∀ piece, source r.state.polled = some (.ok piece) → r.step.Counting source sizeBytes) := by
  have hsource : r.state.source r.state.polled = source r.state.polled := by rw [h.source_eq]
  have hfits : ¬r.state.Overshoots := by
    unfold RechunkState.Overshoots
    rw [← RechunkState.total, h.total_eq, h.size_eq]
    exact UInt64.not_lt.2 hle
  have hnext := bounded_step hbounded
  have hbranch := branch h.running
  generalize r.step = r' at hbranch hnext ⊢
  have hreading : ¬r.state.Flushes := by
    intro hflushes
    have hread := h.reading
    rw [hflushes.exhausted] at hread
    cases hread
  cases hbranch with
  | overshoot hover => exact absurd hover hfits
  | full _ _ _ => exact Or.inl ⟨rfl, counting_of_bounded hnext h.running h.reading⟩
  | drain _ _ =>
    obtain ⟨b, p, o, he, _⟩ := drainPending_frame r.state h.buffer_le h.offset_le
    rw [he] at hnext ⊢
    exact Or.inl ⟨rfl, counting_of_bounded hnext h.running h.reading⟩
  | pollOk piece hpolls _ =>
    obtain ⟨b, p, o, he, _⟩ := ingest_frame r.state.advance piece.data h.buffer_le h.offset_le hpolls.pending
    rw [he] at hnext ⊢
    exact Or.inr ⟨hpolls, rfl, fun _ _ => counting_of_bounded hnext h.running h.reading⟩
  | pollForgiven _ hpolls hsrc _ => exact Or.inr ⟨hpolls, rfl, fun piece hp => by cases hsrc.symm.trans (hsource.trans hp)⟩
  | pollFailed _ hpolls hsrc _ => exact Or.inr ⟨hpolls, rfl, fun piece hp => by cases hsrc.symm.trans (hsource.trans hp)⟩
  | pollEnd hpolls hsrc => exact Or.inr ⟨hpolls, rfl, fun piece hp => by cases hsrc.symm.trans (hsource.trans hp)⟩
  | flush hflushes _ => exact absurd hflushes hreading
  | short hflushes _ _ _ => exact absurd hflushes hreading
  | complete hflushes _ _ _ => exact absurd hflushes hreading

/-- Item `k` exceeds the declared size by so much that the byte count wraps. -/
structure WrapsAt (source : Source) (sizeBytes : UInt64) (k : Nat) : Prop where
  fits : source.FitsTo sizeBytes k
  isOk : ∃ piece, source k = some (.ok piece)
  wraps : 2 ^ 64 ≤ (source.bytes (k + 1)).length

/-- As long as the polls up to a wrapping item are what was pulled, the wrapped count is within the declared size. -/
theorem WrapsAt.count_le {k n : Nat} (h : WrapsAt source sizeBytes k) (hn : n ≤ k + 1) :
    UInt64.ofNat (source.bytes n).length ≤ sizeBytes := by
  have hsize := sizeBytes.toNat_lt
  rw [UInt64.le_iff_toNat_le, UInt64.toNat_ofNat']
  rcases Nat.lt_or_eq_of_le hn with hlt | heq
  · have hle := (source.bytes_length_mono (Nat.le_of_lt_succ hlt)).trans h.fits.le
    rw [Nat.mod_eq_of_lt (by omega)]
    exact hle
  · obtain ⟨piece, hp⟩ := h.isOk
    have hwraps := h.wraps
    have hle := h.fits.le
    have hpiece := piece.len_lt
    rw [heq]
    rw [Source.bytes_succ_ok hp, List.length_append] at hwraps ⊢
    rw [Nat.mod_eq_sub_mod hwraps, Nat.mod_eq_of_lt (by omega)]
    omega

/-- A run over a wrapping item is still counting, or has polled past it with nothing pending. -/
theorem WrapsAt.run {k : Nat} (h : WrapsAt source sizeBytes k) (hbounded : r.Bounded source sizeBytes)
    (hr : r.Counting source sizeBytes) (hpolled : r.state.polled ≤ k + 1) (n : Nat) :
    ((r.run n).state.polled ≤ k + 1 ∧ (r.run n).Counting source sizeBytes) ∨
      (k + 2 ≤ (r.run n).state.polled ∧
        ∃ j, (r.run j).state.polled = k + 1 ∧ (r.run j).Counting source sizeBytes ∧ (r.run j).state.Polls) := by
  induction n with
  | zero => exact Or.inl ⟨hpolled, hr⟩
  | succ n ih =>
    have hstay := bounded_run hbounded n
    rw [run_succ]
    rcases ih with ⟨hle, hcount⟩ | ⟨hpast, hpoll⟩
    swap
    · exact Or.inr ⟨hpast.trans (polled_mono _), hpoll⟩
    rcases counting_step hstay hcount (h.count_le hle) with ⟨heq, hstep⟩ | ⟨hpolls, hnext, hstep⟩
    · exact Or.inl ⟨heq ▸ hle, hstep⟩
    rcases Nat.lt_or_eq_of_le hle with hlt | heq
    · refine Or.inl ⟨by omega, ?_⟩
      have hok : ∃ piece, source (r.run n).state.polled = some (.ok piece) := by
        rcases Nat.lt_or_eq_of_le (Nat.le_of_lt_succ hlt) with hlt | heq
        · exact (h.fits _ hlt).1
        · rw [heq]
          exact h.isOk
      obtain ⟨piece, hp⟩ := hok
      exact hstep piece hp
    · exact Or.inr ⟨by omega, n, heq, hcount, hpolls⟩

/-- A stream before its first poll is counting. -/
theorem counting_init (tenantId bucket fileId : String) (sizeBytes : UInt64) (contentType : String) (checksum : Digest)
    (requestId : String) (source : Source) :
    (rechunkUploadRequests tenantId bucket fileId sizeBytes contentType checksum requestId source).Counting source
      sizeBytes :=
  ⟨rfl, rfl, rfl, rfl, Nat.zero_le _, Nat.le_refl _, rfl⟩

/-- A byte count that can wrap does so at some item. -/
theorem exists_wrapsAt (h : ¬source.NoWrap sizeBytes) : ∃ k, WrapsAt source sizeBytes k := by
  simp only [Source.NoWrap, not_forall, Nat.not_lt] at h
  obtain ⟨k, piece, hfits, hsrc, hwraps⟩ := h
  exact ⟨k, hfits, ⟨piece, hsrc⟩, hwraps⟩

/-- Pieces of one length that add up to `2 ^ 64`, the last of which exceeds the declared size. -/
theorem replicate_wraps (n : Nat) (piece : Bytes) (hsum : (n + 1) * piece.data.length = 2 ^ 64) (sizeBytes : UInt64)
    (hfits : n * piece.data.length ≤ sizeBytes.toNat) :
    WrapsAt (Source.ofList (List.replicate (n + 1) (.ok piece))) sizeBytes n := by
  have hpoll : ∀ i < n + 1, Source.ofList (List.replicate (n + 1) (.ok piece)) i = some (.ok piece) := by
    intro i hi
    unfold Source.ofList
    rw [List.getElem?_replicate, if_pos hi]
  have hlen : ∀ i ≤ n + 1,
      ((Source.ofList (List.replicate (n + 1) (.ok piece))).bytes i).length = i * piece.data.length := by
    intro i hi
    rw [ofList_bytes, List.take_replicate, Nat.min_eq_left hi, List.flatMap_replicate, List.length_flatten]
    simp [itemBytes]
  refine ⟨fun i hi => ⟨⟨piece, hpoll i (by omega)⟩, ?_⟩, ⟨piece, hpoll n (Nat.lt_succ_self n)⟩, ?_⟩
  · rw [hlen (i + 1) (by omega)]
    exact (Nat.mul_le_mul_right _ hi).trans hfits
  · rw [hlen (n + 1) (Nat.le_refl _), hsum]

end RechunkAux

/-- One mebibyte of zeros. -/
def zeroMebibyte : Bytes := ⟨List.replicate defaultChunkSize 0, by rw [List.length_replicate]; decide⟩

end RociaSdk

import Mathlib.Data.Prod.Lex
import RociaSdk.Lemmas.RechunkAux

/-!
# Runs of the rechunked stream

`Rechunk.Stage` says where a run stands: still reading, ended by an overshoot, by a failed source or short of the declared
size, flushing what is left after the source is done, or complete. `Live.run` carries the invariant and the stage through
every iteration of a source whose deciding item does not wrap the byte count (`Source.NoWrap`), and `Live.ends` shows that the
loop does end when the source does.
-/

namespace RociaSdk

/-- The first `n` polls yield items, and each leaves the bytes delivered within the declared size. -/
def Source.FitsTo (source : Source) (sizeBytes : UInt64) (n : Nat) : Prop :=
  ∀ i < n, (∃ piece, source i = some (.ok piece)) ∧ (source.bytes (i + 1)).length ≤ sizeBytes.toNat

/-- No item wraps the byte count: up to and including the first item that takes the total past the declared size, the bytes
delivered fit a `u64`. -/
def Source.NoWrap (source : Source) (sizeBytes : UInt64) : Prop :=
  ∀ k piece, source.FitsTo sizeBytes k → source k = some (.ok piece) → (source.bytes (k + 1)).length < 2 ^ 64

/-- Poll `k` is the last one and everything declared has been read: the source ended there, or failed with every declared
byte in hand. -/
def Source.DoneAt (source : Source) (sizeBytes : UInt64) (k : Nat) : Prop :=
  source k = none ∨
    (∃ e, source k = some (.error e)) ∧ (source.bytes k).length = sizeBytes.toNat ∧ 0 < sizeBytes.toNat

/-- What has been sent is not an upload the server would take for whole: no request at all, or too few bytes. -/
def Rechunk.Held (sizeBytes : UInt64) (r : Rechunk) : Prop :=
  r.emitted = [] ∨ (bytesIn r.emitted).length < sizeBytes.toNat

/-- Where a run of the stream stands. -/
inductive Rechunk.Stage (source : Source) (sizeBytes : UInt64) (r : Rechunk) : Prop where
  | reading (hrun : r.ended = false) (hex : r.state.sourceExhausted = false) (hslot : r.state.errorSlot = none)
      (hok : ∀ i < r.state.polled, ∃ piece, source i = some (.ok piece))
      (hfits : ∀ i, i + 1 < r.state.polled → (source.bytes (i + 1)).length ≤ sizeBytes.toNat)
      (hheld : r.Held sizeBytes)
  | overshot (k : Nat) (piece : Bytes) (hend : r.ended = true) (hpolled : r.state.polled = k + 1)
      (hfits : source.FitsTo sizeBytes k) (hsrc : source k = some (.ok piece))
      (hover : sizeBytes.toNat < (source.bytes (k + 1)).length) (hheld : r.Held sizeBytes)
      (hslot : r.state.errorSlot = some (.validation (overshootMessage sizeBytes)))
  | failed (k : Nat) (error : IoError) (hend : r.ended = true) (hpolled : r.state.polled = k + 1)
      (hfits : source.FitsTo sizeBytes k) (hsrc : source k = some (.error error))
      (hne : (source.bytes k).length = sizeBytes.toNat → sizeBytes.toNat = 0) (hheld : r.Held sizeBytes)
      (hslot : r.state.errorSlot = some (.io "the upload chunk stream" error))
  | flushing (k : Nat) (hrun : r.ended = false) (hpolled : r.state.polled = k + 1)
      (hex : r.state.sourceExhausted = true) (hfits : source.FitsTo sizeBytes k) (hdone : source.DoneAt sizeBytes k)
      (hslot : r.state.errorSlot = none)
  | short (k : Nat) (hend : r.ended = true) (hpolled : r.state.polled = k + 1) (hfits : source.FitsTo sizeBytes k)
      (hsrc : source k = none) (hlt : (source.bytes k).length < sizeBytes.toNat)
      (hslot : r.state.errorSlot =
        some (.validation (shortfallMessage (UInt64.ofNat (source.bytes k).length) sizeBytes)))
  | complete (k : Nat) (hend : r.ended = true) (hpolled : r.state.polled = k + 1) (hfits : source.FitsTo sizeBytes k)
      (hdone : source.DoneAt sizeBytes k) (heq : (source.bytes k).length = sizeBytes.toNat)
      (hnone : r.state.unsent = []) (hsome : r.emitted ≠ []) (hslot : r.state.errorSlot = none)

/-- The invariant and the stage of a run. -/
structure Rechunk.Live (source : Source) (sizeBytes : UInt64) (m : UploadMetadata) (r : Rechunk) : Prop where
  inv : r.Inv source sizeBytes m
  stage : r.Stage source sizeBytes

open RechunkAux

section

variable {source : Source} {sizeBytes : UInt64} {m : UploadMetadata} {r : Rechunk}

theorem Source.FitsTo.le {n : Nat} (h : source.FitsTo sizeBytes n) : (source.bytes n).length ≤ sizeBytes.toNat := by
  cases n with
  | zero => exact Nat.zero_le _
  | succ n => exact (h n (Nat.lt_succ_self n)).2

/-- The last poll adds no bytes once the source is done. -/
theorem Source.DoneAt.bytes_succ {k : Nat} (h : source.DoneAt sizeBytes k) : source.bytes (k + 1) = source.bytes k := by
  rcases h with h | ⟨⟨e, h⟩, _⟩
  · exact Source.bytes_succ_none h
  · exact Source.bytes_succ_error h

theorem Source.DoneAt.not_ok {k : Nat} (h : source.DoneAt sizeBytes k) (piece : Bytes) : source k ≠ some (.ok piece) := by
  rcases h with h | ⟨⟨e, h⟩, _⟩ <;> simp [h]

/-- The first poll that yields no byte piece is reached by at most one run of pieces. -/
theorem Source.eq_of_first_not_ok {j k : Nat} (hj : ∀ i < j, ∃ piece, source i = some (.ok piece))
    (hjnot : ∀ piece, source j ≠ some (.ok piece)) (hk : ∀ i < k, ∃ piece, source i = some (.ok piece))
    (hknot : ∀ piece, source k ≠ some (.ok piece)) : j = k := by
  rcases Nat.lt_trichotomy j k with hlt | heq | hlt
  · obtain ⟨piece, hp⟩ := hk j hlt
    exact absurd hp (hjnot piece)
  · exact heq
  · obtain ⟨piece, hp⟩ := hj k hlt
    exact absurd hp (hknot piece)

/-- The items before the last poll of a reading run fit. -/
theorem Source.fitsTo_of_reading {n k : Nat} (hok : ∀ i < n, ∃ piece, source i = some (.ok piece))
    (hfits : ∀ i, i + 1 < n → (source.bytes (i + 1)).length ≤ sizeBytes.toNat) (hk : k < n) :
    source.FitsTo sizeBytes k :=
  fun i hi => ⟨hok i (by omega), hfits i (by omega)⟩

/-- Once the bytes pulled are within the declared size, every item of a reading run fits. -/
theorem Source.fitsTo_of_reading_le {n : Nat} (hok : ∀ i < n, ∃ piece, source i = some (.ok piece))
    (hfits : ∀ i, i + 1 < n → (source.bytes (i + 1)).length ≤ sizeBytes.toNat)
    (hle : (source.bytes n).length ≤ sizeBytes.toNat) : source.FitsTo sizeBytes n := by
  intro i hi
  refine ⟨hok i hi, ?_⟩
  by_cases hlast : i + 1 < n
  · exact hfits i hlast
  · have hin : i + 1 = n := by omega
    rw [hin]
    exact hle

/-- The bytes pulled by a running stream fit a `u64`. -/
theorem Rechunk.Stage.fits_u64 (h : r.Stage source sizeBytes) (hw : source.NoWrap sizeBytes) (hrun : r.ended = false) :
    (source.bytes r.state.polled).length < 2 ^ 64 := by
  have hsize := sizeBytes.toNat_lt
  cases h with
  | reading _ _ _ hok hfits _ =>
    cases hp : r.state.polled with
    | zero => simp [Source.bytes]
    | succ k =>
      rw [hp] at hok hfits
      obtain ⟨piece, hsrc⟩ := hok k (Nat.lt_succ_self k)
      exact hw k piece (Source.fitsTo_of_reading hok hfits (Nat.lt_succ_self k)) hsrc
  | flushing k _ hpolled _ hfits hdone _ =>
    rw [hpolled, hdone.bytes_succ]
    have := hfits.le
    omega
  | overshot _ _ hend => rw [hrun] at hend; cases hend
  | failed _ _ hend => rw [hrun] at hend; cases hend
  | short _ hend => rw [hrun] at hend; cases hend
  | complete _ hend => rw [hrun] at hend; cases hend

/-- A step that leaves polls, source and slot as they are stays in the stage of a running stream. -/
theorem Rechunk.Stage.of_same {r' : Rechunk} (h : r.Stage source sizeBytes) (hrun : r.ended = false)
    (hrun' : r'.ended = false) (hpolled : r'.state.polled = r.state.polled)
    (hex : r'.state.sourceExhausted = r.state.sourceExhausted) (hslot : r'.state.errorSlot = r.state.errorSlot)
    (hheld : r.state.sourceExhausted = false → r.Held sizeBytes → r'.Held sizeBytes) : r'.Stage source sizeBytes := by
  cases h with
  | reading _ hx hs hok hfits hh =>
    exact .reading hrun' (hex.trans hx) (hslot.trans hs) (hpolled ▸ hok) (hpolled ▸ hfits) (hheld hx hh)
  | flushing k _ hp hx hfits hdone hs =>
    exact .flushing k hrun' (hpolled.trans hp) (hex.trans hx) hfits hdone (hslot.trans hs)
  | overshot _ _ hend => rw [hrun] at hend; cases hend
  | failed _ _ hend => rw [hrun] at hend; cases hend
  | short _ hend => rw [hrun] at hend; cases hend
  | complete _ hend => rw [hrun] at hend; cases hend

/-- A running stream that has not exhausted its source is reading. -/
theorem Rechunk.Stage.reading_of (h : r.Stage source sizeBytes) (hrun : r.ended = false)
    (hex : r.state.sourceExhausted = false) :
    r.state.errorSlot = none ∧ (∀ i < r.state.polled, ∃ piece, source i = some (.ok piece)) ∧
      (∀ i, i + 1 < r.state.polled → (source.bytes (i + 1)).length ≤ sizeBytes.toNat) ∧ r.Held sizeBytes := by
  cases h with
  | reading _ _ hs hok hfits hheld => exact ⟨hs, hok, hfits, hheld⟩
  | flushing _ _ _ hx => rw [hex] at hx; cases hx
  | overshot _ _ hend => rw [hrun] at hend; cases hend
  | failed _ _ hend => rw [hrun] at hend; cases hend
  | short _ hend => rw [hrun] at hend; cases hend
  | complete _ hend => rw [hrun] at hend; cases hend

/-- A running stream that has exhausted its source is flushing. -/
theorem Rechunk.Stage.flushing_of (h : r.Stage source sizeBytes) (hrun : r.ended = false)
    (hex : r.state.sourceExhausted = true) :
    ∃ k, r.state.polled = k + 1 ∧ source.FitsTo sizeBytes k ∧ source.DoneAt sizeBytes k ∧ r.state.errorSlot = none := by
  cases h with
  | reading _ hx => rw [hex] at hx; cases hx
  | flushing k _ hp _ hfits hdone hs => exact ⟨k, hp, hfits, hdone, hs⟩
  | overshot _ _ hend => rw [hrun] at hend; cases hend
  | failed _ _ hend => rw [hrun] at hend; cases hend
  | short _ hend => rw [hrun] at hend; cases hend
  | complete _ hend => rw [hrun] at hend; cases hend

/-- Every iteration of a running stream leads to the next stage. -/
theorem Rechunk.Iteration.stage {r' : Rechunk} (hstep : r.Iteration source sizeBytes r') (h : r.Live source sizeBytes m)
    (hrun : r.ended = false) : r'.Stage source sizeBytes := by
  cases hstep with
  | overshoot hover =>
    cases hex : r.state.sourceExhausted with
    | true =>
      -- A source that is done has delivered no more than declared.
      obtain ⟨k, hp, hfits, hdone, _⟩ := h.stage.flushing_of hrun hex
      rw [hp, hdone.bytes_succ] at hover
      exact absurd hfits.le (Nat.not_le_of_lt hover)
    | false =>
      obtain ⟨_, hok, hfits, hheld⟩ := h.stage.reading_of hrun hex
      cases hp : r.state.polled with
      | zero => simp [hp, Source.bytes] at hover
      | succ k =>
        rw [hp] at hok hfits hover
        obtain ⟨piece, hsrc⟩ := hok k (Nat.lt_succ_self k)
        exact .overshot k piece rfl hp (Source.fitsTo_of_reading hok hfits (Nat.lt_succ_self k)) hsrc hover hheld rfl
  | full hle hfull hcompletes =>
    -- The hold-back: while the source may yield more, the chunk that goes out is not the completing one.
    refine h.stage.of_same hrun hrun rfl rfl rfl fun hex _ => Or.inr ?_
    have hne := hcompletes.resolve_right (by simp [hex])
    have hlen := length_eq h.inv
    rw [unsent_length] at hlen
    rw [bytesIn_emitBuffer, List.length_append]
    omega
  | flush _ _ hex' _ _ =>
    refine h.stage.of_same hrun hrun rfl rfl rfl ?_
    intro hex _
    rw [hex] at hex'
    cases hex'
  | drain _ _ _ =>
    obtain ⟨b, p, o, he, _⟩ := drainPending_frame r.state h.inv.buffer_le h.inv.offset_le
    rw [he]
    exact h.stage.of_same hrun hrun rfl rfl rfl fun _ hheld => hheld
  | pollOk piece hle hpend hex hsrc =>
    obtain ⟨hs, hok, hfits, hheld⟩ := h.stage.reading_of hrun hex
    obtain ⟨b, p, o, he, _⟩ := ingest_frame r.state.advance piece.data h.inv.buffer_le h.inv.offset_le hpend
    rw [he]
    refine .reading hrun hex hs (?_) (?_) hheld
    · intro i hi
      rcases Nat.lt_succ_iff_lt_or_eq.mp hi with hi | rfl
      · exact hok i hi
      · exact ⟨piece, hsrc⟩
    · intro i hi
      exact ((Source.fitsTo_of_reading_le hok hfits hle) i (Nat.lt_of_succ_lt_succ hi)).2
  | pollForgiven error heq hpos hpend hex hsrc =>
    obtain ⟨hs, hok, hfits, _⟩ := h.stage.reading_of hrun hex
    exact .flushing r.state.polled hrun rfl rfl (Source.fitsTo_of_reading_le hok hfits heq.le)
      (Or.inr ⟨⟨error, hsrc⟩, heq, hpos⟩) hs
  | pollFailed error hle hne hpend hex hsrc =>
    obtain ⟨hs, hok, hfits, hheld⟩ := h.stage.reading_of hrun hex
    exact .failed r.state.polled error rfl rfl (Source.fitsTo_of_reading_le hok hfits hle) hsrc hne hheld rfl
  | pollEnd hle hpend hex hsrc =>
    obtain ⟨hs, hok, hfits, _⟩ := h.stage.reading_of hrun hex
    exact .flushing r.state.polled hrun rfl rfl (Source.fitsTo_of_reading_le hok hfits hle) (Or.inl hsrc) hs
  | short hlt hex hnone hsome =>
    obtain ⟨k, hp, hfits, hdone, _⟩ := h.stage.flushing_of hrun hex
    rw [hp, hdone.bytes_succ] at hlt
    have hsrc : source k = none := by
      rcases hdone with hsrc | ⟨_, heq, _⟩
      · exact hsrc
      · omega
    have hwritten : r.state.totalWritten = UInt64.ofNat (source.bytes k).length := by
      have hbytes := h.inv.bytes_eq
      rw [hnone, List.append_nil, hp, hdone.bytes_succ] at hbytes
      rw [← UInt64.toNat_inj, h.inv.written, hbytes, UInt64.toNat_ofNat', Nat.mod_eq_of_lt]
      have := sizeBytes.toNat_lt
      omega
    refine .short k rfl hp hfits hsrc hlt ?_
    rw [← hwritten]
    rfl
  | complete heq hex hnone hsome =>
    obtain ⟨k, hp, hfits, hdone, hs⟩ := h.stage.flushing_of hrun hex
    rw [hp, hdone.bytes_succ] at heq
    exact .complete k rfl hp hfits hdone heq hnone hsome hs

/-- One iteration keeps the invariant and leads to the next stage. -/
theorem Rechunk.Live.step (h : r.Live source sizeBytes m) (hw : source.NoWrap sizeBytes) :
    r.step.Live source sizeBytes m := by
  cases hrun : r.ended with
  | true =>
    rw [step_ended hrun]
    exact h
  | false =>
    have hfit := h.stage.fits_u64 hw hrun
    have hstep := step_cases h.inv hfit hrun
    exact ⟨hstep.inv h.inv hfit, hstep.stage h hrun⟩

/-- Every run keeps the invariant and has a stage. -/
theorem Rechunk.Live.run (h : r.Live source sizeBytes m) (hw : source.NoWrap sizeBytes) (n : Nat) :
    (r.run n).Live source sizeBytes m :=
  Function.Iterate.rec (fun r : Rechunk => r.Live source sizeBytes m) h (fun _ hr => hr.step hw) n

/-! ## The loop ends -/

/-- What is left to do, for a source with no item at poll `K`: polls first, then bytes held, then bytes pending, then the
first request. -/
def Rechunk.left (K : Nat) (r : Rechunk) : ℕ ×ₗ ℕ ×ₗ ℕ ×ₗ ℕ :=
  toLex (K + 1 - r.state.polled, toLex (r.state.unsent.length, toLex
    (r.state.pending.length - r.state.pendingOffset, if r.emitted = [] then 1 else 0)))

/-- Every iteration of a running stream ends it or leaves less to do. -/
theorem Rechunk.Live.descends (h : r.Live source sizeBytes m) (hw : source.NoWrap sizeBytes) (hrun : r.ended = false)
    {K : Nat} (hK : ∀ piece, source K ≠ some (.ok piece)) : r.step.ended = true ∨ r.step.left K < r.left K := by
  have hpolled : r.state.sourceExhausted = false → r.state.polled ≤ K := by
    intro hex
    by_contra hlt
    obtain ⟨piece, hp⟩ := (h.stage.reading_of hrun hex).2.1 K (Nat.lt_of_not_le hlt)
    exact hK piece hp
  have hsent : r.emitBuffer.state.unsent.length + r.state.buffer.length = r.state.unsent.length := by
    rw [unsent_length, unsent_length]
    simp only [Rechunk.emitBuffer, RechunkState.sent, List.length_nil]
    omega
  have hstep := step_cases h.inv (h.stage.fits_u64 hw hrun) hrun
  generalize r.step = r' at hstep ⊢
  cases hstep with
  | overshoot _ => exact Or.inl rfl
  | pollFailed _ _ _ _ _ _ => exact Or.inl rfl
  | short _ _ _ _ => exact Or.inl rfl
  | complete _ _ _ _ => exact Or.inl rfl
  | full _ hfull _ =>
    have := defaultChunkSize_pos
    exact Or.inr (Prod.Lex.toLex_lt_toLex.2 (Or.inr ⟨rfl, Prod.Lex.toLex_lt_toLex.2 (Or.inl (by simp only; omega))⟩))
  | drain _ hpend hspace =>
    obtain ⟨b, p, o, he, _, _, hun, hleft⟩ := drainPending_frame r.state h.inv.buffer_le h.inv.offset_le
    have hlt : r.state.pendingOffset < r.state.pending.length := by simpa [RechunkState.hasPending] using hpend
    rw [he]
    refine Or.inr (Prod.Lex.toLex_lt_toLex.2 (Or.inr ⟨rfl, Prod.Lex.toLex_lt_toLex.2 (Or.inr ⟨?_, ?_⟩)⟩))
    · exact congrArg List.length hun
    · refine Prod.Lex.toLex_lt_toLex.2 (Or.inl ?_)
      simp only
      omega
  | pollOk piece _ hpend hex hsrc =>
    obtain ⟨b, p, o, he, _⟩ := ingest_frame r.state.advance piece.data h.inv.buffer_le h.inv.offset_le hpend
    rw [he]
    have := hpolled hex
    exact Or.inr (Prod.Lex.toLex_lt_toLex.2 (Or.inl (by simp only [RechunkState.advance]; omega)))
  | pollForgiven _ _ _ _ hex _ =>
    have := hpolled hex
    exact Or.inr (Prod.Lex.toLex_lt_toLex.2 (Or.inl (by simp only [RechunkState.advance]; omega)))
  | pollEnd _ _ hex _ =>
    have := hpolled hex
    exact Or.inr (Prod.Lex.toLex_lt_toLex.2 (Or.inl (by simp only [RechunkState.advance]; omega)))
  | flush _ _ _ _ hflush =>
    refine Or.inr (Prod.Lex.toLex_lt_toLex.2 (Or.inr ⟨rfl, Prod.Lex.toLex_lt_toLex.2 ?_⟩))
    by_cases hb : r.state.buffer = []
    · -- An empty file: the one empty request goes out, and nothing else changes.
      have he : r.emitted = [] := hflush.resolve_left (not_not.2 hb)
      rw [hb, List.length_nil, Nat.add_zero] at hsent
      exact Or.inr ⟨hsent, Prod.Lex.toLex_lt_toLex.2 (Or.inr ⟨rfl, by simp [Rechunk.emitBuffer, he]⟩)⟩
    · have := List.length_pos_iff.2 hb
      exact Or.inl (by simp only; omega)

/-- The loop ends, for a source with a poll that yields no byte piece. -/
theorem Rechunk.Live.ends (h : r.Live source sizeBytes m) (hw : source.NoWrap sizeBytes) {K : Nat}
    (hK : ∀ piece, source K ≠ some (.ok piece)) : ∃ n, (r.run n).ended = true := by
  induction hl : r.left K using WellFoundedLT.induction generalizing r with
  | ind left ih =>
    cases hrun : r.ended with
    | true => exact ⟨0, hrun⟩
    | false =>
      rcases h.descends hw hrun hK with hend | hlt
      · exact ⟨1, hend⟩
      · obtain ⟨n, hn⟩ := ih _ (hl ▸ hlt) (h.step hw) rfl
        exact ⟨n + 1, hn⟩

/-- A stream before its first poll is live. -/
theorem Rechunk.live_init (tenantId bucket fileId : String) (sizeBytes : UInt64) (contentType : String) (checksum : Digest)
    (requestId : String) (source : Source) :
    (rechunkUploadRequests tenantId bucket fileId sizeBytes contentType checksum requestId source).Live source sizeBytes
      { tenantId, bucket, fileId, contentType, checksum, requestId } :=
  ⟨inv_init _ _ _ _ _ _ _ _, .reading rfl rfl rfl (fun _ hi => absurd hi (Nat.not_lt_zero _))
    (fun _ hi => absurd hi (Nat.not_lt_zero _)) (Or.inl rfl)⟩

end

end RociaSdk

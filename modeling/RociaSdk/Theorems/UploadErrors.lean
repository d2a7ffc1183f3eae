import RociaSdk.Lemmas.RechunkWrap

/-!
# A source that does not deliver what was declared

When the pieces of a source do not add up to the declared size, the rechunked stream records one error, and nothing it has
sent by then, or ever sends, is a whole upload. This holds exactly when no item takes the byte count past `u64::MAX`: the
count is compared after an addition that wraps.
-/

namespace RociaSdk

open RechunkAux SourceAux

/-- How a stream fails for a source that delivers too many bytes, too few, or a failure. -/
structure FailsCleanly (items : List (Except IoError Bytes)) (sizeBytes : UInt64) (stream : Rechunk) : Prop where
  /-- Draining the stream comes to its end. -/
  ends : ∃ n, (stream.run n).ended = true
  /-- No error is recorded while the stream is running. -/
  quiet : ∀ n, (stream.run n).ended = false → (stream.run n).state.errorSlot = none
  /-- Once it has reported its end, one error has been recorded, and which one is decided by what the source delivers. -/
  records : ∀ n, (stream.run n).ended = true → ∃ error, (stream.run n).state.errorSlot = some error ∧
    (error = .validation (overshootMessage sizeBytes) ↔ sizeBytes.toNat < (deliveredBytes items).length) ∧
    (∀ cause, error = .io "the upload chunk stream" cause ↔
      (deliveredBytes items).length ≤ sizeBytes.toNat ∧ firstFailure items = some cause) ∧
    (error = .validation (shortfallMessage (UInt64.ofNat (deliveredBytes items).length) sizeBytes) ↔
      (deliveredBytes items).length < sizeBytes.toNat ∧ firstFailure items = none)
  /-- The bytes pulled exceed the declared size exactly when those the source delivers do. -/
  pulled : ∀ n, (stream.run n).ended = true →
    (sizeBytes.toNat < ((Source.ofList items).bytes (stream.run n).state.polled).length ↔
      sizeBytes.toNat < (deliveredBytes items).length)
  /-- The requests emitted are never a complete upload. -/
  incomplete : ∀ n, ¬((stream.run n).emitted ≠ [] ∧ (bytesIn (stream.run n).emitted).length = sizeBytes.toNat)
  /-- Their bytes are the first that the source delivers. -/
  isPrefix : ∀ n, bytesIn (stream.run n).emitted <+: deliveredBytes items
  /-- Every item pulled before the last one is a piece that fits: nothing is pulled after the item that decides the error. -/
  stops : ∀ n i, i + 1 < (stream.run n).state.polled →
    ∃ piece, items[i]? = some (.ok piece) ∧ ((Source.ofList items).bytes (i + 1)).length ≤ sizeBytes.toNat

namespace UploadAux

/-- Texts that differ at a place both prefixes reach are different. -/
theorem append_ne_append {p q : String} (x y : String) (i : Nat) (hne : p.toList[i]? ≠ q.toList[i]?)
    (hp : i < p.toList.length) (hq : i < q.toList.length) : p ++ x ≠ q ++ y := by
  intro h
  have hlist := congrArg String.toList h
  rw [String.toList_append, String.toList_append] at hlist
  have hget := congrArg (fun l => l[i]?) hlist
  simp only [List.getElem?_append_left hp, List.getElem?_append_left hq] at hget
  exact hne hget

/-- The two size errors read differently. -/
theorem overshoot_ne_shortfall (a b c : UInt64) : overshootMessage a ≠ shortfallMessage b c := by
  unfold overshootMessage shortfallMessage
  generalize toString a = x
  generalize toString b = y
  generalize toString c = z
  rw [String.append_assoc, String.append_assoc, String.append_assoc]
  exact append_ne_append _ _ 20 (by decide) (by decide) (by decide)

section

variable {items : List (Except IoError Bytes)} {sizeBytes : UInt64} {m : UploadMetadata} {r : Rechunk}

/-- A source that does not deliver what was declared is never done with every declared byte in hand. -/
theorem bytes_lt_of_done (hbad : (deliveredBytes items).length ≠ sizeBytes.toNat ∨
      sizeBytes = 0 ∧ firstFailure items ≠ none) {k : Nat} (hfits : (Source.ofList items).FitsTo sizeBytes k)
    (hdone : (Source.ofList items).DoneAt sizeBytes k) :
    ((Source.ofList items).bytes k).length < sizeBytes.toNat := by
  have hok : ∀ i < k, ∃ piece, Source.ofList items i = some (.ok piece) := fun i hi => (hfits i hi).1
  refine Nat.lt_of_le_of_ne hfits.le ?_
  intro heq
  rw [bytes_eq_delivered hok hdone.not_ok] at heq
  rcases hbad with hne | ⟨hzero, hfail⟩
  · exact hne heq
  · have hpoll := poll_eq_firstFailure hok hdone.not_ok
    rcases hdone with hnone | ⟨_, _, hpos⟩
    · rw [hnone, eq_comm, Option.map_eq_none_iff] at hpoll
      exact hfail hpoll
    · rw [hzero] at hpos
      exact absurd hpos (Nat.lt_irrefl 0)

/-- The bytes pulled are the first that the source delivers. -/
theorem pulled_isPrefix (h : r.Stage (Source.ofList items) sizeBytes) :
    (Source.ofList items).bytes r.state.polled <+: deliveredBytes items := by
  have hlast : ∀ k, (Source.ofList items).FitsTo sizeBytes k → (∀ p, Source.ofList items k ≠ some (.ok p)) →
      (Source.ofList items).bytes (k + 1) <+: deliveredBytes items := by
    intro k hfits hend
    have hok : ∀ i < k, ∃ piece, Source.ofList items i = some (.ok piece) := fun i hi => (hfits i hi).1
    have hsame : (Source.ofList items).bytes (k + 1) = (Source.ofList items).bytes k := by
      cases hsrc : Source.ofList items k with
      | none => exact Source.bytes_succ_none hsrc
      | some item =>
        cases item with
        | ok p => exact absurd hsrc (hend p)
        | error e => exact Source.bytes_succ_error hsrc
    rw [hsame]
    exact bytes_isPrefix hok
  cases h with
  | reading _ _ _ hok _ _ => exact bytes_isPrefix hok
  | overshot k piece _ hpolled hfits hsrc _ _ _ =>
    rw [hpolled]
    refine bytes_isPrefix ?_
    intro i hi
    rcases Nat.lt_succ_iff_lt_or_eq.mp hi with hi | rfl
    · exact (hfits i hi).1
    · exact ⟨piece, hsrc⟩
  | failed k error _ hpolled hfits hsrc _ _ _ =>
    rw [hpolled]
    exact hlast k hfits (by simp [hsrc])
  | flushing k _ hpolled _ hfits hdone _ =>
    rw [hpolled]
    exact hlast k hfits hdone.not_ok
  | short k _ hpolled hfits hsrc _ _ =>
    rw [hpolled]
    exact hlast k hfits (by simp [hsrc])
  | complete k _ hpolled hfits hdone _ _ _ _ =>
    rw [hpolled]
    exact hlast k hfits hdone.not_ok

/-- The requests emitted carry the first of the bytes pulled. -/
theorem emitted_isPrefix (h : r.Inv (Source.ofList items) sizeBytes m) :
    bytesIn r.emitted <+: (Source.ofList items).bytes r.state.polled := by
  rw [← h.bytes_eq]
  exact List.prefix_append _ _

/-- The requests emitted are no complete upload. -/
theorem not_complete (hbad : (deliveredBytes items).length ≠ sizeBytes.toNat ∨
      sizeBytes = 0 ∧ firstFailure items ≠ none) (h : r.Live (Source.ofList items) sizeBytes m) :
    ¬(r.emitted ≠ [] ∧ (bytesIn r.emitted).length = sizeBytes.toNat) := by
  rintro ⟨hsome, heq⟩
  have hlen := (emitted_isPrefix h.inv).length_le
  have hheld : ¬r.Held sizeBytes := by
    rintro (hnil | hlt)
    · exact hsome hnil
    · omega
  have hdone : ∀ k, r.state.polled = k + 1 → (Source.ofList items).FitsTo sizeBytes k →
      ¬(Source.ofList items).DoneAt sizeBytes k := by
    intro k hpolled hfits hdone
    have hlt := bytes_lt_of_done hbad hfits hdone
    rw [hpolled, hdone.bytes_succ] at hlen
    omega
  cases h.stage with
  | reading _ _ _ _ _ hh => exact hheld hh
  | overshot _ _ _ _ _ _ _ hh _ => exact hheld hh
  | failed _ _ _ _ _ _ _ hh _ => exact hheld hh
  | flushing k _ hpolled _ hfits hd _ => exact hdone k hpolled hfits hd
  | short k _ hpolled hfits hsrc _ _ => exact hdone k hpolled hfits (Or.inl hsrc)
  | complete k _ hpolled hfits hd _ _ _ _ => exact hdone k hpolled hfits hd

/-- Every item pulled before the last one is a piece that fits. -/
theorem earlier_fits (h : r.Stage (Source.ofList items) sizeBytes) {i : Nat} (hi : i + 1 < r.state.polled) :
    ∃ piece, items[i]? = some (.ok piece) ∧ ((Source.ofList items).bytes (i + 1)).length ≤ sizeBytes.toNat := by
  have hlast : ∀ k, r.state.polled = k + 1 → (Source.ofList items).FitsTo sizeBytes k →
      ∃ piece, items[i]? = some (.ok piece) ∧ ((Source.ofList items).bytes (i + 1)).length ≤ sizeBytes.toNat := by
    intro k hpolled hfits
    obtain ⟨⟨piece, hp⟩, hle⟩ := hfits i (by omega)
    exact ⟨piece, hp, hle⟩
  cases h with
  | reading _ _ _ hok hfits _ =>
    obtain ⟨piece, hp⟩ := hok i (by omega)
    exact ⟨piece, hp, hfits i hi⟩
  | overshot k _ _ hpolled hfits _ _ _ _ => exact hlast k hpolled hfits
  | failed k _ _ hpolled hfits _ _ _ _ => exact hlast k hpolled hfits
  | flushing k _ hpolled _ hfits _ _ => exact hlast k hpolled hfits
  | short k _ hpolled hfits _ _ _ => exact hlast k hpolled hfits
  | complete k _ hpolled hfits _ _ _ _ _ => exact hlast k hpolled hfits

/-- The error an ended stream has recorded is decided by what the source delivers. -/
theorem recorded_error (hbad : (deliveredBytes items).length ≠ sizeBytes.toNat ∨
      sizeBytes = 0 ∧ firstFailure items ≠ none) (h : r.Stage (Source.ofList items) sizeBytes)
    (hend : r.ended = true) :
    ∃ error, r.state.errorSlot = some error ∧
      (error = .validation (overshootMessage sizeBytes) ↔ sizeBytes.toNat < (deliveredBytes items).length) ∧
      (∀ cause, error = .io "the upload chunk stream" cause ↔
        (deliveredBytes items).length ≤ sizeBytes.toNat ∧ firstFailure items = some cause) ∧
      (error = .validation (shortfallMessage (UInt64.ofNat (deliveredBytes items).length) sizeBytes) ↔
        (deliveredBytes items).length < sizeBytes.toNat ∧ firstFailure items = none) := by
  have hne := overshoot_ne_shortfall sizeBytes (UInt64.ofNat (deliveredBytes items).length) sizeBytes
  have hpulled := (pulled_isPrefix h).length_le
  cases h with
  | reading hrun => rw [hend] at hrun; cases hrun
  | flushing _ hrun => rw [hend] at hrun; cases hrun
  | overshot k piece _ hpolled hfits hsrc hover _ hslot =>
    rw [hpolled] at hpulled
    have hdel := Nat.lt_of_lt_of_le hover hpulled
    refine ⟨_, hslot, ⟨fun _ => hdel, fun _ => rfl⟩, fun cause => ⟨nofun, fun ⟨hle, _⟩ => absurd hdel (by omega)⟩, ?_⟩
    refine ⟨fun heq => absurd (RociaDbError.validation.inj heq) hne, fun ⟨hlt, _⟩ => absurd hdel (by omega)⟩
  | failed k error _ _ hfits hsrc _ _ hslot =>
    have hok : ∀ i < k, ∃ piece, Source.ofList items i = some (.ok piece) := fun i hi => (hfits i hi).1
    have hnot : ∀ p, Source.ofList items k ≠ some (.ok p) := by simp [hsrc]
    have hle := hfits.le
    have hfirst := poll_eq_firstFailure hok hnot
    rw [bytes_eq_delivered hok hnot] at hle
    rw [hsrc] at hfirst
    have hcause : firstFailure items = some error := by
      cases hf : firstFailure items with
      | none => rw [hf] at hfirst; cases hfirst
      | some e =>
        rw [hf, Option.map_some, Option.some.injEq, Except.error.injEq] at hfirst
        rw [hfirst]
    refine ⟨_, hslot, ⟨nofun, fun hlt => absurd hle (by omega)⟩, ?_,
      ⟨nofun, fun ⟨_, hnone⟩ => by rw [hcause] at hnone; cases hnone⟩⟩
    intro cause
    constructor
    · intro heq
      cases heq
      exact ⟨hle, hcause⟩
    · rintro ⟨_, heq⟩
      rw [hcause, Option.some.injEq] at heq
      rw [heq]
  | short k _ _ hfits hsrc hlt hslot =>
    have hok : ∀ i < k, ∃ piece, Source.ofList items i = some (.ok piece) := fun i hi => (hfits i hi).1
    have hnot : ∀ p, Source.ofList items k ≠ some (.ok p) := by simp [hsrc]
    have hfirst := poll_eq_firstFailure hok hnot
    rw [hsrc, eq_comm, Option.map_eq_none_iff] at hfirst
    rw [bytes_eq_delivered hok hnot] at hlt hslot
    refine ⟨_, hslot, ⟨fun heq => absurd (RociaDbError.validation.inj heq).symm hne, fun h => absurd hlt (by omega)⟩,
      fun cause => ⟨nofun, fun ⟨_, hsome⟩ => by rw [hfirst] at hsome; cases hsome⟩, ⟨fun _ => ⟨hlt, hfirst⟩, fun _ => rfl⟩⟩
  | complete k _ _ hfits hdone heq _ _ _ =>
    have := bytes_lt_of_done hbad hfits hdone
    omega

/-- The bytes pulled by an ended stream exceed the declared size exactly when those the source delivers do. -/
theorem pulled_over_iff (h : r.Stage (Source.ofList items) sizeBytes) (hend : r.ended = true) :
    sizeBytes.toNat < ((Source.ofList items).bytes r.state.polled).length ↔
      sizeBytes.toNat < (deliveredBytes items).length := by
  refine ⟨fun hlt => Nat.lt_of_lt_of_le hlt (pulled_isPrefix h).length_le, ?_⟩
  intro hlt
  have hdone : ∀ k, (Source.ofList items).FitsTo sizeBytes k → ¬∀ p, Source.ofList items k ≠ some (.ok p) := by
    intro k hfits hnot
    have hle := hfits.le
    rw [bytes_eq_delivered (fun i hi => (hfits i hi).1) hnot] at hle
    omega
  cases h with
  | reading hrun => rw [hend] at hrun; cases hrun
  | flushing _ hrun => rw [hend] at hrun; cases hrun
  | overshot k _ _ hpolled _ _ hover _ _ => rwa [hpolled]
  | failed k _ _ _ hfits hsrc _ _ _ => exact absurd (by simp [hsrc]) (hdone k hfits)
  | short k _ _ hfits hsrc _ _ => exact absurd (by simp [hsrc]) (hdone k hfits)
  | complete k _ _ hfits hd _ _ _ _ => exact absurd hd.not_ok (hdone k hfits)

/-- A running stream has recorded nothing. -/
theorem slot_none_of_running (h : r.Stage (Source.ofList items) sizeBytes) (hrun : r.ended = false) :
    r.state.errorSlot = none := by
  cases hex : r.state.sourceExhausted with
  | true => exact (h.flushing_of hrun hex).choose_spec.2.2.2
  | false => exact (h.reading_of hrun hex).1

/-- A stream whose byte count does not wrap fails cleanly. -/
theorem failsCleanly_of_noWrap (hbad : (deliveredBytes items).length ≠ sizeBytes.toNat ∨
      sizeBytes = 0 ∧ firstFailure items ≠ none) (hw : (Source.ofList items).NoWrap sizeBytes)
    (h : r.Live (Source.ofList items) sizeBytes m) : FailsCleanly items sizeBytes r where
  ends := h.ends hw (K := items.length) (by simp [ofList_length])
  quiet n hrun := slot_none_of_running (h.run hw n).stage hrun
  records n hend := recorded_error hbad (h.run hw n).stage hend
  pulled n hend := pulled_over_iff (h.run hw n).stage hend
  incomplete n := not_complete hbad (h.run hw n)
  isPrefix n := (emitted_isPrefix (h.run hw n).inv).trans (pulled_isPrefix (h.run hw n).stage)
  stops n i hi := earlier_fits (h.run hw n).stage hi

/-- A stream whose byte count wraps does not: it never stops at the item that decides the error. -/
theorem not_failsCleanly_of_wraps {k : Nat} (hw : WrapsAt (Source.ofList items) sizeBytes k)
    (hbounded : r.Bounded (Source.ofList items) sizeBytes) (hr : r.Counting (Source.ofList items) sizeBytes)
    (hpolled : r.state.polled = 0) : ¬FailsCleanly items sizeBytes r := by
  intro hclean
  obtain ⟨n, hend⟩ := hclean.ends
  rcases hw.run hbounded hr (by omega) n with ⟨_, hcount⟩ | ⟨hpast, _⟩
  · rw [hcount.running] at hend
    cases hend
  · obtain ⟨piece, _, hle⟩ := hclean.stops n k hpast
    have hwraps := hw.wraps
    have hsize := sizeBytes.toNat_lt
    omega

end

end UploadAux

open UploadAux

/-- For every declared size and every finite source that does not deliver exactly that many bytes before its first failure
or its end, or that fails when nothing was declared: the stream fails cleanly and `upload_file_chunked` returns the recorded
error whatever the server answered, if and only if no item takes the byte count past `u64::MAX`. -/
theorem chunked_fails_cleanly_iff (tenantId bucket fileId uuid : String) (options : FileStreamUploadOptions)
    (items : List (Except IoError Bytes))
    (hbad : (deliveredBytes items).length ≠ options.sizeBytes.toNat ∨
      options.sizeBytes = 0 ∧ firstFailure items ≠ none) :
    let stream := chunkedRequests tenantId bucket fileId (Source.ofList items) options uuid
    (FailsCleanly items options.sizeBytes stream ∧
      ∀ polls maxFileBytes answer, options.sizeBytes ≤ maxFileBytes → (stream.run polls).ended = true →
        ∃ error, (stream.run polls).state.errorSlot = some error ∧
          uploadFileChunked maxFileBytes tenantId bucket fileId (Source.ofList items) options uuid polls answer =
            .error error) ↔
      (Source.ofList items).NoWrap options.sizeBytes := by
  intro stream
  constructor
  · rintro ⟨hclean, _⟩
    by_contra hwrap
    obtain ⟨k, hk⟩ := exists_wrapsAt hwrap
    exact not_failsCleanly_of_wraps hk (bounded_init _ _ _ _ _ _ _ _) (counting_init _ _ _ _ _ _ _ _) rfl hclean
  · intro hw
    have hclean : FailsCleanly items options.sizeBytes stream :=
      failsCleanly_of_noWrap hbad hw (Rechunk.live_init _ _ _ _ _ _ _ _)
    refine ⟨hclean, ?_⟩
    intro polls maxFileBytes answer hmax hend
    obtain ⟨error, hslot, _⟩ := hclean.records polls hend
    refine ⟨error, hslot, ?_⟩
    unfold uploadFileChunked
    unfold validateFileSize
    rw [if_neg (UInt64.not_lt.2 hmax)]
    simp only
    rw [show (chunkedRequests tenantId bucket fileId (Source.ofList items) options uuid).run polls = stream.run polls
      from rfl, hslot]

/-- Two pieces of five declared bytes, and then a failure. -/
theorem chunked_fails_cleanly_iff_failed :
    let items : List (Except IoError Bytes) := [.ok ⟨[1, 2], by decide⟩, .ok ⟨[3], by decide⟩, .error ⟨"reset"⟩]
    let options : FileStreamUploadOptions :=
      { sizeBytes := 5, checksum := Vector.replicate 32 0, contentType := "text/plain", requestId := some "r" }
    let stream := chunkedRequests "t" "b" "f" (Source.ofList items) options "u"
    (FailsCleanly items options.sizeBytes stream ∧
      ∀ polls maxFileBytes answer, options.sizeBytes ≤ maxFileBytes → (stream.run polls).ended = true →
        ∃ error, (stream.run polls).state.errorSlot = some error ∧
          uploadFileChunked maxFileBytes "t" "b" "f" (Source.ofList items) options "u" polls answer = .error error) ↔
      (Source.ofList items).NoWrap options.sizeBytes :=
  chunked_fails_cleanly_iff "t" "b" "f" "u" _ _ (Or.inl (by decide))

/-- `2 ^ 44` pieces of one mebibyte for a declared size of `2 ^ 64 - 1`: one byte too many, and the stream does not fail the
way it should. -/
theorem chunked_wraps :
    let items : List (Except IoError Bytes) := List.replicate (2 ^ 44 - 1 + 1) (.ok zeroMebibyte)
    let options : FileStreamUploadOptions :=
      { sizeBytes := UInt64.ofNat (2 ^ 64 - 1), checksum := Vector.replicate 32 0, contentType := "text/plain",
        requestId := some "r" }
    (deliveredBytes items).length = options.sizeBytes.toNat + 1 ∧
      ¬FailsCleanly items options.sizeBytes (chunkedRequests "t" "b" "f" (Source.ofList items) options "u") := by
  have hlen : zeroMebibyte.data.length = 2 ^ 20 := List.length_replicate
  have hsum : (2 ^ 44 - 1 + 1) * zeroMebibyte.data.length = 2 ^ 64 := by
    rw [hlen]
    decide
  have hwraps := replicate_wraps (2 ^ 44 - 1) zeroMebibyte hsum (UInt64.ofNat (2 ^ 64 - 1)) (by rw [hlen]; decide)
  refine ⟨?_, not_failsCleanly_of_wraps hwraps (bounded_init _ _ _ _ _ _ _ _) (counting_init _ _ _ _ _ _ _ _) rfl⟩
  rw [deliveredBytes_replicate, hsum]
  decide

end RociaSdk

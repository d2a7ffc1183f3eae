import RociaSdk.Lemmas.WriterAux

/-!
# What a verified download accepts

A verified download succeeds exactly for the right bytes and a willing writer, and otherwise the first thing that went wrong
decides the error: an overshoot, a refusal, and, at the end of the stream, the size, the digest and the flush.
-/

namespace RociaSdk

/-- The bytes of the first `i` chunks. -/
def bytesBefore (chunks : List (List UInt8)) (i : Nat) : List UInt8 := (chunks.take i).flatten

/-- The state of a verified download that has recorded the chunks `done`. -/
def VerifiedDownload.after (sha : Sha256) (size : UInt64) (done : List (List UInt8)) : VerifiedDownload sha :=
  { expectedSize := size, hasher := done.foldl sha.update sha.new, written := UInt64.ofNat done.flatten.length }

/-- What `download_verified_into` answers for a stream of `chunks` that ends cleanly and a writer that behaves as `b`, given
as the result, the writer it leaves and the chunks it never read. -/
structure VerifiedOutcome (sha : Sha256) (metadata : FileMetadata) (chunks : List (List UInt8)) (b : WriterBehaviour)
    (outcome : Result UInt64 × Writer × List (List UInt8)) : Prop where
  /-- Success is the right size, the right digest, a writer with room for everything, and a flush. -/
  ok_iff : ∀ n, outcome.1 = .ok n ↔
    n = metadata.sizeBytes ∧ chunks.flatten.length = metadata.sizeBytes.toNat ∧
      (sha.digest chunks.flatten).toList = metadata.checksum ∧ b.accepts chunks.flatten.length ∧ b.flush = .ok ()
  /-- On success the writer holds the whole download. -/
  ok_held : ∀ n, outcome.1 = .ok n → outcome.2.1.held = chunks.flatten
  /-- The first chunk to exceed the expected size fails with the running total; it is not written, and no later chunk is
  read. -/
  overshoot : ∀ i < chunks.length, (bytesBefore chunks i).length ≤ metadata.sizeBytes.toNat →
    b.accepts (bytesBefore chunks i).length → metadata.sizeBytes.toNat < (bytesBefore chunks (i + 1)).length →
      outcome.1 = .error (.sizeMismatch metadata.sizeBytes (UInt64.ofNat (bytesBefore chunks (i + 1)).length)) ∧
        outcome.2.1.held = bytesBefore chunks i ∧ outcome.2.2 = chunks.drop (i + 1)
  /-- The first chunk the writer refuses before that fails with the writer's error. -/
  refused : ∀ i < chunks.length, ∀ limit refusal, b.limit = some (limit, refusal) →
    (bytesBefore chunks i).length ≤ limit → limit < (bytesBefore chunks (i + 1)).length →
      (bytesBefore chunks (i + 1)).length ≤ metadata.sizeBytes.toNat →
        outcome.1 = .error (.io "writing the downloaded file" refusal.toError) ∧
          outcome.2.1.held = chunks.flatten.take limit ∧ outcome.2.2 = chunks.drop (i + 1)
  /-- A stream read to its end fails with its size if that is short, else with its digest if that differs, else with the
  flush if that fails. -/
  ended : chunks.flatten.length ≤ metadata.sizeBytes.toNat → b.accepts chunks.flatten.length →
    outcome.2.1.held = chunks.flatten ∧ outcome.2.2 = [] ∧
      outcome.1 =
        if chunks.flatten.length < metadata.sizeBytes.toNat then
          .error (.sizeMismatch metadata.sizeBytes (UInt64.ofNat chunks.flatten.length))
        else if (sha.digest chunks.flatten).toList ≠ metadata.checksum then
          .error (.checksumMismatch metadata.checksum (sha.digest chunks.flatten).toList)
        else
          match b.flush with
          | .error e => .error (.io "writing the downloaded file" e)
          | .ok () => .ok metadata.sizeBytes

namespace DownloadAux

variable {sha : Sha256} {size : UInt64} {b : WriterBehaviour} {ending : Except Status Unit}

theorem after_nil (sha : Sha256) (size : UInt64) : VerifiedDownload.after sha size [] = VerifiedDownload.new sha size := rfl

/-- The bytes of one chunk more. -/
theorem flatten_snoc (done : List (List UInt8)) (chunk : List UInt8) :
    (done ++ [chunk]).flatten = done.flatten ++ chunk := by
  rw [List.flatten_append, List.flatten_singleton]

/-- Recording a chunk counts and hashes it, and fails when the total exceeds the expected size. -/
theorem record_after (done : List (List UInt8)) (chunk : List UInt8)
    (hfit : (done ++ [chunk]).flatten.length < 2 ^ 64) :
    (VerifiedDownload.after sha size done).record chunk =
      (if size.toNat < (done ++ [chunk]).flatten.length then
        .error (.sizeMismatch size (UInt64.ofNat (done ++ [chunk]).flatten.length))
      else .ok (), VerifiedDownload.after sha size (done ++ [chunk])) := by
  have hlen : (done ++ [chunk]).flatten.length = done.flatten.length + chunk.length := by
    rw [flatten_snoc, List.length_append]
  have hsum : saturatingAdd (UInt64.ofNat done.flatten.length) (UInt64.ofNat chunk.length) =
      UInt64.ofNat (done ++ [chunk]).flatten.length := by
    rw [saturatingAdd, UInt64.toNat_ofNat', UInt64.toNat_ofNat', Nat.mod_eq_of_lt (by omega), Nat.mod_eq_of_lt (by omega),
      if_pos (by omega), ← UInt64.ofNat_add, hlen]
  have hover : UInt64.ofNat (done ++ [chunk]).flatten.length > size ↔ size.toNat < (done ++ [chunk]).flatten.length := by
    rw [gt_iff_lt, UInt64.lt_iff_toNat_lt, UInt64.toNat_ofNat', Nat.mod_eq_of_lt hfit]
  simp only [VerifiedDownload.record, VerifiedDownload.after, hsum, hover, List.foldl_append, List.foldl_cons,
    List.foldl_nil]
  split <;> rfl

/-- A chunk within the expected size and the writer's room is absorbed. -/
theorem absorb_ok (done : List (List UInt8)) (chunk : List UInt8) (w : Writer) (hheld : w.held = done.flatten)
    (hfit : (done ++ [chunk]).flatten.length < 2 ^ 64) (hle : (done ++ [chunk]).flatten.length ≤ size.toNat)
    (hacc : w.behaviour.accepts (done ++ [chunk]).flatten.length) :
    ∃ polls, (VerifiedDownload.after sha size done).absorb w chunk =
      (.ok (), VerifiedDownload.after sha size (done ++ [chunk]),
        { w with polls := polls, held := (done ++ [chunk]).flatten }) := by
  rw [flatten_snoc, ← hheld] at hacc ⊢
  rw [List.length_append] at hacc
  obtain ⟨polls, hwrite⟩ := WriterAux.writeAll_accepts w chunk hacc
  refine ⟨polls, ?_⟩
  unfold VerifiedDownload.absorb
  rw [record_after done chunk hfit, if_neg (Nat.not_lt_of_le hle)]
  simp only [hwrite]

/-- A chunk that exceeds the expected size is not written. -/
theorem absorb_overshoot (done : List (List UInt8)) (chunk : List UInt8) (w : Writer)
    (hfit : (done ++ [chunk]).flatten.length < 2 ^ 64) (hover : size.toNat < (done ++ [chunk]).flatten.length) :
    (VerifiedDownload.after sha size done).absorb w chunk =
      (.error (.sizeMismatch size (UInt64.ofNat (done ++ [chunk]).flatten.length)),
        VerifiedDownload.after sha size (done ++ [chunk]), w) := by
  unfold VerifiedDownload.absorb
  rw [record_after done chunk hfit, if_pos hover]

/-- A chunk the writer refuses fails with the writer's error, and what there was room for is written. -/
theorem absorb_refused (done : List (List UInt8)) (chunk : List UInt8) (w : Writer) (hheld : w.held = done.flatten)
    (hfit : (done ++ [chunk]).flatten.length < 2 ^ 64) (hle : (done ++ [chunk]).flatten.length ≤ size.toNat)
    {limit : Nat} {refusal : WriteRefusal} (hl : w.behaviour.limit = some (limit, refusal))
    (hroom : done.flatten.length ≤ limit) (hover : limit < (done ++ [chunk]).flatten.length) :
    ∃ polls, (VerifiedDownload.after sha size done).absorb w chunk =
      (.error (downloadWriteError refusal.toError), VerifiedDownload.after sha size (done ++ [chunk]),
        { w with polls := polls, held := (done ++ [chunk]).flatten.take limit }) := by
  rw [flatten_snoc, List.length_append] at hover
  obtain ⟨polls, hwrite⟩ := WriterAux.writeAll_refuses w chunk hl (by rw [hheld]; exact hroom) (by rw [hheld]; exact hover)
  refine ⟨polls, ?_⟩
  unfold VerifiedDownload.absorb
  rw [record_after done chunk hfit, if_neg (Nat.not_lt_of_le hle)]
  simp only [hwrite]
  rw [flatten_snoc, List.take_append, List.take_of_length_le hroom, hheld]

/-- Chunks within the expected size and the writer's room are absorbed one after the other. -/
theorem absorbStream_isPrefix (first rest done : List (List UInt8)) (w : Writer) (hheld : w.held = done.flatten)
    (hfit : (done ++ first).flatten.length < 2 ^ 64) (hle : (done ++ first).flatten.length ≤ size.toNat)
    (hacc : w.behaviour.accepts (done ++ first).flatten.length) :
    ∃ polls, absorbStream (VerifiedDownload.after sha size done) w ending (first ++ rest) =
      absorbStream (VerifiedDownload.after sha size (done ++ first))
        { w with polls := polls, held := (done ++ first).flatten } ending rest := by
  induction first generalizing done w with
  | nil =>
    refine ⟨w.polls, ?_⟩
    rw [List.append_nil, List.nil_append, ← hheld]
  | cons chunk first ih =>
    have hsplit : done ++ chunk :: first = done ++ [chunk] ++ first := by simp
    rw [hsplit] at hfit hle hacc ⊢
    have hlen : (done ++ [chunk]).flatten.length ≤ (done ++ [chunk] ++ first).flatten.length := by
      simp only [List.flatten_append, List.length_append]
      omega
    obtain ⟨p, habsorb⟩ : ∃ p, (VerifiedDownload.after sha size done).absorb w chunk =
        (.ok (), VerifiedDownload.after sha size (done ++ [chunk]), { w with polls := p, held := (done ++ [chunk]).flatten }) :=
      absorb_ok done chunk w hheld (by omega) (by omega) (hacc.mono hlen)
    obtain ⟨polls, hrest⟩ := ih (done ++ [chunk]) { w with polls := p, held := (done ++ [chunk]).flatten } rfl hfit hle hacc
    refine ⟨polls, ?_⟩
    rw [List.cons_append, absorbStream, habsorb]
    exact hrest

/-- The chunks split at one of them. -/
theorem split_at (chunks : List (List UInt8)) {i : Nat} (hi : i < chunks.length) :
    chunks = chunks.take i ++ chunks[i] :: chunks.drop (i + 1) := by
  rw [List.getElem_cons_drop hi, List.take_append_drop]

/-- The bytes before a chunk and the chunk itself. -/
theorem bytesBefore_succ (chunks : List (List UInt8)) {i : Nat} (hi : i < chunks.length) :
    bytesBefore chunks (i + 1) = (chunks.take i ++ [chunks[i]]).flatten := by
  unfold bytesBefore
  rw [List.take_succ_eq_append_getElem hi]

theorem bytesBefore_mono (chunks : List (List UInt8)) {i j : Nat} (h : i ≤ j) :
    (bytesBefore chunks i).length ≤ (bytesBefore chunks j).length := by
  obtain ⟨d, rfl⟩ := Nat.exists_eq_add_of_le h
  rw [bytesBefore, bytesBefore, List.take_add, List.flatten_append, List.length_append]
  exact Nat.le_add_right _ _

theorem bytesBefore_length (chunks : List (List UInt8)) : bytesBefore chunks chunks.length = chunks.flatten := by
  unfold bytesBefore
  rw [List.take_length]

/-- The bytes before a chunk are fewer than all. -/
theorem bytesBefore_le (chunks : List (List UInt8)) (i : Nat) :
    (bytesBefore chunks i).length ≤ chunks.flatten.length := by
  rcases Nat.le_total i chunks.length with h | h
  · rw [← bytesBefore_length]
    exact bytesBefore_mono chunks h
  · exact Nat.le_of_eq (by rw [bytesBefore, List.take_of_length_le h])

/-- A stream absorbed to its end is finished and flushed. -/
theorem finish_after (sha : Sha256) (size : UInt64) (done : List (List UInt8)) (checksum : List UInt8)
    (hfit : done.flatten.length < 2 ^ 64) (hle : done.flatten.length ≤ size.toNat) :
    (VerifiedDownload.after sha size done).finish checksum =
      if done.flatten.length < size.toNat then .error (.sizeMismatch size (UInt64.ofNat done.flatten.length))
      else if (sha.digest done.flatten).toList ≠ checksum then
        .error (.checksumMismatch checksum (sha.digest done.flatten).toList)
      else .ok size := by
  have hsize : UInt64.ofNat done.flatten.length = size ↔ done.flatten.length = size.toNat := by
    rw [← UInt64.toNat_inj, UInt64.toNat_ofNat', Nat.mod_eq_of_lt hfit]
  simp only [VerifiedDownload.finish, VerifiedDownload.after, sha.finalize_updates]
  by_cases hlt : done.flatten.length < size.toNat
  · rw [if_pos (fun h => by have := hsize.1 h; omega), if_pos hlt]
  · have heq := hsize.2 (by omega)
    rw [if_neg (not_not.2 heq), if_neg hlt, heq]

section

variable (sha) (metadata : FileMetadata) (chunks : List (List UInt8)) (b)

/-- The outcome of a download whose stream is read to its end. -/
theorem outcome_ended (hfit : chunks.flatten.length < 2 ^ 64) (hle : chunks.flatten.length ≤ metadata.sizeBytes.toNat)
    (hacc : b.accepts chunks.flatten.length) :
    ∃ polls, downloadVerifiedInto sha metadata (.ok ⟨chunks, .ok ()⟩) b.writer =
      (match (VerifiedDownload.after sha metadata.sizeBytes chunks).finish metadata.checksum with
        | .error e => .error e
        | .ok written =>
          match b.flush with
          | .error e => .error (downloadWriteError e)
          | .ok () => .ok written, { b.writer with polls := polls, held := chunks.flatten }, []) := by
  obtain ⟨polls, hrun⟩ : ∃ polls, absorbStream (VerifiedDownload.after sha metadata.sizeBytes []) b.writer (.ok ())
      (chunks ++ []) = _ := absorbStream_isPrefix chunks [] [] b.writer rfl hfit hle hacc
  rw [List.nil_append, List.append_nil, after_nil, absorbStream] at hrun
  refine ⟨polls, ?_⟩
  unfold downloadVerifiedInto
  simp only [hrun, statusContext, Except.map]
  cases (VerifiedDownload.after sha metadata.sizeBytes chunks).finish metadata.checksum with
  | error e => rfl
  | ok written =>
    simp only [WriterBehaviour.writer]
    cases b.flush <;> rfl

/-- The outcome of a download that fails at one of its chunks. -/
theorem outcome_failed (hfit : chunks.flatten.length < 2 ^ 64) {i : Nat} (hi : i < chunks.length)
    (hle : (bytesBefore chunks i).length ≤ metadata.sizeBytes.toNat) (hacc : b.accepts (bytesBefore chunks i).length)
    (e : RociaDbError) (held : List UInt8)
    (hfail : ∀ w : Writer, w.behaviour = b → w.held = (chunks.take i).flatten →
      ∃ v polls, (VerifiedDownload.after sha metadata.sizeBytes (chunks.take i)).absorb w chunks[i] =
        (.error e, v, { w with polls := polls, held := held })) :
    ∃ polls, downloadVerifiedInto sha metadata (.ok ⟨chunks, .ok ()⟩) b.writer =
      (.error e, { b.writer with polls := polls, held := held }, chunks.drop (i + 1)) := by
  have hfirst := bytesBefore_le chunks i
  obtain ⟨p, hrun⟩ : ∃ polls, absorbStream (VerifiedDownload.after sha metadata.sizeBytes []) b.writer (.ok ())
      (chunks.take i ++ chunks[i] :: chunks.drop (i + 1)) = _ :=
    absorbStream_isPrefix (chunks.take i) (chunks[i] :: chunks.drop (i + 1)) [] b.writer rfl (Nat.lt_of_le_of_lt hfirst hfit)
      hle hacc
  obtain ⟨v, polls, habsorb⟩ := hfail { b.writer with polls := p, held := (chunks.take i).flatten } rfl rfl
  refine ⟨polls, ?_⟩
  rw [← split_at chunks hi, List.nil_append, after_nil, absorbStream] at hrun
  unfold downloadVerifiedInto
  simp only [hrun, habsorb]

/-- The outcome of a download whose first excess is at chunk `i`. -/
theorem outcome_overshoot (hfit : chunks.flatten.length < 2 ^ 64) {i : Nat} (hi : i < chunks.length)
    (hle : (bytesBefore chunks i).length ≤ metadata.sizeBytes.toNat) (hacc : b.accepts (bytesBefore chunks i).length)
    (hover : metadata.sizeBytes.toNat < (bytesBefore chunks (i + 1)).length) :
    ∃ polls, downloadVerifiedInto sha metadata (.ok ⟨chunks, .ok ()⟩) b.writer =
      (.error (.sizeMismatch metadata.sizeBytes (UInt64.ofNat (bytesBefore chunks (i + 1)).length)),
        { b.writer with polls := polls, held := bytesBefore chunks i }, chunks.drop (i + 1)) := by
  have hall := bytesBefore_le chunks (i + 1)
  refine outcome_failed sha b metadata chunks hfit hi hle hacc _ _ fun w _ hheld =>
    ⟨VerifiedDownload.after sha metadata.sizeBytes (chunks.take i ++ [chunks[i]]), w.polls, ?_⟩
  rw [bytesBefore_succ chunks hi] at hover hall ⊢
  rw [absorb_overshoot _ _ w (Nat.lt_of_le_of_lt hall hfit) hover, bytesBefore, ← hheld]

/-- The outcome of a download whose first refusal is at chunk `i`. -/
theorem outcome_refused (hfit : chunks.flatten.length < 2 ^ 64) {i : Nat} (hi : i < chunks.length) {limit : Nat}
    {refusal : WriteRefusal} (hl : b.limit = some (limit, refusal)) (hroom : (bytesBefore chunks i).length ≤ limit)
    (hover : limit < (bytesBefore chunks (i + 1)).length)
    (hle : (bytesBefore chunks (i + 1)).length ≤ metadata.sizeBytes.toNat) :
    ∃ polls, downloadVerifiedInto sha metadata (.ok ⟨chunks, .ok ()⟩) b.writer =
      (.error (downloadWriteError refusal.toError), { b.writer with polls := polls, held := chunks.flatten.take limit },
        chunks.drop (i + 1)) := by
  have hall := bytesBefore_le chunks (i + 1)
  have hmono := bytesBefore_mono chunks (Nat.le_succ i)
  have hacc : b.accepts (bytesBefore chunks i).length := by
    intro limit' refusal' hl'
    rw [hl, Option.some.injEq, Prod.mk.injEq] at hl'
    omega
  refine outcome_failed sha b metadata chunks hfit hi (by omega) hacc _ _ ?_
  intro w hb hheld
  have htake : chunks.flatten.take limit = (bytesBefore chunks (i + 1)).take limit := by
    have hsplit : chunks.flatten = bytesBefore chunks (i + 1) ++ (chunks.drop (i + 1)).flatten := by
      unfold bytesBefore
      rw [← List.flatten_append, List.take_append_drop]
    rw [hsplit, List.take_append_of_le_length (Nat.le_of_lt hover)]
  rw [htake]
  rw [bytesBefore_succ chunks hi] at hover hall hle ⊢
  obtain ⟨polls, habsorb⟩ := absorb_refused (chunks.take i) chunks[i] w hheld (Nat.lt_of_le_of_lt hall hfit) hle
    (hb ▸ hl) hroom hover
  exact ⟨_, polls, habsorb⟩

/-- A property that holds at first and not at `n` has a last step before `n` at which it holds. -/
theorem exists_last {p : Nat → Prop} {n : Nat} (h0 : p 0) (hn : ¬p n) : ∃ i < n, p i ∧ ¬p (i + 1) := by
  induction n with
  | zero => exact absurd h0 hn
  | succ n ih =>
    by_cases hp : p n
    · exact ⟨n, Nat.lt_succ_self n, hp, hn⟩
    · obtain ⟨i, hi, h⟩ := ih hp
      exact ⟨i, Nat.lt_succ_of_lt hi, h⟩

/-- A download that is not read to its end has a first chunk that exceeds the expected size or the writer's room. -/
theorem exists_first_failure (h : ¬(chunks.flatten.length ≤ metadata.sizeBytes.toNat ∧ b.accepts chunks.flatten.length)) :
    ∃ i < chunks.length, (bytesBefore chunks i).length ≤ metadata.sizeBytes.toNat ∧
      b.accepts (bytesBefore chunks i).length ∧
      (metadata.sizeBytes.toNat < (bytesBefore chunks (i + 1)).length ∨
        (bytesBefore chunks (i + 1)).length ≤ metadata.sizeBytes.toNat ∧
          ∃ limit refusal, b.limit = some (limit, refusal) ∧ limit < (bytesBefore chunks (i + 1)).length) := by
  have hswitch := exists_last (p := fun i =>
      (bytesBefore chunks i).length ≤ metadata.sizeBytes.toNat ∧ b.accepts (bytesBefore chunks i).length)
    ⟨Nat.zero_le _, fun _ _ _ => Nat.zero_le _⟩ (n := chunks.length) (by rwa [bytesBefore_length])
  obtain ⟨i, hlt, hprev, hnext⟩ := hswitch
  refine ⟨i, hlt, hprev.1, hprev.2, ?_⟩
  by_cases hover : metadata.sizeBytes.toNat < (bytesBefore chunks (i + 1)).length
  · exact Or.inl hover
  · exact Or.inr ⟨Nat.le_of_not_lt hover, WriterBehaviour.exists_limit fun hacc => hnext ⟨Nat.le_of_not_lt hover, hacc⟩⟩

/-- A download that is not read to its end does not succeed. -/
theorem not_ok_of_failure (hfit : chunks.flatten.length < 2 ^ 64)
    (hall : ¬(chunks.flatten.length ≤ metadata.sizeBytes.toNat ∧ b.accepts chunks.flatten.length)) (n : UInt64) :
    (downloadVerifiedInto sha metadata (.ok ⟨chunks, .ok ()⟩) b.writer).1 ≠ .ok n := by
  obtain ⟨i, hi, hle, hacc, hover | ⟨hle', limit, refusal, hl, hlt⟩⟩ := exists_first_failure b metadata chunks hall
  · obtain ⟨polls, houtcome⟩ := outcome_overshoot sha b metadata chunks hfit hi hle hacc hover
    rw [houtcome]
    exact nofun
  · obtain ⟨polls, houtcome⟩ := outcome_refused sha b metadata chunks hfit hi hl (hacc limit refusal hl) hlt hle'
    rw [houtcome]
    exact nofun

end

end DownloadAux

open DownloadAux

/-- For every expected size and checksum, every finite sequence of chunks of fewer than `2 ^ 64` bytes in all and every
writer: when the verified download succeeds, what it leaves in the writer, and the order in which its errors are decided. -/
theorem downloadVerifiedInto_outcome (sha : Sha256) (metadata : FileMetadata) (chunks : List (List UInt8))
    (b : WriterBehaviour) (hfit : chunks.flatten.length < 2 ^ 64) :
    VerifiedOutcome sha metadata chunks b (downloadVerifiedInto sha metadata (.ok ⟨chunks, .ok ()⟩) b.writer) where
  ok_iff n := by
    by_cases hall : chunks.flatten.length ≤ metadata.sizeBytes.toNat ∧ b.accepts chunks.flatten.length
    · obtain ⟨polls, houtcome⟩ := outcome_ended sha b metadata chunks hfit hall.1 hall.2
      rw [houtcome, finish_after sha _ _ _ hfit hall.1]
      by_cases hlt : chunks.flatten.length < metadata.sizeBytes.toNat
      · rw [if_pos hlt]
        exact ⟨nofun, fun h => by omega⟩
      rw [if_neg hlt]
      by_cases hdigest : (sha.digest chunks.flatten).toList = metadata.checksum
      · rw [if_neg (not_not.2 hdigest)]
        cases hflush : b.flush with
        | error e => exact ⟨nofun, fun h => by simp at h⟩
        | ok u =>
          refine ⟨fun h => ⟨(Except.ok.inj h).symm, by omega, hdigest, hall.2, rfl⟩, fun h => by rw [h.1]⟩
      · rw [if_pos hdigest]
        exact ⟨nofun, fun h => absurd h.2.2.1 hdigest⟩
    · exact ⟨fun h => absurd h (not_ok_of_failure sha b metadata chunks hfit hall n),
        fun h => absurd ⟨Nat.le_of_eq h.2.1, h.2.2.2.1⟩ hall⟩
  ok_held n h := by
    by_cases hall : chunks.flatten.length ≤ metadata.sizeBytes.toNat ∧ b.accepts chunks.flatten.length
    · obtain ⟨polls, houtcome⟩ := outcome_ended sha b metadata chunks hfit hall.1 hall.2
      rw [houtcome]
    · exact absurd h (not_ok_of_failure sha b metadata chunks hfit hall n)
  overshoot i hi hle hacc hover := by
    obtain ⟨polls, houtcome⟩ := outcome_overshoot sha b metadata chunks hfit hi hle hacc hover
    rw [houtcome]
    exact ⟨rfl, rfl, rfl⟩
  refused i hi limit refusal hl hroom hlt hle := by
    obtain ⟨polls, houtcome⟩ := outcome_refused sha b metadata chunks hfit hi hl hroom hlt hle
    rw [houtcome]
    exact ⟨rfl, rfl, rfl⟩
  ended hle hacc := by
    obtain ⟨polls, houtcome⟩ := outcome_ended sha b metadata chunks hfit hle hacc
    rw [houtcome, finish_after sha _ _ _ hfit hle]
    refine ⟨rfl, rfl, ?_⟩
    by_cases hlt : chunks.flatten.length < metadata.sizeBytes.toNat
    · rw [if_pos hlt, if_pos hlt]
    · rw [if_neg hlt, if_neg hlt]
      by_cases hdigest : (sha.digest chunks.flatten).toList ≠ metadata.checksum
      · rw [if_pos hdigest, if_pos hdigest]
      · rw [if_neg hdigest, if_neg hdigest]
        cases b.flush <;> rfl

/-- A hasher that keeps its whole input until it is asked for the digest. -/
def Sha256.buffering (digest : List UInt8 → Digest) : Sha256 where
  State := List UInt8
  new := []
  update := fun input chunk => input ++ chunk
  finalize := digest
  digest := digest
  finalize_updates chunks := by
    have hfold : ∀ acc : List UInt8, chunks.foldl (fun input chunk => input ++ chunk) acc = acc ++ chunks.flatten := by
      induction chunks with
      | nil => simp
      | cons chunk rest ih => simp [ih, List.append_assoc]
    rw [hfold, List.nil_append]

/-- The SHA-256 digest of `abc`. -/
def abcDigest : Digest :=
  #v[0xba, 0x78, 0x16, 0xbf, 0x8f, 0x01, 0xcf, 0xea, 0x41, 0x41, 0x40, 0xde, 0x5d, 0xae, 0x22, 0x23,
    0xb0, 0x03, 0x61, 0xa3, 0x96, 0x17, 0x7a, 0x9c, 0xb4, 0x10, 0xff, 0x61, 0xf2, 0x00, 0x15, 0xad]

/-- The download of `abc` in two pieces and an empty one, into a writer that takes one byte at a time. -/
theorem downloadVerifiedInto_outcome_abc :
    let metadata : FileMetadata := { sizeBytes := 3, checksum := abcDigest.toList }
    let chunks : List (List UInt8) := [[97], [], [98, 99]]
    let b : WriterBehaviour := { takes := fun _ => some 0, limit := none, flush := .ok () }
    VerifiedOutcome (Sha256.buffering fun _ => abcDigest) metadata chunks b
      (downloadVerifiedInto (Sha256.buffering fun _ => abcDigest) metadata (.ok ⟨chunks, .ok ()⟩) b.writer) :=
  downloadVerifiedInto_outcome _ _ _ _ (by decide)

end RociaSdk

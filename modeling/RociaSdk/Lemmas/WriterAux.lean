import RociaSdk.Download

/-!
# What `write_all` leaves in a writer

However a writer slices what it accepts, `write_all` hands it the whole buffer when there is room for it, and otherwise what
there is room for.
-/

namespace RociaSdk

/-- The error `write_all` makes of a refusal. -/
def WriteRefusal.toError : WriteRefusal → IoError
  | .error e => e
  | .zero => writeZero

/-- Whether a writer accepts `n` bytes in all. -/
def WriterBehaviour.accepts (b : WriterBehaviour) (n : Nat) : Prop :=
  ∀ limit refusal, b.limit = some (limit, refusal) → n ≤ limit

/-- A writer that accepts more accepts less. -/
theorem WriterBehaviour.accepts.mono {b : WriterBehaviour} {m n : Nat} (h : b.accepts n) (hmn : m ≤ n) : b.accepts m :=
  fun limit refusal hl => Nat.le_trans hmn (h limit refusal hl)

/-- A writer that does not accept `n` bytes has a limit below `n`. -/
theorem WriterBehaviour.exists_limit {b : WriterBehaviour} {n : Nat} (h : ¬b.accepts n) :
    ∃ limit refusal, b.limit = some (limit, refusal) ∧ limit < n := by
  simp only [WriterBehaviour.accepts, not_forall, Nat.not_le] at h
  obtain ⟨limit, refusal, hl, hlt⟩ := h
  exact ⟨limit, refusal, hl, hlt⟩

namespace WriterAux

/-- A poll takes at least one byte of a buffer that is not empty, and no more than the buffer. -/
theorem most_bounds (w : Writer) {buf : List UInt8} (h : buf ≠ []) : 0 < w.most buf ∧ w.most buf ≤ buf.length := by
  have hpos := List.length_pos_iff.2 h
  unfold Writer.most
  split <;> omega

/-- A poll of a writer with room left accepts some bytes, within the room. -/
theorem pollWrite_accepts (w : Writer) {buf : List UInt8} (h : buf ≠ [])
    (hroom : ∀ limit refusal, w.behaviour.limit = some (limit, refusal) → w.held.length < limit) :
    ∃ n < buf.length, w.pollWrite buf = w.accept buf (n + 1) ∧ w.behaviour.accepts (w.held.length + (n + 1)) := by
  obtain ⟨hpos, hle⟩ := most_bounds w h
  unfold Writer.pollWrite
  cases hl : w.behaviour.limit with
  | none =>
    refine ⟨w.most buf - 1, by omega, ?_, ?_⟩
    · rw [Nat.sub_add_cancel hpos]
    · intro limit refusal hl'
      rw [hl] at hl'
      cases hl'
  | some p =>
    obtain ⟨limit, refusal⟩ := p
    have hlt := hroom limit refusal hl
    simp only [if_pos hlt]
    refine ⟨min (w.most buf) (limit - w.held.length) - 1, by omega, ?_, ?_⟩
    · rw [Nat.sub_add_cancel (by omega)]
    · intro limit' refusal' hl'
      rw [hl, Option.some.injEq, Prod.mk.injEq] at hl'
      omega

/-- The writer after `write_all` of a buffer it has room for. -/
theorem writeAll_accepts (w : Writer) (buf : List UInt8) (h : w.behaviour.accepts (w.held.length + buf.length)) :
    ∃ polls, w.writeAll buf = (.ok (), { w with polls := polls, held := w.held ++ buf }) := by
  induction hn : buf.length using Nat.strongRecOn generalizing w buf with
  | ind len ih =>
    cases buf with
    | nil => exact ⟨w.polls, by rw [Writer.writeAll, List.append_nil]⟩
    | cons b bs =>
      obtain ⟨n, hlt, hpoll, _⟩ := pollWrite_accepts w (List.cons_ne_nil b bs) fun limit refusal hl => by
        have := h limit refusal hl
        rw [List.length_cons] at this
        omega
      unfold Writer.writeAll
      rw [hpoll, Writer.accept]
      have htake : ((b :: bs).take (n + 1)).length = n + 1 := by
        rw [List.length_take]
        omega
      have hlen : (w.held ++ (b :: bs).take (n + 1)).length + (bs.drop n).length =
          w.held.length + (b :: bs).length := by
        rw [List.length_append, htake, List.length_drop, List.length_cons]
        rw [List.length_cons] at hlt
        omega
      obtain ⟨polls, heq⟩ := ih (bs.drop n).length (by rw [List.length_drop, ← hn, List.length_cons]; omega)
        { w with polls := w.polls + 1, held := w.held ++ (b :: bs).take (n + 1) } (bs.drop n) (hlen ▸ h) rfl
      refine ⟨polls, heq.trans ?_⟩
      rw [List.append_assoc, ← List.drop_succ_cons , List.take_append_drop]

/-- With no room left, `write_all` fails at its first poll. -/
theorem writeAll_full (w : Writer) (b : UInt8) (bs : List UInt8) {limit : Nat} {refusal : WriteRefusal}
    (hl : w.behaviour.limit = some (limit, refusal)) (hfull : w.held.length = limit) :
    w.writeAll (b :: bs) = (.error refusal.toError, { w with polls := w.polls + 1 }) := by
  have hroom : ¬w.held.length < limit := by omega
  unfold Writer.writeAll
  unfold Writer.pollWrite
  rw [hl]
  simp only [if_neg hroom]
  cases refusal with
  | error e => rfl
  | zero => simp [Writer.accept, WriteRefusal.toError]

/-- The writer after `write_all` of a buffer it has no room for: what there was room for is in it. -/
theorem writeAll_refuses (w : Writer) (buf : List UInt8) {limit : Nat} {refusal : WriteRefusal}
    (hl : w.behaviour.limit = some (limit, refusal)) (hle : w.held.length ≤ limit)
    (hover : limit < w.held.length + buf.length) :
    ∃ polls, w.writeAll buf =
      (.error refusal.toError, { w with polls := polls, held := w.held ++ buf.take (limit - w.held.length) }) := by
  induction hn : buf.length using Nat.strongRecOn generalizing w buf with
  | ind len ih =>
    cases buf with
    | nil => rw [List.length_nil] at hover; omega
    | cons b bs =>
      rcases Nat.lt_or_eq_of_le hle with hroom | hfull
      · obtain ⟨n, hlt, hpoll, hacc⟩ := pollWrite_accepts w (List.cons_ne_nil b bs) fun limit' refusal' hl' => by
          rw [hl, Option.some.injEq, Prod.mk.injEq] at hl'
          omega
        have hwithin := hacc limit refusal hl
        unfold Writer.writeAll
        rw [hpoll, Writer.accept]
        have htake : ((b :: bs).take (n + 1)).length = n + 1 := by
          rw [List.length_take]
          omega
        obtain ⟨polls, heq⟩ := ih (bs.drop n).length (by rw [List.length_drop, ← hn, List.length_cons]; omega)
          { w with polls := w.polls + 1, held := w.held ++ (b :: bs).take (n + 1) } (bs.drop n) hl
          (by rw [List.length_append, htake]; omega)
          (by
            rw [List.length_append, htake, List.length_drop]
            rw [List.length_cons] at hover hlt
            omega) rfl
        refine ⟨polls, heq.trans ?_⟩
        have hsplit : (b :: bs).take (limit - w.held.length) =
            (b :: bs).take (n + 1) ++ (bs.drop n).take (limit - (w.held.length + (n + 1))) := by
          rw [show limit - w.held.length = (n + 1) + (limit - (w.held.length + (n + 1))) by omega, List.take_add,
            List.drop_succ_cons]
        rw [hsplit, List.append_assoc, List.length_append, htake]
      · refine ⟨w.polls + 1, (writeAll_full w b bs hl hfull).trans ?_⟩
        rw [hfull, Nat.sub_self, List.take_zero, List.append_nil]

end WriterAux

end RociaSdk

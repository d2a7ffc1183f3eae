import RociaSdk.Lemmas.RechunkRun

/-!
# What a finite source delivers

`deliveredBytes` are the bytes of the items before the first failure of a finite source, or before its end. The lemmas relate
them to the bytes of its first polls.
-/

namespace RociaSdk

/-- An item that is a byte piece, not a failure. -/
def isPiece : Except IoError Bytes → Bool
  | .ok _ => true
  | .error _ => false

/-- The bytes of an item. -/
def itemBytes : Except IoError Bytes → List UInt8
  | .ok piece => piece.data
  | .error _ => []

/-- The bytes a finite source delivers before its first failure, or before its end. -/
def deliveredBytes (items : List (Except IoError Bytes)) : List UInt8 := (items.takeWhile isPiece).flatMap itemBytes

/-- The first failure of a finite source. -/
def firstFailure : List (Except IoError Bytes) → Option IoError
  | [] => none
  | .ok _ :: rest => firstFailure rest
  | .error error :: _ => some error

namespace SourceAux

theorem ofList_zero (item : Except IoError Bytes) (items : List (Except IoError Bytes)) :
    Source.ofList (item :: items) 0 = some item := rfl

/-- The bytes of the first `n` polls are those of the first `n` items. -/
theorem ofList_bytes (items : List (Except IoError Bytes)) (n : Nat) :
    (Source.ofList items).bytes n = (items.take n).flatMap itemBytes := by
  induction n with
  | zero => simp [Source.bytes]
  | succ n ih =>
    unfold Source.bytes
    rw [ih, List.take_add_one, List.flatMap_append]
    congr 1
    unfold Source.ofList
    cases h : items[n]? with
    | none => rfl
    | some item => cases item <;> simp [itemBytes]

/-- As long as the polls yield pieces, they are the items before the first failure. -/
theorem take_isPrefix {items : List (Except IoError Bytes)} {n : Nat}
    (hok : ∀ i < n, ∃ piece, Source.ofList items i = some (.ok piece)) : items.take n <+: items.takeWhile isPiece := by
  induction items generalizing n with
  | nil => simp
  | cons item rest ih =>
    cases n with
    | zero => simp
    | succ n =>
      obtain ⟨piece, hp⟩ := hok 0 (Nat.succ_pos n)
      rw [ofList_zero, Option.some.injEq] at hp
      subst hp
      rw [List.take_succ_cons, List.takeWhile_cons_of_pos rfl, List.prefix_cons_inj]
      exact ih fun i hi => hok (i + 1) (Nat.succ_lt_succ hi)

/-- The bytes of polls that yield pieces come first among those delivered. -/
theorem bytes_isPrefix {items : List (Except IoError Bytes)} {n : Nat}
    (hok : ∀ i < n, ∃ piece, Source.ofList items i = some (.ok piece)) :
    (Source.ofList items).bytes n <+: deliveredBytes items := by
  obtain ⟨later, hlater⟩ := take_isPrefix hok
  rw [ofList_bytes, deliveredBytes, ← hlater, List.flatMap_append]
  exact List.prefix_append _ _

/-- The polls before the first that yields no piece are the items before the first failure. -/
theorem take_eq_takeWhile {items : List (Except IoError Bytes)} {k : Nat}
    (hok : ∀ i < k, ∃ piece, Source.ofList items i = some (.ok piece))
    (hend : ∀ piece, Source.ofList items k ≠ some (.ok piece)) : items.take k = items.takeWhile isPiece := by
  induction items generalizing k with
  | nil => simp
  | cons item rest ih =>
    cases k with
    | zero =>
      cases item with
      | ok piece => exact absurd rfl (hend piece)
      | error e => rfl
    | succ k =>
      obtain ⟨piece, hp⟩ := hok 0 (Nat.succ_pos k)
      rw [ofList_zero, Option.some.injEq] at hp
      subst hp
      rw [List.take_succ_cons, List.takeWhile_cons_of_pos rfl]
      congr 1
      exact ih (fun i hi => hok (i + 1) (Nat.succ_lt_succ hi)) hend

/-- The bytes of the polls before the first that yields no piece are those delivered. -/
theorem bytes_eq_delivered {items : List (Except IoError Bytes)} {k : Nat}
    (hok : ∀ i < k, ∃ piece, Source.ofList items i = some (.ok piece))
    (hend : ∀ piece, Source.ofList items k ≠ some (.ok piece)) :
    (Source.ofList items).bytes k = deliveredBytes items := by
  rw [ofList_bytes, take_eq_takeWhile hok hend]
  rfl

/-- The first poll that yields no piece yields the first failure, or the end when there is none. -/
theorem poll_eq_firstFailure {items : List (Except IoError Bytes)} {k : Nat}
    (hok : ∀ i < k, ∃ piece, Source.ofList items i = some (.ok piece))
    (hend : ∀ piece, Source.ofList items k ≠ some (.ok piece)) :
    Source.ofList items k = (firstFailure items).map .error := by
  induction items generalizing k with
  | nil => rfl
  | cons item rest ih =>
    cases k with
    | zero =>
      cases item with
      | ok piece => exact absurd rfl (hend piece)
      | error e => rfl
    | succ k =>
      obtain ⟨piece, hp⟩ := hok 0 (Nat.succ_pos k)
      rw [ofList_zero, Option.some.injEq] at hp
      subst hp
      exact ih (fun i hi => hok (i + 1) (Nat.succ_lt_succ hi)) hend

/-- A poll past the items yields none. -/
theorem ofList_length (items : List (Except IoError Bytes)) : Source.ofList items items.length = none :=
  List.getElem?_eq_none (Nat.le_refl _)

/-- A source of equal pieces delivers all of them. -/
theorem deliveredBytes_replicate (n : Nat) (piece : Bytes) :
    (deliveredBytes (List.replicate n (.ok piece))).length = n * piece.data.length := by
  unfold deliveredBytes
  rw [List.takeWhile_replicate, if_pos (by rfl), List.flatMap_replicate, List.length_flatten]
  simp [itemBytes]

end SourceAux

end RociaSdk

import Mathlib.Data.List.Forall2
import RociaSdk.Lib.Transition

/-!
# A buffer of futures that keeps their order

`Buffered` makes a future for each item of a list, has a bounded number of them under way, and gives their outcomes in the order
of the items, whatever order they complete in. The values it gives are collected up to the first error, which ends everything.
`collects_iff` says what comes of it, and `Inv.under_way` that the bound is kept.
-/

namespace Buffering

/-- A buffer of futures whose values are being collected. -/
structure Buffered (ι β ε : Type) where
  /-- The items whose futures have not been started. -/
  waiting : List ι
  /-- The futures that have, in the order of the items, with the outcomes of those that have completed. -/
  queue : List (ι × Option (Except ε β))
  collected : List β
  result : Option (Except ε (List β))

namespace Buffered

variable {ι β ε : Type}

/-- A buffer with no future started. -/
def new (items : List ι) : Buffered ι β ε := { waiting := items, queue := [], collected := [], result := none }

/-- What can happen. -/
inductive Event where
  /-- The next future is started. -/
  | start
  /-- A future under way completes. -/
  | complete (index : Nat)
  /-- The first future of the queue has completed and is given. -/
  | yield
  /-- All of them have been given. -/
  | finish

/-- What an event does, if it can happen. -/
def step (limit : Nat) (outcome : ι → Except ε β) (b : Buffered ι β ε) : Event → Option (Buffered ι β ε)
  | .start =>
    match b.result, b.waiting with
    | none, item :: rest =>
      if b.queue.length < limit then some { b with waiting := rest, queue := b.queue ++ [(item, none)] } else none
    | _, _ => none
  | .complete index =>
    match b.result, b.queue[index]? with
    | none, some (item, none) => some { b with queue := b.queue.set index (item, some (outcome item)) }
    | _, _ => none
  | .yield =>
    match b.result, b.queue with
    | none, (_, some (.ok value)) :: rest => some { b with queue := rest, collected := b.collected ++ [value] }
    | none, (_, some (.error e)) :: _ => some { b with waiting := [], queue := [], result := some (.error e) }
    | _, _ => none
  | .finish =>
    match b.result, b.waiting, b.queue with
    | none, [], [] => some { b with result := some (.ok b.collected) }
    | _, _, _ => none

/-- What the buffer of a list of items can come to, in some order of events. -/
def Collects (limit : Nat) (outcome : ι → Except ε β) (items : List ι) (result : Except ε (List β)) : Prop :=
  ∃ b, Transition.Reaches (step limit outcome) (new items) b ∧ b.result = some result

variable {limit : Nat} {outcome : ι → Except ε β} {items : List ι} {b b' : Buffered ι β ε} {e : Event}

/-! ## The invariant -/

/-- What holds of the buffer of a list of items in every state of a run. -/
structure Inv (limit : Nat) (outcome : ι → Except ε β) (items : List ι) (b : Buffered ι β ε) : Prop where
  under_way : b.queue.length ≤ limit
  completed : ∀ item o, (item, some o) ∈ b.queue → o = outcome item
  /-- What has been given is what the first items come to, and the others are in the queue or wait. -/
  given : b.result = none → ∃ done, items = done ++ b.queue.map Prod.fst ++ b.waiting ∧ done.mapM outcome = .ok b.collected
  ended : ∀ r, b.result = some r → r = items.mapM outcome

/-- One future more that gave a value. -/
theorem mapM_concat {done : List ι} {values : List β} {item : ι} {value : β} (h : done.mapM outcome = .ok values)
    (hvalue : outcome item = .ok value) : (done ++ [item]).mapM outcome = .ok (values ++ [value]) := by
  simp only [List.mapM_append, h, List.mapM_cons, List.mapM_nil, hvalue]
  rfl

/-- The first future that gave an error is what everything comes to. -/
theorem mapM_error {done rest : List ι} {values : List β} {item : ι} {err : ε} (h : done.mapM outcome = .ok values)
    (herr : outcome item = .error err) : (done ++ item :: rest).mapM outcome = .error err := by
  simp only [List.mapM_append, h, List.mapM_cons, herr]
  rfl

/-- Every event keeps the invariant. -/
theorem Inv.step (h : b.Inv limit outcome items) (hs : b.step limit outcome e = some b') : b'.Inv limit outcome items := by
  cases e with
  | start =>
    simp only [Buffered.step] at hs
    split at hs
    · rename_i item rest hlive hwaiting
      split at hs
      · rename_i hroom
        cases hs
        refine ⟨by simp only [List.length_append, List.length_cons, List.length_nil]; omega, ?_, ?_, ?_⟩
        · intro item' o hmem
          simp only [List.mem_append, List.mem_singleton, Prod.mk.injEq, reduceCtorEq, and_false, or_false] at hmem
          exact h.completed item' o hmem
        · intro _
          obtain ⟨done, hitems, hdone⟩ := h.given hlive
          exact ⟨done, by simp [hitems, hwaiting], hdone⟩
        · intro r hr
          cases hlive.symm.trans hr
      · cases hs
    · cases hs
  | complete index =>
    simp only [Buffered.step] at hs
    split at hs
    · rename_i item hlive hitem
      cases hs
      refine ⟨by simpa using h.under_way, ?_, ?_, ?_⟩
      · intro item' o hmem
        rcases List.mem_or_eq_of_mem_set hmem with hmem | heq
        · exact h.completed item' o hmem
        · cases heq
          rfl
      · intro _
        obtain ⟨done, hitems, hdone⟩ := h.given hlive
        refine ⟨done, ?_, hdone⟩
        -- The future keeps its place, so the order of the items is as it was.
        have hplace : (b.queue.map Prod.fst)[index]? = some item := by simp [hitem]
        obtain ⟨hlt, hget⟩ := List.getElem?_eq_some_iff.1 hplace
        have hsame : (b.queue.map Prod.fst).set index item = b.queue.map Prod.fst := by
          rw [← hget, List.set_getElem_self]
        rw [hitems, List.map_set, hsame]
      · intro r hr
        cases hlive.symm.trans hr
    · cases hs
  | yield =>
    simp only [Buffered.step] at hs
    split at hs
    · rename_i item value rest hlive hqueue
      cases hs
      have hvalue : outcome item = .ok value := (h.completed item _ (by rw [hqueue]; exact List.mem_cons_self ..)).symm
      have hlen := h.under_way
      rw [hqueue, List.length_cons] at hlen
      refine ⟨by show rest.length ≤ limit; omega, ?_, ?_, ?_⟩
      · intro item' o hmem
        exact h.completed item' o (by rw [hqueue]; exact List.mem_cons_of_mem _ hmem)
      · intro _
        obtain ⟨done, hitems, hdone⟩ := h.given hlive
        exact ⟨done ++ [item], by simp [hitems, hqueue], mapM_concat hdone hvalue⟩
      · intro r hr
        cases hlive.symm.trans hr
    · rename_i item err rest hlive hqueue
      cases hs
      have herr : outcome item = .error err := (h.completed item _ (by rw [hqueue]; exact List.mem_cons_self ..)).symm
      refine ⟨Nat.zero_le _, nofun, nofun, ?_⟩
      intro r hr
      cases hr
      obtain ⟨done, hitems, hdone⟩ := h.given hlive
      have hsplit : items = done ++ item :: (rest.map Prod.fst ++ b.waiting) := by simp [hitems, hqueue]
      rw [hsplit, mapM_error hdone herr]
    · cases hs
  | finish =>
    simp only [Buffered.step] at hs
    split at hs
    · rename_i hlive hwaiting hqueue
      cases hs
      refine ⟨h.under_way, h.completed, nofun, ?_⟩
      intro r hr
      cases hr
      obtain ⟨done, hitems, hdone⟩ := h.given hlive
      have hall : items = done := by simp [hitems, hwaiting, hqueue]
      rw [hall, hdone]
    · cases hs

/-- A new buffer satisfies the invariant. -/
theorem inv_new (limit : Nat) (outcome : ι → Except ε β) (items : List ι) : (new items).Inv limit outcome items where
  under_way := Nat.zero_le _
  completed := nofun
  given _ := ⟨[], rfl, rfl⟩
  ended := nofun

/-- A run keeps the invariant. -/
theorem inv_of_reaches (h : Transition.Reaches (step limit outcome) (new items) b) : b.Inv limit outcome items :=
  h.invariant (Inv limit outcome items) (inv_new limit outcome items) fun _ _ _ ht _ hs => ht.step hs

/-! ## Progress -/

/-- A future that has not completed. -/
def unfinished : ι × Option (Except ε β) → Bool
  | (_, none) => true
  | _ => false

/-- What is left to do. -/
def work (b : Buffered ι β ε) : Nat := 4 * b.waiting.length + 2 * b.queue.length + b.queue.countP unfinished

/-- As long as there is no result, something can happen that brings it nearer. -/
theorem progress (outcome : ι → Except ε β) (hpos : 0 < limit) (hlive : b.result = none) :
    ∃ e b', b.step limit outcome e = some b' ∧ (b'.result = none → b'.work < b.work) := by
  cases hqueue : b.queue with
  | nil =>
    cases hwaiting : b.waiting with
    | nil =>
      refine ⟨.finish, { b with result := some (.ok b.collected) }, by simp only [Buffered.step, hlive, hwaiting, hqueue], ?_⟩
      intro hnone
      cases hnone
    | cons item rest =>
      refine ⟨.start, { b with waiting := rest, queue := b.queue ++ [(item, none)] }, ?_, ?_⟩
      · simp only [Buffered.step, hlive, hwaiting, hqueue, List.length_nil, if_pos hpos]
      · intro _
        have hopen : unfinished (item, (none : Option (Except ε β))) = true := rfl
        simp only [work, hwaiting, hqueue, List.nil_append, List.length_cons, List.length_nil, List.countP_cons, List.countP_nil,
          hopen]
        simp
        omega
  | cons first rest =>
    obtain ⟨item, o⟩ := first
    cases o with
    | none =>
      have hfirst : b.queue[0]? = some (item, none) := by rw [hqueue]; rfl
      refine ⟨.complete 0, { b with queue := b.queue.set 0 (item, some (outcome item)) }, ?_, ?_⟩
      · simp only [Buffered.step, hlive, hfirst]
      · intro _
        have hdone : unfinished (item, some (outcome item)) = false := rfl
        have hopen : unfinished (item, (none : Option (Except ε β))) = true := rfl
        simp only [work, hqueue, List.set_cons_zero, List.length_cons, List.countP_cons, hdone, hopen]
        simp
    | some o =>
      cases o with
      | ok value =>
        refine ⟨.yield, { b with queue := rest, collected := b.collected ++ [value] }, ?_, ?_⟩
        · simp only [Buffered.step, hlive, hqueue]
        · intro _
          have hdone : unfinished (item, some (Except.ok (ε := ε) value)) = false := rfl
          simp only [work, hqueue, List.length_cons, List.countP_cons, hdone]
          simp
      | error err =>
        refine ⟨.yield, { b with waiting := [], queue := [], result := some (.error err) }, ?_, ?_⟩
        · simp only [Buffered.step, hlive, hqueue]
        · intro hnone
          cases hnone

/-- From every state of a run there is a way to a result. -/
theorem Inv.finishes (h : b.Inv limit outcome items) (hpos : 0 < limit) :
    ∃ b' r, Transition.Reaches (Buffered.step limit outcome) b b' ∧ b'.result = some r := by
  induction hwork : b.work using Nat.strongRecOn generalizing b with
  | ind n ih =>
    cases hlive : b.result with
    | some r => exact ⟨b, r, .refl, hlive⟩
    | none =>
      obtain ⟨e, b', hs, hless⟩ := progress outcome hpos hlive
      have hrun : Transition.Reaches (Buffered.step limit outcome) b b' := Transition.Run.refl.tail e trivial hs
      cases hlive' : b'.result with
      | some r => exact ⟨b', r, hrun, hlive'⟩
      | none =>
        obtain ⟨b'', r, hrun', hr⟩ := ih b'.work (by rw [← hwork]; exact hless hlive') (h.step hs) rfl
        exact ⟨b'', r, hrun.trans hrun', hr⟩

/-- Whatever order the futures complete in, the buffer comes to the values of all items in their order, or to the first error
among them. -/
theorem collects_iff (hpos : 0 < limit) (outcome : ι → Except ε β) (items : List ι) (result : Except ε (List β)) :
    Collects limit outcome items result ↔ result = items.mapM outcome := by
  constructor
  · rintro ⟨b, hrun, hr⟩
    exact (inv_of_reaches hrun).ended result hr
  · rintro rfl
    obtain ⟨b, r, hrun, hr⟩ := (inv_new limit outcome items).finishes hpos
    have heq : r = items.mapM outcome := (inv_of_reaches hrun).ended r hr
    exact ⟨b, hrun, by rw [hr, heq]⟩

/-! ## What is collected -/

/-- Values are collected when each item gives its own. -/
theorem mapM_ok_iff {values : List β} :
    items.mapM outcome = .ok values ↔ List.Forall₂ (fun item value => outcome item = .ok value) items values := by
  induction items generalizing values with
  | nil =>
    rw [List.mapM_nil, List.forall₂_nil_left_iff]
    exact ⟨fun h => (Except.ok.inj h).symm, fun h => by rw [h]; rfl⟩
  | cons item items ih =>
    rw [List.mapM_cons, List.forall₂_cons_left_iff]
    cases hitem : outcome item with
    | error e =>
      refine ⟨nofun, ?_⟩
      rintro ⟨value, _, hvalue, _⟩
      cases hvalue
    | ok value =>
      cases hitems : items.mapM outcome with
      | error e =>
        refine ⟨nofun, ?_⟩
        rintro ⟨_, rest, _, hrest, _⟩
        rw [← ih, hitems] at hrest
        cases hrest
      | ok rest =>
        constructor
        · intro h
          cases h
          exact ⟨value, rest, rfl, ih.1 hitems, rfl⟩
        · rintro ⟨value', rest', hvalue, hrest, rfl⟩
          cases hvalue
          rw [← ih, hitems] at hrest
          cases hrest
          rfl

/-- What is collected of two lists, one after the other. -/
theorem mapM_append_ok_iff {first rest : List ι} {values : List β} :
    (first ++ rest).mapM outcome = .ok values ↔
      ∃ firstValues restValues, first.mapM outcome = .ok firstValues ∧ rest.mapM outcome = .ok restValues ∧
        values = firstValues ++ restValues := by
  rw [List.mapM_append]
  cases hfirst : first.mapM outcome with
  | error e =>
    refine ⟨nofun, ?_⟩
    rintro ⟨_, _, heq, _⟩
    cases heq
  | ok firstValues =>
    cases hrest : rest.mapM outcome with
    | error e =>
      refine ⟨nofun, ?_⟩
      rintro ⟨_, _, _, heq, _⟩
      cases heq
    | ok restValues =>
      constructor
      · intro h
        cases h
        exact ⟨_, _, rfl, rfl, rfl⟩
      · rintro ⟨_, _, heq, heq', rfl⟩
        cases heq
        cases heq'
        rfl

/-- There is an error when some item gives one. -/
theorem mapM_error_iff : (∃ e, items.mapM outcome = .error e) ↔ ∃ item ∈ items, ∃ e, outcome item = .error e := by
  induction items with
  | nil =>
    refine ⟨?_, fun ⟨_, hmem, _⟩ => absurd hmem List.not_mem_nil⟩
    rintro ⟨e, he⟩
    cases he
  | cons item items ih =>
    rw [List.mapM_cons, List.exists_mem_cons_iff, ← ih]
    cases hitem : outcome item with
    | error e => exact ⟨fun _ => .inl ⟨e, rfl⟩, fun _ => ⟨e, rfl⟩⟩
    | ok value =>
      cases hitems : items.mapM outcome with
      | error e => exact ⟨fun _ => .inr ⟨e, rfl⟩, fun _ => ⟨e, rfl⟩⟩
      | ok rest =>
        constructor
        · rintro ⟨e, he⟩
          cases he
        · rintro (⟨e, he⟩ | ⟨e, he⟩)
          · cases he
          · cases he

end Buffered

end Buffering

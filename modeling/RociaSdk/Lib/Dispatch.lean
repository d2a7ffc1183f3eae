import Mathlib.Data.List.Nodup
import Mathlib.Logic.Function.Basic
import RociaSdk.Lib.Transition

/-!
# Groups dispatched with bounded concurrency

A `Dispatch` works through groups of items, a bounded number of groups at a time: it starts groups in the order of a stream,
issues the items of a running group one by one, each after the acknowledgement of the one before, and stops everything on the
first failure. A group is named by a key. `issued` and `acked` record what has been issued and acknowledged of each group and
are read by no step.
-/

namespace Dispatching

/-- How far a dispatch is. -/
inductive Status (ε : Type) where
  | live
  | returned (result : Except ε Unit)
  | dropped

/-- A dispatch of groups of items of type `ι`, named by keys of type `κ`. -/
structure Dispatch (κ ι ε : Type) where
  /-- The groups not started yet, in stream order. -/
  pending : List κ
  /-- The groups under way. -/
  running : List κ
  /-- The items of a group that have not been acknowledged. -/
  todo : κ → List ι
  /-- Whether the first of them is in flight. -/
  inFlight : κ → Bool
  status : Status ε
  issued : κ → List ι
  acked : κ → List ι

namespace Dispatch

variable {κ ι ε : Type} [DecidableEq κ]

/-- A dispatch of the groups of a stream, none of them started. -/
def new (order : List κ) (group : κ → List ι) : Dispatch κ ι ε :=
  { pending := order, running := [], todo := group, inFlight := fun _ => false, status := .live,
    issued := fun _ => [], acked := fun _ => [] }

/-- A dispatch that returned an error before it started anything. -/
def refused (e : ε) : Dispatch κ ι ε :=
  { pending := [], running := [], todo := fun _ => [], inFlight := fun _ => false, status := .returned (.error e),
    issued := fun _ => [], acked := fun _ => [] }

/-- Drop every group, with the status that ends the dispatch. -/
def close (d : Dispatch κ ι ε) (status : Status ε) : Dispatch κ ι ε :=
  { d with pending := [], running := [], inFlight := fun _ => false, status := status }

/-- Start the next group of the stream, if fewer than `limit` are running. -/
def start (limit : Nat) (d : Dispatch κ ι ε) : Option (Dispatch κ ι ε) :=
  match d.status, d.pending with
  | .live, key :: rest => if d.running.length < limit then some { d with pending := rest, running := key :: d.running } else none
  | _, _ => none

/-- Issue the next item of a running group. -/
def issue (d : Dispatch κ ι ε) (key : κ) : Option (Dispatch κ ι ε) :=
  match d.status, d.todo key with
  | .live, item :: _ =>
    if key ∈ d.running ∧ d.inFlight key = false then
      some { d with
        inFlight := Function.update d.inFlight key true
        issued := Function.update d.issued key (d.issued key ++ [item]) }
    else none
  | _, _ => none

/-- The item in flight is acknowledged. -/
def ack (d : Dispatch κ ι ε) (key : κ) : Option (Dispatch κ ι ε) :=
  match d.status, d.inFlight key, d.todo key with
  | .live, true, item :: rest =>
    some { d with
      todo := Function.update d.todo key rest
      inFlight := Function.update d.inFlight key false
      acked := Function.update d.acked key (d.acked key ++ [item]) }
  | _, _, _ => none

/-- The item in flight fails: the dispatch returns the error and drops everything. -/
def fail (d : Dispatch κ ι ε) (key : κ) (e : ε) : Option (Dispatch κ ι ε) :=
  match d.status, d.inFlight key with
  | .live, true => some (d.close (.returned (.error e)))
  | _, _ => none

/-- A running group with nothing left is done. -/
def finish (d : Dispatch κ ι ε) (key : κ) : Option (Dispatch κ ι ε) :=
  match d.status, d.todo key with
  | .live, [] => if key ∈ d.running then some { d with running := d.running.erase key } else none
  | _, _ => none

/-- With no group left, the dispatch returns. -/
def complete (d : Dispatch κ ι ε) : Option (Dispatch κ ι ε) :=
  match d.status, d.pending, d.running with
  | .live, [], [] => some (d.close (.returned (.ok ())))
  | _, _, _ => none

/-- The dispatch is dropped. -/
def drop (d : Dispatch κ ι ε) : Option (Dispatch κ ι ε) :=
  match d.status with
  | .live => some (d.close .dropped)
  | _ => none

end Dispatch

/-! ## What a step of the client can do -/

namespace Dispatch

variable {κ ι ε : Type} [DecidableEq κ] {limit : Nat} {d d' : Dispatch κ ι ε} {key : κ}

/-- What each step of the client does, and when. -/
inductive Step (limit : Nat) (d : Dispatch κ ι ε) : Dispatch κ ι ε → Prop where
  | start (key : κ) (rest : List κ) (hlive : d.status = .live) (hpending : d.pending = key :: rest)
      (hroom : d.running.length < limit) : Step limit d { d with pending := rest, running := key :: d.running }
  | issue (key : κ) (item : ι) (rest : List ι) (hlive : d.status = .live) (hrunning : key ∈ d.running)
      (hidle : d.inFlight key = false) (htodo : d.todo key = item :: rest) :
      Step limit d
        { d with
          inFlight := Function.update d.inFlight key true
          issued := Function.update d.issued key (d.issued key ++ [item]) }
  | ack (key : κ) (item : ι) (rest : List ι) (hlive : d.status = .live) (hflight : d.inFlight key = true)
      (htodo : d.todo key = item :: rest) :
      Step limit d
        { d with
          todo := Function.update d.todo key rest
          inFlight := Function.update d.inFlight key false
          acked := Function.update d.acked key (d.acked key ++ [item]) }
  | finish (key : κ) (hlive : d.status = .live) (hrunning : key ∈ d.running) (htodo : d.todo key = []) :
      Step limit d { d with running := d.running.erase key }
  | complete (hlive : d.status = .live) (hpending : d.pending = []) (hrunning : d.running = []) :
      Step limit d (d.close (.returned (.ok ())))
  | close (status : Status ε) (hlive : d.status = .live) (hne : status ≠ .live) (hok : status ≠ .returned (.ok ())) :
      Step limit d (d.close status)

omit [DecidableEq κ] in
theorem step_start (h : d.start limit = some d') :
    ∃ key rest, d.status = .live ∧ d.pending = key :: rest ∧ d.running.length < limit ∧
      d' = { d with pending := rest, running := key :: d.running } := by
  unfold start at h
  split at h
  · rename_i key rest hlive hpending
    split at h
    · cases h
      exact ⟨key, rest, hlive, hpending, ‹_›, rfl⟩
    · cases h
  · cases h

theorem step_issue (h : d.issue key = some d') :
    ∃ item rest, d.status = .live ∧ key ∈ d.running ∧ d.inFlight key = false ∧ d.todo key = item :: rest ∧
      d' = { d with
        inFlight := Function.update d.inFlight key true
        issued := Function.update d.issued key (d.issued key ++ [item]) } := by
  unfold issue at h
  split at h
  · rename_i item rest hlive htodo
    split at h
    · rename_i hcan
      cases h
      exact ⟨item, rest, hlive, hcan.1, hcan.2, htodo, rfl⟩
    · cases h
  · cases h

theorem step_ack (h : d.ack key = some d') :
    ∃ item rest, d.status = .live ∧ d.inFlight key = true ∧ d.todo key = item :: rest ∧
      d' = { d with
        todo := Function.update d.todo key rest
        inFlight := Function.update d.inFlight key false
        acked := Function.update d.acked key (d.acked key ++ [item]) } := by
  unfold ack at h
  split at h
  · rename_i item rest hlive hflight htodo
    cases h
    exact ⟨item, rest, hlive, hflight, htodo, rfl⟩
  · cases h

omit [DecidableEq κ] in
theorem step_fail {e : ε} (h : d.fail key e = some d') :
    d.status = .live ∧ d.inFlight key = true ∧ d' = d.close (.returned (.error e)) := by
  unfold fail at h
  split at h
  · rename_i hlive hflight
    cases h
    exact ⟨hlive, hflight, rfl⟩
  · cases h

theorem step_finish (h : d.finish key = some d') :
    d.status = .live ∧ key ∈ d.running ∧ d.todo key = [] ∧ d' = { d with running := d.running.erase key } := by
  unfold finish at h
  split at h
  · rename_i hlive htodo
    split at h
    · cases h
      exact ⟨hlive, ‹_›, htodo, rfl⟩
    · cases h
  · cases h

omit [DecidableEq κ] in
theorem step_complete (h : d.complete = some d') :
    d.status = .live ∧ d.pending = [] ∧ d.running = [] ∧ d' = d.close (.returned (.ok ())) := by
  unfold complete at h
  split at h
  · cases h
    exact ⟨‹_›, ‹_›, ‹_›, rfl⟩
  · cases h

omit [DecidableEq κ] in
theorem step_drop (h : d.drop = some d') : d.status = .live ∧ d' = d.close .dropped := by
  unfold drop at h
  split at h
  · cases h
    exact ⟨‹_›, rfl⟩
  · cases h

/-! ## The invariant of the client -/

/-- What holds of a dispatch of these groups in every state of a run. -/
structure Inv (limit : Nat) (group : κ → List ι) (d : Dispatch κ ι ε) : Prop where
  nodup : (d.pending ++ d.running).Nodup
  running_le : d.running.length ≤ limit
  flight_running : ∀ k, d.inFlight k = true → k ∈ d.running
  split : ∀ k, d.acked k ++ d.todo k = group k
  issued : ∀ k, d.issued k = d.acked k ∨ ∃ item, d.issued k = d.acked k ++ [item] ∧ (d.todo k).head? = some item
  idle : d.status = .live → ∀ k, d.inFlight k = false → d.issued k = d.acked k
  flying : ∀ k, d.inFlight k = true → ∃ item, d.issued k = d.acked k ++ [item] ∧ (d.todo k).head? = some item
  left : d.status = .live → ∀ k, k ∉ d.pending → k ∉ d.running → d.todo k = []
  done : d.status = .returned (.ok ()) → ∀ k, d.todo k = []
  closed : d.status ≠ .live → ∀ k, d.inFlight k = false

omit [DecidableEq κ] in
/-- A new dispatch satisfies the invariant, when the stream names every group that has items once. -/
theorem inv_new {order : List κ} {group : κ → List ι} (hnodup : order.Nodup) (horder : ∀ k, k ∉ order → group k = []) :
    (new order group : Dispatch κ ι ε).Inv limit group where
  nodup := by simpa [new] using hnodup
  running_le := Nat.zero_le _
  flight_running k h := by cases h
  split k := rfl
  issued k := Or.inl rfl
  idle _ k _ := rfl
  flying k h := by cases h
  left _ k hk _ := horder k hk
  done h := by cases h
  closed _ k := rfl

omit [DecidableEq κ] in
/-- Closing keeps the invariant, if it says `Ok` only with nothing left. -/
theorem Inv.close {group : κ → List ι} (h : d.Inv limit group) {status : Status ε}
    (hne : status ≠ .live) (hok : status = .returned (.ok ()) → ∀ k, d.todo k = []) : (d.close status).Inv limit group where
  nodup := List.nodup_nil
  running_le := Nat.zero_le _
  flight_running k hk := by cases hk
  split := h.split
  issued := h.issued
  idle hs := absurd hs hne
  flying k hk := by cases hk
  left hs := absurd hs hne
  done := hok
  closed _ k := rfl

/-- Every step of the client keeps the invariant. -/
theorem Step.inv {group : κ → List ι} (hs : d.Step limit d') (h : d.Inv limit group) : d'.Inv limit group := by
  cases hs with
  | start key rest hlive hpending hroom =>
    have hnodup := h.nodup
    rw [hpending] at hnodup
    refine ⟨List.nodup_middle.2 hnodup, hroom, fun k hk => List.mem_cons_of_mem _ (h.flight_running k hk), h.split, h.issued,
      h.idle, h.flying, ?_, h.done, h.closed⟩
    intro _ k hp hr
    rw [List.mem_cons, not_or] at hr
    refine h.left hlive k (?_) hr.2
    intro hk
    rw [hpending, List.mem_cons] at hk
    exact hk.elim hr.1 hp
  | issue key item rest hlive hrunning hidle htodo =>
    have hkey : d.issued key = d.acked key := h.idle hlive key hidle
    have hflying : ∀ k, Function.update d.inFlight key true k = true →
        ∃ item', Function.update d.issued key (d.issued key ++ [item]) k = d.acked k ++ [item'] ∧
          (d.todo k).head? = some item' := by
      intro k hk
      by_cases heq : k = key
      · subst heq
        exact ⟨item, by rw [Function.update_self, hkey], by rw [htodo]; rfl⟩
      · rw [Function.update_of_ne heq] at hk ⊢
        exact h.flying k hk
    refine ⟨h.nodup, h.running_le, ?_, h.split, ?_, ?_, hflying, h.left, h.done, fun hne => absurd hlive hne⟩
    · intro k hk
      by_cases heq : k = key
      · rw [heq]
        exact hrunning
      · simp only [Function.update_of_ne heq] at hk
        exact h.flight_running k hk
    · intro k
      by_cases heq : k = key
      · rw [heq]
        exact Or.inr (hflying key (Function.update_self ..))
      · simp only [Function.update_of_ne heq]
        exact h.issued k
    · intro _ k hk
      by_cases heq : k = key
      · simp only [heq, Function.update_self, reduceCtorEq] at hk
      · simp only [Function.update_of_ne heq] at hk ⊢
        exact h.idle hlive k hk
  | ack key item rest hlive hflight htodo =>
    obtain ⟨item', hissued, hhead⟩ := h.flying key hflight
    rw [htodo, List.head?_cons, Option.some.injEq] at hhead
    subst hhead
    have hkey : d.acked key ++ [item] = d.issued key := hissued.symm
    have hidle : ∀ k, Function.update d.inFlight key false k = false →
        d.issued k = Function.update d.acked key (d.acked key ++ [item]) k := by
      intro k hk
      by_cases heq : k = key
      · rw [heq, Function.update_self, hkey]
      · rw [Function.update_of_ne heq] at hk ⊢
        exact h.idle hlive k hk
    have hflying : ∀ k, Function.update d.inFlight key false k = true →
        ∃ item', d.issued k = Function.update d.acked key (d.acked key ++ [item]) k ++ [item'] ∧
          (Function.update d.todo key rest k).head? = some item' := by
      intro k hk
      by_cases heq : k = key
      · simp only [heq, Function.update_self, reduceCtorEq] at hk
      · rw [Function.update_of_ne heq] at hk ⊢
        rw [Function.update_of_ne heq]
        exact h.flying k hk
    refine ⟨h.nodup, h.running_le, ?_, ?_, ?_, fun _ => hidle, hflying, ?_, ?_, fun hne => absurd hlive hne⟩
    · intro k hk
      by_cases heq : k = key
      · simp only [heq, Function.update_self, reduceCtorEq] at hk
      · simp only [Function.update_of_ne heq] at hk
        exact h.flight_running k hk
    · intro k
      by_cases heq : k = key
      · have := h.split key
        simp only [heq, Function.update_self, List.append_assoc, List.singleton_append, ← htodo]
        exact this
      · simp only [Function.update_of_ne heq]
        exact h.split k
    · intro k
      cases hk : Function.update d.inFlight key false k with
      | false => exact Or.inl (hidle k hk)
      | true => exact Or.inr (hflying k hk)
    · intro _ k hp hr
      have hne : k ≠ key := fun heq => hr (heq ▸ h.flight_running key hflight)
      simp only [Function.update_of_ne hne]
      exact h.left hlive k hp hr
    · intro hok k
      rw [hlive] at hok
      cases hok
  | finish key hlive hrunning htodo =>
    have hrunning_nodup := (List.nodup_append.1 h.nodup).2.1
    refine ⟨?_, Nat.le_trans (List.length_erase_le ..) h.running_le, ?_, h.split, h.issued, h.idle, h.flying,
      ?_, h.done, h.closed⟩
    · exact h.nodup.sublist (List.Sublist.append (List.Sublist.refl _) List.erase_sublist)
    · intro k hk
      refine (List.mem_erase_of_ne ?_).2 (h.flight_running k hk)
      rintro rfl
      obtain ⟨item, _, hhead⟩ := h.flying k hk
      rw [htodo] at hhead
      cases hhead
    · intro _ k hp hr
      by_cases heq : k = key
      · rw [heq]
        exact htodo
      · exact h.left hlive k hp fun hk => hr ((List.mem_erase_of_ne heq).2 hk)
  | complete hlive hpending hrunning =>
    refine h.close (by simp) fun _ k => h.left hlive k ?_ ?_
    · rw [hpending]
      exact List.not_mem_nil
    · rw [hrunning]
      exact List.not_mem_nil
  | close status hlive hne hok => exact h.close hne fun heq => absurd heq hok

omit [DecidableEq κ] in
/-- With an item in flight, the dispatch has not closed. -/
theorem Inv.live_of_flight {group : κ → List ι} (h : d.Inv limit group) (hflight : d.inFlight key = true) :
    d.status = .live := by
  by_contra hne
  rw [h.closed hne key] at hflight
  cases hflight

omit [DecidableEq κ] in
/-- At most `limit` items are in flight. -/
theorem Inv.flight_le {group : κ → List ι} (h : d.Inv limit group) {keys : List κ} (hnodup : keys.Nodup)
    (hkeys : ∀ k ∈ keys, d.inFlight k = true) : keys.length ≤ limit :=
  Nat.le_trans (List.Nodup.length_le_of_subset hnodup fun k hk => h.flight_running k (hkeys k hk)) h.running_le

omit [DecidableEq κ] in
/-- What has been issued of a group is its beginning. -/
theorem Inv.issued_isPrefix {group : κ → List ι} (h : d.Inv limit group) (k : κ) : d.issued k <+: group k := by
  rw [← h.split k]
  rcases h.issued k with heq | ⟨item, heq, hhead⟩
  · rw [heq]
    exact List.prefix_append _ _
  · rw [heq, List.prefix_append_right_inj]
    cases htodo : d.todo k with
    | nil => rw [htodo] at hhead; cases hhead
    | cons first rest =>
      rw [htodo, List.head?_cons, Option.some.injEq] at hhead
      rw [hhead]
      exact ⟨rest, rfl⟩

omit [DecidableEq κ] in
/-- A group with nothing left has been issued and acknowledged. -/
theorem Inv.all_acked {group : κ → List ι} (h : d.Inv limit group) {k : κ} (htodo : d.todo k = []) :
    d.issued k = group k ∧ d.acked k = group k := by
  have hsplit := h.split k
  rw [htodo, List.append_nil] at hsplit
  refine ⟨?_, hsplit⟩
  rcases h.issued k with heq | ⟨item, _, hhead⟩
  · rw [heq, hsplit]
  · rw [htodo] at hhead
    cases hhead

end Dispatch

end Dispatching

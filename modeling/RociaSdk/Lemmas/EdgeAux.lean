import Mathlib.Data.List.Induction
import RociaSdk.Lemmas.BatchAux
import RociaSdk.Lib.Faultless

/-!
# Edges and their triplets

What a server that refuses taken triplets makes of a list of edges, and when it refuses one.
-/

namespace RociaSdk

open Dispatching BatchAux

/-- Edges are set one after another, whatever was there. -/
def EdgeStore.insertAll (store : EdgeStore) (requests : List AddEdgeRequest) : EdgeStore := requests.foldl EdgeStore.insert store

namespace EdgeAux

variable {store : EdgeStore} {r : AddEdgeRequest} {requests : List AddEdgeRequest}

/-- Where an edge is held. -/
def slot (r : AddEdgeRequest) : String × String × String := (r.tenantId, r.graph, r.edgeId)

/-! ## One edge -/

/-- A taken triplet is refused. -/
theorem handle_taken (h : store.Taken r) : uniqueTriplets.handle store r = (store, .error (alreadyExists r)) := by
  simp only [uniqueTriplets, if_pos h]

/-- Any other is set. -/
theorem handle_free (h : ¬store.Taken r) : uniqueTriplets.handle store r = (store.insert r, .ok ()) := by
  simp only [uniqueTriplets, if_neg h]

/-! ## A list of edges -/

/-- A place holds the last edge of a list that is set there, or what it held before. -/
theorem insertAll_apply (store : EdgeStore) (requests : List AddEdgeRequest) (place : String × String × String) :
    store.insertAll requests place =
      match (requests.filter fun r => slot r = place).getLast? with
      | some r => some r.edge
      | none => store place := by
  induction requests using List.reverseRecOn with
  | nil => rfl
  | append_singleton requests r ih =>
    have hstep : store.insertAll (requests ++ [r]) = (store.insertAll requests).insert r := by
      rw [EdgeStore.insertAll, List.foldl_concat]
      rfl
    rw [hstep, EdgeStore.insert, List.filter_append]
    by_cases hplace : slot r = place
    · have hlast : [r].filter (fun r => slot r = place) = [r] := by simp [hplace]
      rw [hlast, List.getLast?_concat, ← hplace]
      exact Function.update_self ..
    · have hlast : [r].filter (fun r => slot r = place) = [] := by simp [hplace]
      rw [hlast, List.append_nil, ← ih]
      exact Function.update_of_ne (Ne.symm hplace) ..

/-- The last edge of a list is held where it is set. -/
theorem insertAll_concat {place : String × String × String} (h : slot r = place) :
    store.insertAll (requests ++ [r]) place = some r.edge := by
  unfold EdgeStore.insertAll
  rw [List.foldl_concat, ← h]
  exact Function.update_self ..

/-- A place where none of the edges is set holds what it held. -/
theorem insertAll_of_ne {place : String × String × String} (h : ∀ r ∈ requests, slot r ≠ place) :
    store.insertAll requests place = store place := by
  have hnil : (requests.filter fun r => slot r = place) = [] := List.filter_eq_nil_iff.2 fun r hr => by simpa using h r hr
  rw [insertAll_apply, hnil]
  rfl

/-- A place holds an edge of the list that is set there, or what it held before and none is. -/
theorem insertAll_cases (store : EdgeStore) (requests : List AddEdgeRequest) (place : String × String × String) :
    (∃ r ∈ requests, slot r = place ∧ store.insertAll requests place = some r.edge) ∨
      (∀ r ∈ requests, slot r ≠ place) ∧ store.insertAll requests place = store place := by
  cases hlast : (requests.filter fun r => slot r = place).getLast? with
  | some r =>
    obtain ⟨hr, hplace⟩ := List.mem_filter.1 (List.mem_of_getLast? hlast)
    exact Or.inl ⟨r, hr, by simpa using hplace, by rw [insertAll_apply, hlast]⟩
  | none =>
    have hnone : ∀ r ∈ requests, slot r ≠ place := fun r hr => by
      simpa using List.filter_eq_nil_iff.1 (List.getLast?_eq_none_iff.1 hlast) r hr
    exact Or.inr ⟨hnone, insertAll_of_ne hnone⟩

/-- Only the order among the edges of one id matters. -/
theorem insertAll_congr {requests' : List AddEdgeRequest}
    (h : ∀ k, (requests.filter fun r => r.edgeId = k) = requests'.filter fun r => r.edgeId = k) :
    store.insertAll requests = store.insertAll requests' := by
  have hslot : ∀ (rs : List AddEdgeRequest) (place : String × String × String),
      (rs.filter fun r => slot r = place) = (rs.filter fun r => r.edgeId = place.2.2).filter fun r => slot r = place := by
    intro rs place
    rw [List.filter_filter]
    refine List.filter_congr ?_
    intro r _
    by_cases hplace : slot r = place
    · simp [← hplace, slot]
    · simp [hplace]
  funext place
  rw [insertAll_apply, insertAll_apply, hslot, h, ← hslot]

/-- If the server accepts a list of edges in its order, it sets them all, and none was taken when its turn came. -/
theorem serial_ok {final : EdgeStore} (h : uniqueTriplets.serial store requests = .ok final) :
    final = store.insertAll requests ∧
      ∀ before r after, requests = before ++ r :: after → ¬(store.insertAll before).Taken r := by
  induction requests generalizing store with
  | nil =>
    cases h
    exact ⟨rfl, fun before r after heq => by simp at heq⟩
  | cons first rest ih =>
    by_cases htaken : store.Taken first
    · unfold Service.serial at h
      rw [handle_taken htaken] at h
      cases h
    · unfold Service.serial at h
      rw [handle_free htaken] at h
      obtain ⟨hfinal, hfree⟩ := ih h
      refine ⟨hfinal, ?_⟩
      intro before r after heq
      cases before with
      | nil =>
        obtain ⟨rfl, _⟩ := List.cons.inj heq
        exact htaken
      | cons first' before =>
        obtain ⟨rfl, hrest⟩ := List.cons.inj heq
        exact hfree before r after hrest

end EdgeAux

end RociaSdk

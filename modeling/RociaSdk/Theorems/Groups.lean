import Mathlib.Algebra.GroupWithZero.Nat
import RociaSdk.Theorems.Batches

/-!
# The groups of a batch

Whatever order the `HashMap` gives its values in, `group_preserving_order` splits a list into one group for each key, and the
requests of a batch come in the group of their item's id after those of all earlier items with that id.
-/

namespace RociaSdk

open BatchAux BatchesAux

variable {V : Type}

/-- What it is to split items by their keys into groups that keep their order. -/
structure Partitions {ι : Type} (items : List ι) (key : ι → String) (groups : List (List ι)) : Prop where
  nonempty : ∀ group ∈ groups, group ≠ []
  /-- Each key has one group: all items with that key, in their order. -/
  groupOf : ∀ k, (∃ item ∈ items, key item = k) → ∃ n, groups[n]? = some (items.filter fun item => key item = k) ∧
    ∀ (m : Nat) group item, groups[m]? = some group → item ∈ group → key item = k → m = n
  /-- No item is lost or comes twice. -/
  perm : groups.flatten.Perm items
  lengths : (groups.map List.length).sum = items.length
  placed : ∃ place, Grouping.Placed key items (fun _ item other => item = other) groups place

namespace GroupsAux

variable {ι : Type} {items : List ι} {key : ι → String} {order : List String}

/-- A group has the items of a key that comes in the list. -/
theorem groups_ne_nil (h : (groupPreservingOrder items key).IsOrder order) :
    ∀ group ∈ Grouping.groups key order items, group ≠ [] := by
  intro group hgroup
  obtain ⟨k, hk, rfl⟩ := List.mem_map.1 hgroup
  obtain ⟨item, hitem, hkey⟩ := (group_isSome items k).1 ((h.mem_iff k).1 hk)
  exact List.ne_nil_of_mem (List.mem_filter.2 ⟨hitem, by simpa using hkey⟩)

/-- The map's values partition the items. -/
theorem partitions (h : (groupPreservingOrder items key).IsOrder order) :
    Partitions items key ((groupPreservingOrder items key).intoValues order) := by
  have hperm := Grouping.flatten_groups_perm h.nodup (mem_of_isOrder h)
  rw [intoValues_eq h]
  refine ⟨groups_ne_nil h, ?_, hperm, ?_, ⟨_, Grouping.placed_groups h.nodup (mem_of_isOrder h)⟩⟩
  · rintro k ⟨item, hitem, rfl⟩
    refine ⟨order.idxOf (key item), Grouping.groups_getElem?_idxOf (mem_of_isOrder h item hitem), ?_⟩
    intro m group other hgroup hother hkey
    rw [Grouping.idxOf_of_mem_group h.nodup hgroup hother, hkey]
  · rw [← List.length_flatten]
    exact hperm.length_eq

/-- The requests of a batch are placed in the groups of their items. -/
theorem placed_requests {α β : Type} {build : String → α → Result β} {uuids : Nat → String} {items : List α}
    {requests : List β} {key : β → String} {idOf : α → String} {write : Nat → α → β → Prop}
    (hrequests : buildRequests build uuids 0 items = .ok requests)
    (hwrite : ∀ i item request, build (uuids i) item = .ok request → write i item request)
    (hkey : ∀ i item request, write i item request → key request = idOf item)
    (horder : (groupPreservingOrder requests key).IsOrder order) :
    ∃ place, Grouping.Placed idOf items write ((groupPreservingOrder requests key).intoValues order) place := by
  obtain ⟨hlen, heach⟩ := buildRequests_getElem? 0 hrequests
  obtain ⟨place, hplace⟩ := (partitions horder).placed
  refine ⟨place, hplace.of_made hlen ?_⟩
  intro i item hi
  obtain ⟨request, hr, hb⟩ := heach i item hi
  rw [Nat.zero_add] at hb
  have hmade := hwrite i item request hb
  exact ⟨request, hr, hmade, hkey i item request hmade⟩

end GroupsAux

open GroupsAux

end RociaSdk

import Mathlib.Data.List.Nodup

/-!
# Splitting a list by a key

`groups key order xs` has for each key of `order` the elements of `xs` with that key, in their order. `Placed` says where each
element, or what is made of it, comes in a list of groups, and `placed_groups` that the groups of a list are such.
-/

namespace Grouping

variable {α β κ : Type*}

/-- Where the items of a list come in a list of groups: the `i`-th item, or what is made of it, at the place `place i`, a group
and a position in it. Every position is that of one item, items are in one group exactly if they have the same key, and there
they keep their order. -/
structure Placed (key : α → κ) (items : List α) (made : Nat → α → β → Prop) (groups : List (List β)) (place : Nat → Nat × Nat) :
    Prop where
  found : ∀ i item, items[i]? = some item →
    ∃ group b, groups[(place i).1]? = some group ∧ group[(place i).2]? = some b ∧ made i item b
  once : ∀ i j, i < items.length → j < items.length → place i = place j → i = j
  onto : ∀ (n m : Nat) group b, groups[n]? = some group → group[m]? = some b → ∃ i, i < items.length ∧ place i = (n, m)
  same_group_iff : ∀ i j item other, items[i]? = some item → items[j]? = some other →
    ((place i).1 = (place j).1 ↔ key item = key other)
  inOrder : ∀ i j item other, i < j → items[i]? = some item → items[j]? = some other → key item = key other →
    (place i).2 < (place j).2

/-- What is placed for a list is placed for one it is made of, item by item. -/
theorem Placed.of_made {key : β → κ} {idOf : α → κ} {items : List α} {xs : List β} {made : Nat → α → β → Prop}
    {groups : List (List β)} {place : Nat → Nat × Nat} (h : Placed key xs (fun _ x y => x = y) groups place)
    (hlen : xs.length = items.length)
    (hmade : ∀ i item, items[i]? = some item → ∃ x, xs[i]? = some x ∧ made i item x ∧ key x = idOf item) :
    Placed idOf items made groups place where
  found := by
    intro i item hi
    obtain ⟨x, hx, hmade, -⟩ := hmade i item hi
    obtain ⟨group, b, hgroup, hb, rfl⟩ := h.found i x hx
    exact ⟨group, x, hgroup, hb, hmade⟩
  once := by
    rw [← hlen]
    exact h.once
  onto := by
    rw [← hlen]
    exact h.onto
  same_group_iff := by
    intro i j item other hi hj
    obtain ⟨x, hx, -, hkey⟩ := hmade i item hi
    obtain ⟨y, hy, -, hkey'⟩ := hmade j other hj
    rw [← hkey, ← hkey']
    exact h.same_group_iff i j x y hx hy
  inOrder := by
    intro i j item other hlt hi hj heq
    obtain ⟨x, hx, -, hkey⟩ := hmade i item hi
    obtain ⟨y, hy, -, hkey'⟩ := hmade j other hj
    exact h.inOrder i j x y hlt hx hy (by rw [hkey, hkey', heq])

/-! ## Positions in a sublist -/

section

variable {p : α → Bool} {xs : List α} {x : α}

/-- An element comes after those of the sublist that come before it. -/
theorem filter_getElem?_countP {i : Nat} (h : xs[i]? = some x) (hp : p x = true) :
    (xs.filter p)[(xs.take i).countP p]? = some x := by
  induction xs generalizing i with
  | nil => cases h
  | cons y ys ih =>
    cases i with
    | zero =>
      cases h
      rw [List.take_zero, List.countP_nil, List.filter_cons_of_pos hp]
      rfl
    | succ i =>
      have hrest := ih (List.getElem?_cons_succ.symm.trans h)
      rw [List.take_succ_cons]
      by_cases hy : p y = true
      · rw [List.countP_cons_of_pos hy, List.filter_cons_of_pos hy, List.getElem?_cons_succ]
        exact hrest
      · rw [List.countP_cons_of_neg hy, List.filter_cons_of_neg hy]
        exact hrest

/-- Every position of the sublist is that of an element. -/
theorem exists_of_filter_getElem? {n : Nat} (h : (xs.filter p)[n]? = some x) :
    ∃ i, xs[i]? = some x ∧ p x = true ∧ (xs.take i).countP p = n := by
  induction xs generalizing n with
  | nil => cases h
  | cons y ys ih =>
    by_cases hy : p y = true
    · rw [List.filter_cons_of_pos hy] at h
      cases n with
      | zero =>
        cases h
        exact ⟨0, rfl, hy, rfl⟩
      | succ n =>
        obtain ⟨i, hi, hx, hn⟩ := ih (List.getElem?_cons_succ.symm.trans h)
        exact ⟨i + 1, hi, hx, by rw [List.take_succ_cons, List.countP_cons_of_pos hy, hn]⟩
    · rw [List.filter_cons_of_neg hy] at h
      obtain ⟨i, hi, hx, hn⟩ := ih h
      exact ⟨i + 1, hi, hx, by rw [List.take_succ_cons, List.countP_cons_of_neg hy, hn]⟩

/-- An element of the sublist counts for every later one. -/
theorem countP_take_lt {i j : Nat} (hlt : i < j) (h : xs[i]? = some x) (hp : p x = true) :
    (xs.take i).countP p < (xs.take j).countP p := by
  have hnext : (xs.take (i + 1)).countP p = (xs.take i).countP p + 1 := by
    rw [List.take_add_one, h, List.countP_append, Option.toList_some, List.countP_cons_of_pos hp, List.countP_nil]
  have hle : (xs.take (i + 1)).countP p ≤ (xs.take j).countP p := (List.take_sublist_take_left hlt).countP_le
  omega

end

/-! ## The groups of a list -/

variable [DecidableEq κ] {key : α → κ} {order : List κ} {xs : List α}

/-- The elements with each key, in the order of the keys. -/
def groups (key : α → κ) (order : List κ) (xs : List α) : List (List α) := order.map fun k => xs.filter fun x => key x = k

/-- The group of a key is where the key is. -/
theorem groups_getElem?_idxOf {k : κ} (h : k ∈ order) :
    (groups key order xs)[order.idxOf k]? = some (xs.filter fun x => key x = k) := by
  rw [groups, List.getElem?_map, List.getElem?_idxOf h, Option.map_some]

/-- What is at a position is the group of the key there. -/
theorem exists_of_groups_getElem? {n : Nat} {group : List α} (h : (groups key order xs)[n]? = some group) :
    ∃ k, order[n]? = some k ∧ group = xs.filter fun x => key x = k := by
  rw [groups, List.getElem?_map, Option.map_eq_some_iff] at h
  obtain ⟨k, hk, heq⟩ := h
  exact ⟨k, hk, heq.symm⟩

/-- A key that comes once is where it is found. -/
theorem idxOf_of_getElem? {n : Nat} {k : κ} (hnodup : order.Nodup) (h : order[n]? = some k) : order.idxOf k = n := by
  obtain ⟨hlt, rfl⟩ := List.getElem?_eq_some_iff.1 h
  exact hnodup.idxOf_getElem n hlt

/-- Only the group of a key has elements with that key. -/
theorem idxOf_of_mem_group {n : Nat} {group : List α} {x : α} (hnodup : order.Nodup)
    (h : (groups key order xs)[n]? = some group) (hx : x ∈ group) : n = order.idxOf (key x) := by
  obtain ⟨k, hk, rfl⟩ := exists_of_groups_getElem? h
  have hkey : key x = k := by simpa using (List.mem_filter.1 hx).2
  rw [hkey, idxOf_of_getElem? hnodup hk]

/-- The groups of different keys hold every element once. -/
theorem flatten_groups_perm (hnodup : order.Nodup) (hall : ∀ x ∈ xs, key x ∈ order) : (groups key order xs).flatten.Perm xs := by
  induction order generalizing xs with
  | nil =>
    cases xs with
    | nil => exact List.Perm.refl _
    | cons x xs => exact absurd (hall x (List.mem_cons_self ..)) List.not_mem_nil
  | cons k order ih =>
    obtain ⟨hk, hnodup⟩ := List.nodup_cons.1 hnodup
    have hothers : ∀ x ∈ xs.filter fun x => !decide (key x = k), key x ∈ order := by
      intro x hx
      obtain ⟨hx, hne⟩ := List.mem_filter.1 hx
      exact (List.mem_cons.1 (hall x hx)).resolve_left (by simpa using hne)
    have hrest := ih hnodup hothers
    -- No element with another key is lost when those with the first are taken out.
    have hsame : groups key order (xs.filter fun x => !decide (key x = k)) = groups key order xs := by
      refine List.map_congr_left fun k' hk' => ?_
      rw [List.filter_filter]
      refine List.filter_congr fun x _ => ?_
      by_cases hx : key x = k'
      · have hne : key x ≠ k := fun heq => hk (by rw [← heq, hx]; exact hk')
        simp [hx, hx ▸ hne]
      · simp [hx]
    rw [hsame] at hrest
    have hflat : (groups key (k :: order) xs).flatten = (xs.filter fun x => key x = k) ++ (groups key order xs).flatten := rfl
    rw [hflat]
    exact (hrest.append_left _).trans (List.filter_append_perm _ xs)

/-- Where an element of a list comes in its groups: the group of its key, after the earlier elements with that key. -/
def place (key : α → κ) (order : List κ) (xs : List α) (i : Nat) : Nat × Nat :=
  match xs[i]? with
  | some x => (order.idxOf (key x), (xs.take i).countP fun y => key y = key x)
  | none => (0, 0)

theorem place_eq {i : Nat} {x : α} (h : xs[i]? = some x) :
    place key order xs i = (order.idxOf (key x), (xs.take i).countP fun y => key y = key x) := by
  unfold place
  rw [h]

/-- The groups of a list place its elements. -/
theorem placed_groups (hnodup : order.Nodup) (hall : ∀ x ∈ xs, key x ∈ order) :
    Placed key xs (fun _ x y => x = y) (groups key order xs) (place key order xs) where
  found := by
    intro i x hi
    rw [place_eq hi]
    exact ⟨_, x, groups_getElem?_idxOf (hall x (List.mem_of_getElem? hi)), filter_getElem?_countP hi (by simp), rfl⟩
  once := by
    intro i j hi hj heq
    have hxi := List.getElem?_eq_getElem hi
    have hxj := List.getElem?_eq_getElem hj
    rw [place_eq hxi, place_eq hxj, Prod.mk.injEq] at heq
    have hkey : key xs[i] = key xs[j] := (List.idxOf_inj (hall _ (List.getElem_mem hi))).1 heq.1
    rw [hkey] at heq
    rcases Nat.lt_trichotomy i j with hlt | hij | hlt
    · exact absurd heq.2 (Nat.ne_of_lt (countP_take_lt hlt hxi (by simp [hkey])))
    · exact hij
    · exact absurd heq.2 (Nat.ne_of_gt (countP_take_lt hlt hxj (by simp)))
  onto := by
    intro n m group b hgroup hb
    obtain ⟨k, hk, rfl⟩ := exists_of_groups_getElem? hgroup
    obtain ⟨i, hi, hkey, hm⟩ := exists_of_filter_getElem? hb
    have hkey' : key b = k := by simpa using hkey
    refine ⟨i, (List.getElem?_eq_some_iff.1 hi).1, ?_⟩
    rw [place_eq hi, hkey', idxOf_of_getElem? hnodup hk, hm]
  same_group_iff := by
    intro i j x y hi hj
    rw [place_eq hi, place_eq hj]
    exact List.idxOf_inj (hall x (List.mem_of_getElem? hi))
  inOrder := by
    intro i j x y hlt hi hj heq
    rw [place_eq hi, place_eq hj, heq]
    exact countP_take_lt hlt hi (by simp [heq])

end Grouping

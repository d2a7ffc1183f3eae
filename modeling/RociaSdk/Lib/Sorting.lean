import Mathlib.Data.List.Sort

/-!
# Sorting by several comparisons

A stable sort leaves what compares equal as it was. Sorted by one comparison after another, the last one first, a list comes in the
lexicographic order of them (`ordered_sortAll`).
-/

namespace Sorting

variable {α : Type} {cmp before : α → α → Ordering} {cmps : List (α → α → Ordering)} {l : List α} {a b : α}

/-- A list, sorted stably. -/
def sortBy (cmp : α → α → Ordering) (l : List α) : List α := l.insertionSort fun a b => (cmp a b).isLE = true

/-- A list, sorted by one comparison after another, the last one first. -/
def sortAll (cmps : List (α → α → Ordering)) (l : List α) : List α := cmps.reverse.foldl (fun l cmp => sortBy cmp l) l

/-- The first comparison that tells two values apart decides, and after all of them the last one. -/
def lexicographic (cmps : List (α → α → Ordering)) (before : α → α → Ordering) : α → α → Ordering := cmps.foldr compareLex before

/-- A list comes in the order of a comparison. -/
def Ordered (cmp : α → α → Ordering) (l : List α) : Prop := l.Pairwise fun a b => (cmp a b).isLE = true

/-- A comparison of what values are mapped to. -/
theorem transCmp_on {β : Type} [Std.TransCmp cmp] (f : β → α) : Std.TransCmp fun x y => cmp (f x) (f y) where
  eq_swap := Std.OrientedCmp.eq_swap
  isLE_trans := Std.TransCmp.isLE_trans

@[simp] theorem sortAll_nil (l : List α) : sortAll [] l = l := rfl

@[simp] theorem sortAll_cons (cmp : α → α → Ordering) (cmps : List (α → α → Ordering)) (l : List α) :
    sortAll (cmp :: cmps) l = sortBy cmp (sortAll cmps l) := by
  simp [sortAll]

/-- A second comparison counts where the first one tells nothing. -/
theorem isLE_compareLex : (compareLex cmp before a b).isLE = true ↔
    (cmp a b).isLE = true ∧ (cmp a b = .eq → (before a b).isLE = true) := by
  unfold compareLex
  cases cmp a b <;> simp

/-- A value that comes before those of an ordered list, where the comparison tells nothing, is inserted. -/
theorem ordered_insert [Std.TransCmp cmp] {x : α} (hx : ∀ y ∈ l, (before x y).isLE = true) (h : Ordered (compareLex cmp before) l) :
    Ordered (compareLex cmp before) (l.orderedInsert (fun a b => (cmp a b).isLE = true) x) := by
  unfold Ordered at h ⊢
  induction l with
  | nil => simp
  | cons y ys ih =>
    obtain ⟨hy, hys⟩ := List.pairwise_cons.1 h
    rw [List.orderedInsert]
    split
    · rename_i hle
      refine List.pairwise_cons.2 ⟨fun z hz => isLE_compareLex.2 ⟨?_, fun _ => hx z hz⟩, h⟩
      rcases List.mem_cons.1 hz with rfl | hz
      · exact hle
      · exact Std.TransCmp.isLE_trans hle (isLE_compareLex.1 (hy z hz)).1
    · rename_i hgt
      refine List.pairwise_cons.2 ⟨fun z hz => ?_, ih (fun z hz => hx z (List.mem_cons_of_mem y hz)) hys⟩
      rcases (List.mem_orderedInsert _).1 hz with rfl | hz
      · have hlt : cmp y z = .lt := by
          have hswap : cmp y z = (cmp z y).swap := Std.OrientedCmp.eq_swap
          cases hcmp : cmp z y with
          | gt => rw [hswap, hcmp, Ordering.swap_gt]
          | lt => simp [hcmp] at hgt
          | eq => simp [hcmp] at hgt
        simp [compareLex, hlt]
      · exact hy z hz

theorem sortBy_perm (cmp : α → α → Ordering) (l : List α) : (sortBy cmp l).Perm l := List.perm_insertionSort _ l

/-- A list that comes in some order is sorted: that order decides where the comparison does not. -/
theorem ordered_sortBy [Std.TransCmp cmp] (h : Ordered before l) : Ordered (compareLex cmp before) (sortBy cmp l) := by
  induction l with
  | nil => exact List.Pairwise.nil
  | cons a l ih =>
    obtain ⟨ha, hl⟩ := List.pairwise_cons.1 h
    exact ordered_insert (fun y hy => ha y ((sortBy_perm cmp l).mem_iff.1 hy)) (ih hl)

theorem sortAll_perm (cmps : List (α → α → Ordering)) (l : List α) : (sortAll cmps l).Perm l := by
  induction cmps with
  | nil => exact List.Perm.refl l
  | cons cmp cmps ih =>
    rw [sortAll_cons]
    exact (sortBy_perm cmp _).trans ih

/-- Sorted by one comparison after another, a list comes in the lexicographic order. -/
theorem ordered_sortAll (htrans : ∀ cmp ∈ cmps, Std.TransCmp cmp) (h : Ordered before l) :
    Ordered (lexicographic cmps before) (sortAll cmps l) := by
  induction cmps with
  | nil => exact h
  | cons cmp cmps ih =>
    have : Std.TransCmp cmp := htrans cmp (List.mem_cons_self ..)
    rw [sortAll_cons]
    exact ordered_sortBy (ih fun cmp' hcmp' => htrans cmp' (List.mem_cons_of_mem cmp hcmp'))

end Sorting

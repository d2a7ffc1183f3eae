import Mathlib.Data.String.Basic

/-!
# Tables of rows in scopes

A table holds rows under an id inside a scope: an ordered map of ordered maps. A scope appears when its first row is put and
stays when its last row is removed, so a scope may be empty. `find?` reads a row, and what `put` and `remove` do to it is all
that is needed of them.
-/

/-- An ordered map of ordered maps. -/
abbrev Table (κ ι α : Type) (scopeCmp : κ → κ → Ordering) (idCmp : ι → ι → Ordering) :=
  Std.ExtTreeMap κ (Std.ExtTreeMap ι α idCmp) scopeCmp

namespace Table

variable {κ ι α : Type} {scopeCmp : κ → κ → Ordering} {idCmp : ι → ι → Ordering} [Std.TransCmp scopeCmp]

/-- The rows of a scope, in the order of their ids. -/
def rows (t : Table κ ι α scopeCmp idCmp) (scope : κ) : Std.ExtTreeMap ι α idCmp := t.getD scope ∅

@[simp] theorem rows_empty (scope : κ) : rows (∅ : Table κ ι α scopeCmp idCmp) scope = ∅ := by
  simp [rows]

variable [Std.TransCmp idCmp]

/-- A row. -/
def find? (t : Table κ ι α scopeCmp idCmp) (scope : κ) (id : ι) : Option α := (t.rows scope)[id]?

/-- Set a row, in a scope that may be new. -/
def put (t : Table κ ι α scopeCmp idCmp) (scope : κ) (id : ι) (row : α) : Table κ ι α scopeCmp idCmp :=
  t.alter scope fun rows => some ((rows.getD ∅).insert id row)

/-- Remove a row, if its scope is there. -/
def remove (t : Table κ ι α scopeCmp idCmp) (scope : κ) (id : ι) : Table κ ι α scopeCmp idCmp :=
  t.modify scope fun rows => rows.erase id

@[simp] theorem find?_empty (scope : κ) (id : ι) : find? (∅ : Table κ ι α scopeCmp idCmp) scope id = none := by
  simp [find?]

/-- The entries of a scope are its rows. -/
theorem mem_rows_iff [Std.LawfulEqCmp idCmp] {t : Table κ ι α scopeCmp idCmp} {scope : κ} {id : ι} {row : α} :
    (id, row) ∈ (t.rows scope).toList ↔ t.find? scope id = some row :=
  Std.ExtTreeMap.mem_toList_iff_getElem?_eq_some

variable [Std.LawfulEqCmp scopeCmp]

theorem rows_put [DecidableEq κ] (t : Table κ ι α scopeCmp idCmp) (scope scope' : κ) (id : ι) (row : α) :
    (t.put scope id row).rows scope' = if scope = scope' then (t.rows scope).insert id row else t.rows scope' := by
  simp only [rows, put, Std.ExtTreeMap.getD_alter, Std.LawfulEqCmp.compare_eq_iff_eq]
  split
  · rw [Std.ExtTreeMap.getD_eq_getD_getElem?]
    rfl
  · rfl

theorem rows_remove [DecidableEq κ] (t : Table κ ι α scopeCmp idCmp) (scope scope' : κ) (id : ι) :
    (t.remove scope id).rows scope' = if scope = scope' then (t.rows scope).erase id else t.rows scope' := by
  simp only [rows, remove, Std.ExtTreeMap.getD_modify, Std.LawfulEqCmp.compare_eq_iff_eq]
  split
  · rw [Std.ExtTreeMap.getD_eq_getD_getElem?]
    cases t[scope]? with
    | none => simp
    | some rows => rfl
  · rfl

variable [Std.LawfulEqCmp idCmp]

/-- What a put leaves to be found. -/
@[simp] theorem find?_put [DecidableEq κ] [DecidableEq ι] (t : Table κ ι α scopeCmp idCmp) (scope scope' : κ) (id id' : ι)
    (row : α) :
    (t.put scope id row).find? scope' id' = if scope = scope' ∧ id = id' then some row else t.find? scope' id' := by
  by_cases hscope : scope = scope'
  · subst hscope
    simp [find?, rows_put, Std.ExtTreeMap.getElem?_insert]
  · simp [find?, rows_put, hscope]

/-- What a removal leaves to be found. -/
@[simp] theorem find?_remove [DecidableEq κ] [DecidableEq ι] (t : Table κ ι α scopeCmp idCmp) (scope scope' : κ) (id id' : ι) :
    (t.remove scope id).find? scope' id' = if scope = scope' ∧ id = id' then none else t.find? scope' id' := by
  by_cases hscope : scope = scope'
  · subst hscope
    simp [find?, rows_remove, Std.ExtTreeMap.getElem?_erase]
  · simp [find?, rows_remove, hscope]

/-- A row that is there after a put is in the scope of the put, or was there before. -/
theorem isSome_find?_put [DecidableEq κ] [DecidableEq ι] {t : Table κ ι α scopeCmp idCmp} {scope scope' : κ} {id id' : ι} {row : α}
    (h : ((t.put scope id row).find? scope' id').isSome = true) : scope = scope' ∨ (t.find? scope' id').isSome = true := by
  by_cases hscope : scope = scope'
  · exact .inl hscope
  · exact .inr (by simpa [hscope] using h)

/-- What is there stays there when a row is put. -/
theorem find?_put_isSome [DecidableEq κ] [DecidableEq ι] {t : Table κ ι α scopeCmp idCmp} {scope scope' : κ} {id id' : ι} {row : α}
    (h : (t.find? scope' id').isSome = true) : ((t.put scope id row).find? scope' id').isSome = true := by
  rw [find?_put]
  split
  · rfl
  · exact h

/-- A row that is there after a removal was there before. -/
theorem find?_of_remove [DecidableEq κ] [DecidableEq ι] {t : Table κ ι α scopeCmp idCmp} {scope scope' : κ} {id id' : ι} {row : α}
    (h : (t.remove scope id).find? scope' id' = some row) : t.find? scope' id' = some row := by
  rw [find?_remove] at h
  split at h
  · cases h
  · exact h

end Table

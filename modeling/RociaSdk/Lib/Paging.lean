import Mathlib.Data.List.Basic
import Mathlib.Order.Lattice

/-!
# Reading a listing in pages

A listing has its entries in the order of their keys. A page is what comes first after a key, and the key of its last entry is where
the next page goes on. `Reads` are the pages of a listing that may change from one page to the next: what is read has its keys in
order and none twice, and holds every key that is listed all along (`Reads.upto`). A listing that does not change is read from
beginning to end (`reads_fixed`).
-/

namespace Paging

variable {κ α : Type} [LinearOrder κ] {entries : List (κ × α)} {limit n : Nat} {key : Option κ} {k : κ} {e : κ × α}
  {listing : Nat → List (κ × α)} {read : List (κ × α)}

/-- Entries in the order of their keys. -/
def Sorted (entries : List (κ × α)) : Prop := entries.Pairwise fun a b => a.1 < b.1

/-- A key is after another, or after none. -/
def IsAfter (key : Option κ) (k : κ) : Prop := ∀ key' ∈ key, key' < k

instance (key : Option κ) (k : κ) : Decidable (IsAfter key k) :=
  match key with
  | none => .isTrue nofun
  | some key' => decidable_of_iff (key' < k) ⟨fun h _ hmem => Option.mem_some.1 hmem ▸ h, fun h => h key' rfl⟩

@[simp] theorem isAfter_none (k : κ) : IsAfter none k := nofun

@[simp] theorem isAfter_some (key' k : κ) : IsAfter (some key') k ↔ key' < k :=
  ⟨fun h => h key' rfl, fun h _ hmem => Option.mem_some.1 hmem ▸ h⟩

/-- What of a listing comes after a key. -/
def after (key : Option κ) (entries : List (κ × α)) : List (κ × α) := entries.filter fun e => IsAfter key e.1

/-- The page after a key. -/
def items (limit : Nat) (key : Option κ) (entries : List (κ × α)) : List (κ × α) := (after key entries).take limit

/-- The key the next page comes after, if there is a next page. -/
def next (limit : Nat) (key : Option κ) (entries : List (κ × α)) : Option κ :=
  if limit < (after key entries).length then (items limit key entries).getLast?.map Prod.fst else none

/-- So many pages of a listing that may change, each as it is at its turn, with the key they have come to and what was read. -/
inductive Reads (limit : Nat) (listing : Nat → List (κ × α)) : Nat → Option κ → List (κ × α) → Prop where
  | start : Reads limit listing 0 none []
  | page {n : Nat} {key : Option κ} {read : List (κ × α)} {k : κ} : Reads limit listing n key read →
      next limit key (listing n) = some k → Reads limit listing (n + 1) (some k) (read ++ items limit key (listing n))

/-! ## One page -/

@[simp] theorem after_none (entries : List (κ × α)) : after none entries = entries := by
  simp [after]

@[simp] theorem mem_after : e ∈ after key entries ↔ e ∈ entries ∧ IsAfter key e.1 := by
  simp [after]

theorem Sorted.after (h : Sorted entries) (key : Option κ) : Sorted (after key entries) := h.filter _

theorem Sorted.items (h : Sorted entries) (limit : Nat) (key : Option κ) : Sorted (items limit key entries) :=
  (h.after key).take

theorem mem_of_mem_items (h : e ∈ items limit key entries) : e ∈ entries ∧ IsAfter key e.1 :=
  mem_after.1 (List.mem_of_mem_take h)

/-- The last page is all that comes after its key. -/
theorem items_of_next_none (hlimit : 0 < limit) (h : next limit key entries = none) :
    items limit key entries = after key entries := by
  unfold next at h
  split at h
  · rename_i hlt
    have hne : items limit key entries ≠ [] := by
      unfold items
      rw [Ne, List.take_eq_nil_iff, not_or]
      exact ⟨by omega, fun hnil => by simp [hnil] at hlt⟩
    simp [List.getLast?_eq_none_iff, hne] at h
  · exact List.take_of_length_le (by omega)

/-- A page that has a next one is what comes after its key up to the key of its last entry, and more comes after that. -/
theorem mem_items_of_next (hsorted : Sorted entries) (h : next limit key entries = some k) :
    IsAfter key k ∧ k ∈ entries.map Prod.fst ∧
      ∀ e, e ∈ items limit key entries ↔ e ∈ entries ∧ IsAfter key e.1 ∧ e.1 ≤ k := by
  unfold next at h
  split at h
  case isFalse => cases h
  obtain ⟨last, hlast, rfl⟩ := Option.map_eq_some_iff.1 h
  have hmem := mem_of_mem_items (List.mem_of_getLast? hlast)
  obtain ⟨front, hfront⟩ := List.getLast?_eq_some_iff.1 hlast
  have hsplit : after key entries = front ++ [last] ++ (after key entries).drop limit := by
    rw [← hfront]
    exact (List.take_append_drop limit _).symm
  have hordered := hsorted.after key
  rw [hsplit] at hordered
  obtain ⟨hpage, -, hcross⟩ := List.pairwise_append.1 hordered
  refine ⟨hmem.2, List.mem_map_of_mem hmem.1, fun e => ?_⟩
  constructor
  · intro he
    refine ⟨(mem_of_mem_items he).1, (mem_of_mem_items he).2, ?_⟩
    rw [hfront] at he
    rcases List.mem_append.1 he with hbefore | heq
    · exact le_of_lt ((List.pairwise_append.1 hpage).2.2 e hbefore last (by simp))
    · rw [List.mem_singleton.1 heq]
  · rintro ⟨hentry, hafter, hle⟩
    have hin : e ∈ front ++ [last] ++ (after key entries).drop limit := hsplit ▸ mem_after.2 ⟨hentry, hafter⟩
    rcases List.mem_append.1 hin with hpage | hrest
    · rwa [hfront]
    · exact absurd hle (not_le_of_gt (hcross last (by simp) e hrest))

/-! ## Many pages -/

/-- What holds of what is read of a listing, up to a key. -/
structure Upto (listing : Nat → List (κ × α)) (n : Nat) (key : Option κ) (read : List (κ × α)) : Prop where
  sorted : Sorted read
  /-- What is read does not come after the key. -/
  bounded : ∀ e ∈ read, ¬IsAfter key e.1
  /-- What is read was listed at one of the turns. -/
  listed : ∀ e ∈ read, ∃ i < n, e ∈ listing i
  /-- A key that was listed at all turns is read, if it does not come after the key. -/
  all : ∀ k, ¬IsAfter key k → (∀ i < n, k ∈ (listing i).map Prod.fst) → k ∈ read.map Prod.fst

/-- What is read and a page after it. -/
theorem Upto.append (limit : Nat) (h : Upto listing n key read) (hsorted : Sorted (listing n)) :
    Sorted (read ++ items limit key (listing n)) ∧
      ∀ e ∈ read ++ items limit key (listing n), ∃ i < n + 1, e ∈ listing i := by
  constructor
  · refine List.pairwise_append.2 ⟨h.sorted, hsorted.items limit key, fun e he e' he' => ?_⟩
    have hafter := (mem_of_mem_items he').2
    cases hkey : key with
    | none =>
      rw [hkey] at h
      exact absurd (isAfter_none e.1) (h.bounded e he)
    | some key' =>
      rw [hkey] at h hafter
      have hle : e.1 ≤ key' := not_lt.1 fun hlt => h.bounded e he ((isAfter_some key' e.1).2 hlt)
      exact lt_of_le_of_lt hle ((isAfter_some key' e'.1).1 hafter)
  · intro e he
    rcases List.mem_append.1 he with he | he
    · obtain ⟨i, hi, hmem⟩ := h.listed e he
      exact ⟨i, by omega, hmem⟩
    · exact ⟨n, by omega, (mem_of_mem_items he).1⟩

/-- What is read of a listing that may change, however it changes. -/
theorem Reads.upto (h : Reads limit listing n key read) (hsorted : ∀ i < n, Sorted (listing i)) : Upto listing n key read := by
  induction h with
  | start =>
    exact { sorted := List.Pairwise.nil, bounded := by simp, listed := by simp, all := fun k hk _ => absurd (isAfter_none k) hk }
  | @page n key read k _ hnext ih =>
    have hread := ih fun i hi => hsorted i (by omega)
    obtain ⟨hafter, -, hmem⟩ := mem_items_of_next (hsorted n (by omega)) hnext
    obtain ⟨hpage, hlisted⟩ := Upto.append limit hread (hsorted n (by omega))
    refine { sorted := hpage, bounded := ?_, listed := hlisted, all := ?_ }
    · intro e he hlt
      rw [isAfter_some] at hlt
      rcases List.mem_append.1 he with he | he
      · refine hread.bounded e he fun key' hkey' => ?_
        exact lt_trans (hafter key' hkey') hlt
      · exact absurd hlt (not_lt_of_ge ((hmem e).1 he).2.2)
    · intro key' hle hall
      rw [isAfter_some, not_lt] at hle
      rw [List.map_append, List.mem_append]
      by_cases hkey : IsAfter key key'
      · obtain ⟨e, he, rfl⟩ := List.mem_map.1 (hall n (by omega))
        exact .inr (List.mem_map_of_mem ((hmem e).2 ⟨he, hkey, hle⟩))
      · exact .inl (hread.all key' hkey fun i hi => hall i (by omega))

/-- What all pages of a listing come to, however it changes: its keys are in order, it was listed at one of the turns, and it holds
every key that is listed at all of them. -/
theorem Reads.last (hlimit : 0 < limit) (h : Reads limit listing n key read) (hnext : next limit key (listing n) = none)
    (hsorted : ∀ i ≤ n, Sorted (listing i)) :
    Sorted (read ++ items limit key (listing n)) ∧
      (∀ e ∈ read ++ items limit key (listing n), ∃ i ≤ n, e ∈ listing i) ∧
      ∀ k, (∀ i ≤ n, k ∈ (listing i).map Prod.fst) → k ∈ (read ++ items limit key (listing n)).map Prod.fst := by
  have hread := h.upto fun i hi => hsorted i (by omega)
  obtain ⟨hpage, hlisted⟩ := Upto.append limit hread (hsorted n (Nat.le_refl n))
  refine ⟨hpage, fun e he => ?_, fun k hall => ?_⟩
  · obtain ⟨i, hi, hmem⟩ := hlisted e he
    exact ⟨i, by omega, hmem⟩
  · rw [List.map_append, List.mem_append, items_of_next_none hlimit hnext]
    by_cases hkey : IsAfter key k
    · obtain ⟨e, he, rfl⟩ := List.mem_map.1 (hall n (Nat.le_refl n))
      exact .inr (List.mem_map_of_mem (mem_after.2 ⟨he, hkey⟩))
    · exact .inl (hread.all k hkey fun i hi => hall i (by omega))

/-! ## A listing that does not change -/

/-- What comes after the key of an entry is what is listed after it. -/
theorem after_of_split {front back : List (κ × α)} (hsorted : Sorted (front ++ e :: back)) :
    after (some e.1) (front ++ e :: back) = back := by
  obtain ⟨-, hback, hcross⟩ := List.pairwise_append.1 hsorted
  have hfront : front.filter (fun e' => decide (IsAfter (some e.1) e'.1)) = [] := by
    rw [List.filter_eq_nil_iff]
    intro e' he'
    simpa using le_of_lt (hcross e' he' e (by simp))
  have hrest : back.filter (fun e' => decide (IsAfter (some e.1) e'.1)) = back := by
    rw [List.filter_eq_self]
    intro e' he'
    simpa using (List.pairwise_cons.1 hback).1 e' he'
  unfold after
  rw [List.filter_append, hfront, List.filter_cons_of_neg (by simp), hrest, List.nil_append]

/-- A full page that is not the last leaves what is listed behind it. -/
theorem next_of_drop {m : Nat} (hlimit : 0 < limit) (hsorted : Sorted entries) (hlt : m + limit < entries.length)
    (hafter : after key entries = entries.drop m) :
    ∃ k, next limit key entries = some k ∧ after (some k) entries = entries.drop (m + limit) := by
  have hbound : m + limit - 1 < entries.length := by omega
  have hlength : (items limit key entries).length = limit := by
    rw [items, hafter, List.length_take, List.length_drop]
    omega
  have hlast : (items limit key entries).getLast? = some entries[m + limit - 1] := by
    rw [List.getLast?_eq_getElem?, hlength, items, hafter, List.getElem?_take_of_lt (by omega), List.getElem?_drop,
      List.getElem?_eq_getElem (by omega)]
    congr 2
    omega
  refine ⟨entries[m + limit - 1].1, ?_, ?_⟩
  · unfold next
    rw [if_pos (by rw [hafter, List.length_drop]; omega), hlast]
    rfl
  · have hsplit : entries = entries.take (m + limit - 1) ++ entries[m + limit - 1] :: entries.drop (m + limit) := by
      have hdrop : entries.drop (m + limit) = entries.drop (m + limit - 1 + 1) := congrArg entries.drop (by omega)
      rw [hdrop, ← List.drop_eq_getElem_cons hbound, List.take_append_drop]
    generalize entries[m + limit - 1] = e at hsplit
    rw [hsplit] at hsorted
    have hback := after_of_split hsorted
    rwa [← hsplit] at hback

/-- The pages of a listing that does not change: as many full ones as come before its end. -/
theorem reads_fixed (hlimit : 0 < limit) (hsorted : Sorted entries) (hn : n * limit < entries.length ∨ n = 0) :
    ∃ key, Reads limit (fun _ => entries) n key (entries.take (n * limit)) ∧ after key entries = entries.drop (n * limit) := by
  induction n with
  | zero => exact ⟨none, by simpa using Reads.start, by simp⟩
  | succ n ih =>
    have hlt : (n + 1) * limit < entries.length := hn.resolve_right (by omega)
    rw [Nat.add_mul, Nat.one_mul] at hlt
    obtain ⟨key, hreads, hafter⟩ := ih (.inl (by omega))
    obtain ⟨k, hnext, hrest⟩ := next_of_drop hlimit hsorted hlt hafter
    refine ⟨some k, ?_, ?_⟩
    · have hpage := Reads.page hreads hnext
      rwa [items, hafter, ← List.take_add, ← Nat.succ_mul] at hpage
    · rwa [Nat.add_mul, Nat.one_mul]

/-- All pages of a listing that does not change are the listing. -/
theorem reads_all (hlimit : 0 < limit) (hsorted : Sorted entries) :
    ∃ key read, Reads limit (fun _ => entries) ((entries.length - 1) / limit) key read ∧ next limit key entries = none ∧
      read ++ items limit key entries = entries := by
  have hfull : (entries.length - 1) / limit * limit < entries.length ∨ (entries.length - 1) / limit = 0 := by
    have hle := Nat.div_mul_le_self (entries.length - 1) limit
    cases entries with
    | nil => exact .inr (by simp)
    | cons e entries =>
      left
      rw [List.length_cons] at hle ⊢
      omega
  have hrest : entries.length ≤ (entries.length - 1) / limit * limit + limit := by
    have hlt := Nat.lt_div_mul_add (a := entries.length - 1) hlimit
    omega
  obtain ⟨key, hreads, hafter⟩ := reads_fixed hlimit hsorted hfull
  have hnone : next limit key entries = none := by
    unfold next
    rw [if_neg (by rw [hafter, List.length_drop]; omega)]
  refine ⟨key, _, hreads, hnone, ?_⟩
  rw [items_of_next_none hlimit hnone, hafter, List.take_append_drop]

end Paging

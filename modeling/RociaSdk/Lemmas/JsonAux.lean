import Mathlib.Data.String.Basic
import Mathlib.Tactic.IntervalCases
import RociaSdk.Json

/-!
# Equality and order of JSON values

Equality of values is symmetric (`eq_symm`). `compare_json` compares values of different kinds by their texts. Since the first
character of a text tells its kind, this puts the kinds in order (`compareJson_eq`): strings, numbers, arrays, `false`, `null`, `true`,
objects. So it is a total order up to what it does not tell apart (`transCmp_compareJson`), and a sort by it is well defined.
-/

namespace RociaSdk

namespace JsonAux

open Value

variable {N : Type} {numbers : Numbers N} {a b : Value N}

/-! ## Equality -/

mutual

/-- Equality looks the same from both sides. -/
theorem eq_symm (numbers : Numbers N) : ∀ a b : Value N, a.eq numbers b = b.eq numbers a
  | .null, b => by cases b <;> simp [Value.eq]
  | .bool a, b => by
    cases b with
    | bool b => exact decide_eq_decide.2 ⟨Eq.symm, Eq.symm⟩
    | _ => simp [Value.eq]
  | .number a, b => by
    cases b with
    | number b => simp [Value.eq, numbers.eq_comm a b]
    | _ => simp [Value.eq]
  | .string a, b => by
    cases b with
    | string b => exact decide_eq_decide.2 ⟨Eq.symm, Eq.symm⟩
    | _ => simp [Value.eq]
  | .array as, b => by
    cases b with
    | array bs => simp [Value.eq, eqItems_comm numbers as bs]
    | _ => simp [Value.eq]
  | .object as, b => by
    cases b with
    | object bs => simp [Value.eq, eqEntries_comm numbers as bs]
    | _ => simp [Value.eq]

theorem eqItems_comm (numbers : Numbers N) : ∀ as bs : List (Value N), eqItems numbers as bs = eqItems numbers bs as
  | [], bs => by cases bs <;> simp [eqItems]
  | a :: as, bs => by
    cases bs with
    | nil => simp [eqItems]
    | cons b bs => simp [eqItems, eq_symm numbers a b, eqItems_comm numbers as bs]

theorem eqEntries_comm (numbers : Numbers N) :
    ∀ as bs : List (String × Value N), eqEntries numbers as bs = eqEntries numbers bs as
  | [], bs => by cases bs <;> simp [eqEntries]
  | (k, a) :: as, bs => by
    cases bs with
    | nil => simp [eqEntries]
    | cons entry bs =>
      obtain ⟨l, b⟩ := entry
      have hkey : (decide (k = l)) = decide (l = k) := decide_eq_decide.2 ⟨Eq.symm, Eq.symm⟩
      simp [eqEntries, hkey, eq_symm numbers a b, eqEntries_comm numbers as bs]

end

/-- Nothing but `Null` equals it. -/
theorem eq_null (numbers : Numbers N) {a : Value N} (h : a ≠ .null) : a.eq numbers .null = false := by
  cases a with
  | null => exact absurd rfl h
  | _ => simp [Value.eq]

/-! ## Order -/

/-- The place of the kind of a value among the kinds. -/
def rank : Value N → ℕ
  | .string _ => 0
  | .number _ => 1
  | .array _ => 2
  | .bool false => 3
  | .null => 4
  | .bool true => 5
  | .object _ => 6

/-- Where the first characters of the texts of a kind begin. -/
def lowest : ℕ → ℕ
  | 0 => 34
  | 1 => 45
  | 2 => 91
  | 3 => 102
  | 4 => 110
  | 5 => 116
  | 6 => 123
  | _ => 124

theorem lowest_mono {m n : ℕ} (h : m < n) (hn : n ≤ 6) : lowest (m + 1) ≤ lowest n := by
  have hm : m ≤ 5 := by omega
  interval_cases n <;> interval_cases m <;> simp_all [lowest]

theorem rank_le (a : Value N) : rank a ≤ 6 := by
  cases a with
  | bool value => cases value <;> simp [rank]
  | _ => simp [rank]

/-- The first character of a text tells the kind of the value. -/
theorem text_head (numbers : Numbers N) (a : Value N) :
    ∃ c rest, a.text numbers = c :: rest ∧ lowest (rank a) ≤ c.toNat ∧ c.toNat < lowest (rank a + 1) := by
  cases a with
  | null => exact ⟨'n', _, rfl, show lowest 4 ≤ 110 by decide, show 110 < lowest 5 by decide⟩
  | bool value =>
    cases value with
    | false => exact ⟨'f', _, rfl, show lowest 3 ≤ 102 by decide, show 102 < lowest 4 by decide⟩
    | true => exact ⟨'t', _, rfl, show lowest 5 ≤ 116 by decide, show 116 < lowest 6 by decide⟩
  | number n =>
    obtain ⟨c, rest, htext, hc⟩ := numbers.text_head n
    refine ⟨c, rest, by rw [text, htext], ?_⟩
    rcases hc with rfl | hdigit
    · exact ⟨show lowest 1 ≤ 45 by decide, show 45 < lowest 2 by decide⟩
    · unfold Char.isDigit at hdigit
      rw [Bool.and_eq_true, decide_eq_true_iff, decide_eq_true_iff, ge_iff_le, UInt32.le_iff_toNat_le, UInt32.le_iff_toNat_le] at hdigit
      have hbounds : 48 ≤ c.toNat ∧ c.toNat ≤ 57 := hdigit
      show lowest 1 ≤ c.toNat ∧ c.toNat < lowest 2
      simp only [lowest]
      omega
  | string value => exact ⟨quote, _, by rw [text, quoted, List.cons_append], show lowest 0 ≤ 34 by decide, show 34 < lowest 1 by decide⟩
  | array items => exact ⟨'[', _, by rw [text, List.cons_append], show lowest 2 ≤ 91 by decide, show 91 < lowest 3 by decide⟩
  | object entries =>
    exact ⟨Char.ofNat 123, _, by rw [text, List.cons_append], show lowest 6 ≤ 123 by decide, show 123 < lowest 7 by decide⟩

/-- The texts of two kinds come in the order of the kinds. -/
theorem compare_text (numbers : Numbers N) (h : rank a < rank b) :
    compare (String.ofList (a.text numbers)) (String.ofList (b.text numbers)) = .lt := by
  obtain ⟨c, rest, ha, -, hc⟩ := text_head numbers a
  obtain ⟨d, rest', hb, hd, -⟩ := text_head numbers b
  have hcd : c.toNat < d.toNat := lt_of_lt_of_le hc ((lowest_mono h (rank_le b)).trans hd)
  rw [compare_lt_iff_lt, String.lt_iff_toList_lt, String.toList_ofList, String.toList_ofList, ha, hb]
  exact List.Lex.rel (Char.lt_def.2 (UInt32.lt_iff_toNat_lt.2 hcd))

/-- The number of a number. -/
def numberOf (numbers : Numbers N) : Value N → ℚ
  | .number n => numbers.asF64 n
  | _ => 0

/-- The text by which strings, arrays and objects are compared. -/
def textOf (numbers : Numbers N) : Value N → String
  | .string value => value
  | .array items => String.ofList ((array items).text numbers)
  | .object entries => String.ofList ((object entries).text numbers)
  | _ => ""

/-- Values are compared by their kinds, and within a kind as numbers or as texts. -/
def ordering (numbers : Numbers N) : Value N → Value N → Ordering :=
  compareLex (compareOn rank) (compareLex (compareOn (numberOf numbers)) (compareOn (textOf numbers)))

theorem ordering_of_rank_lt (h : rank a < rank b) : ordering numbers a b = .lt := by
  simp [ordering, compareLex, compareOn, compare_lt_iff_lt.2 h]

theorem ordering_of_rank_gt (h : rank b < rank a) : ordering numbers a b = .gt := by
  simp [ordering, compareLex, compareOn, compare_gt_iff_gt.2 h]

theorem ordering_of_rank_eq (h : rank a = rank b) :
    ordering numbers a b = (compare (numberOf numbers a) (numberOf numbers b)).then (compare (textOf numbers a) (textOf numbers b)) := by
  simp [ordering, compareLex, compareOn, h]

/-- Values that are compared by their texts are in order. -/
theorem compare_text_eq (htext : rank a = rank b →
      compare (String.ofList (a.text numbers)) (String.ofList (b.text numbers)) = ordering numbers a b) :
    compare (String.ofList (a.text numbers)) (String.ofList (b.text numbers)) = ordering numbers a b := by
  rcases Nat.lt_trichotomy (rank a) (rank b) with hlt | heq | hgt
  · rw [compare_text numbers hlt, ordering_of_rank_lt hlt]
  · exact htext heq
  · have hswap : ∀ x y : String, compare x y = (compare y x).swap := fun x y => Std.OrientedCmp.eq_swap
    rw [hswap, compare_text numbers hgt, ordering_of_rank_gt hgt, Ordering.swap_lt]

/-- `compare_json` compares values by their kinds, and within a kind as numbers or as texts. -/
theorem compareJson_eq (numbers : Numbers N) (a b : Value N) : compareJson numbers a b = ordering numbers a b := by
  unfold compareJson
  split
  · simp [ordering, compareLex, compareOn, rank, numberOf, textOf]
  · simp [ordering, compareLex, compareOn, rank, numberOf, textOf]
  · rename_i left right
    cases left <;> cases right <;> simp [ordering, compareLex, compareOn, rank, numberOf, textOf] <;> rfl
  · rename_i hnumber hstring hbool
    refine compare_text_eq fun h => ?_
    rw [ordering_of_rank_eq h]
    -- Two values of one kind: what is left are two nulls, two arrays or two objects.
    cases a with
    | null =>
      cases b with
      | null => simp [numberOf, textOf]
      | bool value => cases value <;> cases h
      | _ => cases h
    | bool value =>
      cases b with
      | bool value' => exact absurd rfl (hbool value value' rfl)
      | _ => cases value <;> cases h
    | number n =>
      cases b with
      | number n' => exact absurd rfl (hnumber n n' rfl)
      | bool value => cases value <;> cases h
      | _ => cases h
    | string value =>
      cases b with
      | string value' => exact absurd rfl (hstring value value' rfl)
      | bool value => cases value <;> cases h
      | _ => cases h
    | array items =>
      cases b with
      | array items' => simp [numberOf, textOf]
      | bool value => cases value <;> cases h
      | _ => cases h
    | object entries =>
      cases b with
      | object entries' => simp [numberOf, textOf]
      | bool value => cases value <;> cases h
      | _ => cases h

instance transCmp_compareJson (numbers : Numbers N) : Std.TransCmp (compareJson numbers) := by
  have heq : compareJson numbers = ordering numbers := funext fun a => funext fun b => compareJson_eq numbers a b
  rw [heq]
  unfold ordering
  infer_instance

end JsonAux

end RociaSdk

import Mathlib.Algebra.Group.Nat.Defs
import Mathlib.Data.List.Induction

/-!
# Decimal numbers of a fixed width

Numbers written with a given number of ASCII digits, and the value such digits have. `value?_eq_some_iff` says that the bytes
with a value are those that are written, each for its own value.
-/

namespace Decimals

/-- The last digits of a number, so many of them. -/
def digitsOf : Nat → Nat → List Nat
  | 0, _ => []
  | width + 1, value => digitsOf width (value / 10) ++ [value % 10]

/-- The number of some digits, the first one first. -/
def ofDigits (digits : List Nat) : Nat := digits.foldl (fun value digit => value * 10 + digit) 0

/-- The byte of a digit. -/
def digitByte (digit : Nat) : UInt8 := UInt8.ofNat (48 + digit)

/-- A number, written with so many digits: leading ones that do not fit are left out. -/
def fixed : Nat → Nat → List UInt8
  | 0, _ => []
  | width + 1, value => fixed width (value / 10) ++ [digitByte (value % 10)]

/-- The value of a byte that is a digit. -/
def digit? (byte : UInt8) : Option Nat := if 48 ≤ byte.toNat ∧ byte.toNat ≤ 57 then some (byte.toNat - 48) else none

/-- The value of bytes that are digits. -/
def value? (bytes : List UInt8) : Option Nat := bytes.foldlM (fun value byte => (digit? byte).map fun digit => value * 10 + digit) 0

variable {bytes : List UInt8} {byte : UInt8} {width value digit : Nat}

/-! ## Digits -/

@[simp] theorem length_digitsOf (width value : Nat) : (digitsOf width value).length = width := by
  induction width generalizing value with
  | zero => rfl
  | succ width ih => rw [digitsOf, List.length_append, ih, List.length_singleton]

theorem lt_of_mem_digitsOf (h : digit ∈ digitsOf width value) : digit < 10 := by
  induction width generalizing value with
  | zero => exact nomatch h
  | succ width ih =>
    rcases List.mem_append.1 h with hinit | hlast
    · exact ih hinit
    · rw [List.mem_singleton.1 hlast]
      exact Nat.mod_lt _ (by decide)

/-- One digit more. -/
theorem ofDigits_concat (digits : List Nat) (digit : Nat) : ofDigits (digits ++ [digit]) = ofDigits digits * 10 + digit := by
  unfold ofDigits
  rw [List.foldl_append, List.foldl_cons, List.foldl_nil]

/-- Digits make a number of so many digits. -/
theorem ofDigits_lt {digits : List Nat} (hlt : ∀ digit ∈ digits, digit < 10) : ofDigits digits < 10 ^ digits.length := by
  induction digits using List.reverseRecOn with
  | nil => decide
  | append_singleton digits digit ih =>
    have hinit := ih fun d hd => hlt d (List.mem_append_left _ hd)
    have hlast := hlt digit (List.mem_append_right _ (List.mem_singleton_self _))
    rw [ofDigits_concat, List.length_append, List.length_singleton, Nat.pow_succ]
    omega

/-- A number that fits has its digits. -/
theorem ofDigits_digitsOf (h : value < 10 ^ width) : ofDigits (digitsOf width value) = value := by
  induction width generalizing value with
  | zero => exact (Nat.lt_one_iff.1 h).symm
  | succ width ih =>
    rw [Nat.pow_succ] at h
    rw [digitsOf, ofDigits_concat, ih (by omega)]
    omega

/-! ## Bytes -/

@[simp] theorem length_fixed (width value : Nat) : (fixed width value).length = width := by
  induction width generalizing value with
  | zero => rfl
  | succ width ih => rw [fixed, List.length_append, ih, List.length_singleton]

/-- The bytes that are written are those of digits. -/
theorem exists_digit_of_mem_fixed (h : byte ∈ fixed width value) : ∃ digit < 10, byte = digitByte digit := by
  induction width generalizing value with
  | zero => exact nomatch h
  | succ width ih =>
    rcases List.mem_append.1 h with hinit | hlast
    · exact ih hinit
    · exact ⟨value % 10, Nat.mod_lt _ (by decide), List.mem_singleton.1 hlast⟩

/-- The numbers of two and of four digits. -/
@[simp] theorem fixed_two (value : Nat) : fixed 2 value = [digitByte (value / 10 % 10), digitByte (value % 10)] := rfl

@[simp] theorem fixed_four (value : Nat) :
    fixed 4 value =
      [digitByte (value / 10 / 10 / 10 % 10), digitByte (value / 10 / 10 % 10), digitByte (value / 10 % 10), digitByte (value % 10)] :=
  rfl

theorem toNat_digitByte (h : digit < 10) : (digitByte digit).toNat = 48 + digit := UInt8.toNat_ofNat_of_lt' (by
  rw [UInt8.size]
  omega)

/-- A byte has the value of a digit when it is the byte of that digit. -/
theorem digit?_eq_some_iff : digit? byte = some digit ↔ digit < 10 ∧ byte = digitByte digit := by
  unfold digit?
  rw [Option.ite_none_right_eq_some, Option.some.injEq]
  constructor
  · rintro ⟨⟨hlow, hhigh⟩, hdigit⟩
    have hlt : digit < 10 := by omega
    refine ⟨hlt, UInt8.toNat_inj.1 ?_⟩
    rw [toNat_digitByte hlt]
    omega
  · rintro ⟨hlt, rfl⟩
    rw [toNat_digitByte hlt]
    omega

/-- One digit more. -/
theorem value?_concat (bytes : List UInt8) (byte : UInt8) :
    value? (bytes ++ [byte]) = (value? bytes).bind fun value => (digit? byte).map fun digit => value * 10 + digit := by
  unfold value?
  rw [List.foldlM_append]
  cases bytes.foldlM (fun value byte => (digit? byte).map fun digit => value * 10 + digit) 0 with
  | none => rfl
  | some value =>
    show ((digit? byte).map fun digit => value * 10 + digit) >>= pure = _
    exact bind_pure _

/-- The bytes with a value are those that are written for it. -/
theorem value?_eq_some_iff : value? bytes = some value ↔ value < 10 ^ bytes.length ∧ bytes = fixed bytes.length value := by
  induction bytes using List.reverseRecOn generalizing value with
  | nil =>
    rw [show value? [] = some 0 from rfl, Option.some.injEq, List.length_nil, Nat.pow_zero, Nat.lt_one_iff]
    exact ⟨fun h => ⟨h.symm, rfl⟩, fun h => h.1.symm⟩
  | append_singleton bytes byte ih =>
    rw [value?_concat, List.length_append, List.length_singleton, Nat.pow_succ, fixed, Option.bind_eq_some_iff]
    constructor
    · rintro ⟨front, hfront, hlast⟩
      obtain ⟨digit, hdigit, rfl⟩ := Option.map_eq_some_iff.1 hlast
      obtain ⟨hlt, hbytes⟩ := ih.1 hfront
      obtain ⟨hten, rfl⟩ := digit?_eq_some_iff.1 hdigit
      have hdiv : (front * 10 + digit) / 10 = front := by omega
      have hmod : (front * 10 + digit) % 10 = digit := by omega
      refine ⟨by omega, ?_⟩
      rw [hdiv, hmod, ← hbytes]
    · rintro ⟨hlt, hbytes⟩
      obtain ⟨hfront, hlast⟩ := List.append_inj' hbytes rfl
      refine ⟨value / 10, ih.2 ⟨by omega, hfront⟩, Option.map_eq_some_iff.2 ⟨value % 10, ?_, by omega⟩⟩
      exact digit?_eq_some_iff.2 ⟨Nat.mod_lt _ (by decide), List.singleton_inj.1 hlast⟩

end Decimals

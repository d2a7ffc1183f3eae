import Mathlib.Data.List.Induction
import RociaSdk.Lib.Scaling
import RociaSdk.Retry

/-!
# The distribution of a jittered delay

`full_jitter` scales a 56-bit numerator onto the nanoseconds up to its cap. What it computes on the way fits its types, and each
nanosecond of a cap below `2 ^ 56` is drawn for as many numerators as every other one, up to one numerator.
-/

namespace RociaSdk

/-- How many numerators a delay of `v` nanoseconds is drawn for. -/
def draws (n v : Nat) : Nat := ((Finset.range (2 ^ 56)).filter fun numerator => fullJitter n numerator = v).card

/-- What `full_jitter` computes fits the types of the source: the nanoseconds of the cap and the product 128 bits, and the product
shifted the 64 bits it is converted to. -/
structure JitterFits (cap : Duration) (numerator : Nat) : Prop where
  nanos : cap.nanos < 2 ^ 128
  product : (min cap.nanos (2 ^ 64 - 1) + 1) * numerator < 2 ^ 128
  scaled : (min cap.nanos (2 ^ 64 - 1) + 1) * numerator / 2 ^ 56 < 2 ^ 64

namespace JitterAux

/-! ## The numerators -/

/-- The number that bytes are in base 256. -/
def beValue (bytes : List UInt8) : Nat := bytes.foldl (fun n byte => n * 256 + byte.toNat) 0

theorem beValue_concat (bytes : List UInt8) (last : UInt8) : beValue (bytes ++ [last]) = beValue bytes * 256 + last.toNat := by
  unfold beValue
  rw [List.foldl_append, List.foldl_cons, List.foldl_nil]

/-- So many bytes are below such a power. -/
theorem beValue_lt (bytes : List UInt8) : beValue bytes < 256 ^ bytes.length := by
  induction bytes using List.reverseRecOn with
  | nil => exact Nat.one_pos
  | append_singleton bytes last ih =>
    have hlast : last.toNat < 256 := last.toNat_lt
    rw [beValue_concat, List.length_append, List.length_singleton, Nat.pow_succ]
    omega

/-- As many bytes with the same value are the same. -/
theorem beValue_injective {bytes others : List UInt8} (hlen : bytes.length = others.length) (h : beValue bytes = beValue others) :
    bytes = others := by
  induction bytes using List.reverseRecOn generalizing others with
  | nil => exact (List.length_eq_zero_iff.1 hlen.symm).symm
  | append_singleton bytes last ih =>
    obtain rfl | ⟨others, other, rfl⟩ := List.eq_nil_or_concat' others
    · simp at hlen
    · have hlast : last.toNat < 256 := last.toNat_lt
      have hother : other.toNat < 256 := other.toNat_lt
      rw [List.length_append, List.length_append, List.length_singleton, List.length_singleton] at hlen
      rw [beValue_concat, beValue_concat] at h
      rw [ih (Nat.add_right_cancel hlen) (by omega), UInt8.toNat_inj.1 (by omega : last.toNat = other.toNat)]

/-- Every number below such a power is the value of so many bytes. -/
theorem exists_beValue (n x : Nat) (h : x < 256 ^ n) : ∃ bytes : List UInt8, bytes.length = n ∧ beValue bytes = x := by
  induction n generalizing x with
  | zero =>
    rw [Nat.pow_zero, Nat.lt_one_iff] at h
    exact ⟨[], rfl, h.symm⟩
  | succ n ih =>
    rw [Nat.pow_succ] at h
    obtain ⟨bytes, hlen, hvalue⟩ := ih (x / 256) (by omega)
    refine ⟨bytes ++ [UInt8.ofNat (x % 256)], by rw [List.length_append, hlen, List.length_singleton], ?_⟩
    have hbyte : (UInt8.ofNat (x % 256)).toNat = x % 256 := by
      rw [UInt8.toNat_ofNat']
      exact Nat.mod_eq_of_lt (Nat.mod_lt _ (by decide))
    rw [beValue_concat, hvalue, hbyte]
    omega

/-- The last seven bytes of a UUID. -/
theorem length_drop (uuid : Vector UInt8 16) : (uuid.toList.drop 9).length = 7 := by
  rw [List.length_drop, Vector.length_toList]

/-- A numerator is the number that seven bytes are. -/
theorem toNat_jitterNumerator (uuid : Vector UInt8 16) : (jitterNumerator uuid).toNat = beValue (uuid.toList.drop 9) := by
  have hlt := beValue_lt (uuid.toList.drop 9)
  rw [length_drop] at hlt
  have hzero : (0 :: uuid.toList.drop 9).foldl (fun n byte => n * 256 + byte.toNat) 0 = beValue (uuid.toList.drop 9) := rfl
  unfold jitterNumerator fromBeBytes
  rw [hzero, UInt64.toNat_ofNat']
  exact Nat.mod_eq_of_lt (Nat.lt_trans hlt (by decide))

/-- It has 56 bits. -/
theorem jitterNumerator_lt (uuid : Vector UInt8 16) : (jitterNumerator uuid).toNat < 2 ^ 56 := by
  have hlt := beValue_lt (uuid.toList.drop 9)
  rw [length_drop] at hlt
  rw [toNat_jitterNumerator]
  exact hlt

/-- The numerator and the seven bytes determine each other. -/
theorem jitterNumerator_eq_iff (uuid other : Vector UInt8 16) :
    jitterNumerator uuid = jitterNumerator other ↔ uuid.toList.drop 9 = other.toList.drop 9 := by
  rw [← UInt64.toNat_inj, toNat_jitterNumerator, toNat_jitterNumerator]
  constructor
  · exact beValue_injective (by rw [length_drop, length_drop])
  · exact congrArg beValue

/-- Every number of 56 bits is a numerator, whatever the other nine bytes are. -/
theorem exists_jitterNumerator (head : Vector UInt8 9) {x : Nat} (h : x < 2 ^ 56) :
    ∃ uuid : Vector UInt8 16, uuid.toList.take 9 = head.toList ∧ (jitterNumerator uuid).toNat = x := by
  obtain ⟨bytes, hlen, hvalue⟩ := exists_beValue 7 x h
  refine ⟨⟨(head.toList ++ bytes).toArray, by simp [hlen]⟩, ?_, ?_⟩
  · simp
  · rw [toNat_jitterNumerator, ← hvalue]
    simp

/-! ## The delays -/

/-- A jittered delay is the numerator scaled onto the nanoseconds up to the cap. -/
theorem fullJitter_eq_scale (cap : Nat) {numerator : Nat} (h : numerator < 2 ^ 56) :
    fullJitter cap numerator = Scaling.scale (min cap (2 ^ 64 - 1) + 1) (2 ^ 56) numerator := by
  have hlt := Scaling.scale_lt (Nat.add_one_pos (min cap (2 ^ 64 - 1))) h
  unfold fullJitter
  split
  · rename_i hzero
    rw [hzero, Nat.zero_min] at hlt ⊢
    exact (Nat.lt_one_iff.1 hlt).symm
  · exact Nat.min_eq_left (Nat.le_of_lt_succ hlt)

/-- What is computed fits. -/
theorem jitterFits (cap : Duration) {numerator : Nat} (h : numerator < 2 ^ 56) : JitterFits cap numerator where
  nanos := Nat.lt_of_le_of_lt cap.le_max (by decide)
  product := by
    have hcap : min cap.nanos (2 ^ 64 - 1) + 1 ≤ 2 ^ 64 := by omega
    have hroom : 2 ^ 64 * 2 ^ 56 < 2 ^ 128 := by decide
    exact Nat.lt_of_le_of_lt (Nat.mul_le_mul hcap (Nat.le_of_lt h)) hroom
  scaled := by
    have hlt := Scaling.scale_lt (Nat.add_one_pos (min cap.nanos (2 ^ 64 - 1))) h
    unfold Scaling.scale at hlt
    omega

/-- A greater numerator draws no smaller delay. -/
theorem fullJitter_mono (cap : Nat) {numerator other : Nat} (h : numerator ≤ other) :
    fullJitter cap numerator ≤ fullJitter cap other := by
  unfold fullJitter
  split
  · exact Nat.le_refl _
  · have hscaled := Scaling.scale_mono (min cap (2 ^ 64 - 1) + 1) (2 ^ 56) h
    unfold Scaling.scale at hscaled
    simp only
    omega

/-- How many numerators a delay is drawn for, below a cap that fits 64 bits. -/
theorem draws_eq {n : Nat} (h : n < 2 ^ 64) (v : Nat) :
    draws n v = ((Finset.range (2 ^ 56)).filter fun numerator => Scaling.scale (n + 1) (2 ^ 56) numerator = v).card := by
  refine congrArg Finset.card (Finset.filter_congr ?_)
  intro numerator hmem
  rw [fullJitter_eq_scale n (Finset.mem_range.1 hmem), Nat.min_eq_left (Nat.le_sub_one_of_lt h)]

end JitterAux

open JitterAux

/-- The numerators are the 56-bit numbers, one for each way the last seven bytes of a UUID can be, whatever the other nine are. A
jittered delay is within its cap, and what it is computed by fits the types. With a cap of fewer than `2 ^ 56` nanoseconds a greater
numerator draws no smaller delay, and every delay up to the cap is drawn, for as many numerators as there are for each of them, rounded
down or up. -/
theorem full_jitter_uniform :
    (∀ uuid, (jitterNumerator uuid).toNat < 2 ^ 56) ∧
    (∀ uuid other, jitterNumerator uuid = jitterNumerator other ↔ uuid.toList.drop 9 = other.toList.drop 9) ∧
    (∀ (head : Vector UInt8 9) (x : Nat), x < 2 ^ 56 →
      ∃ uuid : Vector UInt8 16, uuid.toList.take 9 = head.toList ∧ (jitterNumerator uuid).toNat = x) ∧
    (∀ (cap : Duration) (numerator : Nat), numerator < 2 ^ 56 →
      fullJitter cap.nanos numerator ≤ cap.nanos ∧ JitterFits cap numerator) ∧
    ∀ n, n + 1 ≤ 2 ^ 56 →
      (∀ numerator other, numerator ≤ other → fullJitter n numerator ≤ fullJitter n other) ∧
      ∀ v ≤ n, 0 < draws n v ∧ (draws n v = 2 ^ 56 / (n + 1) ∨ draws n v = 2 ^ 56 ⌈/⌉ (n + 1)) := by
  refine ⟨jitterNumerator_lt, jitterNumerator_eq_iff, fun head _ => exists_jitterNumerator head,
    fun cap numerator h => ⟨fullJitter_le _ _, jitterFits cap h⟩, ?_⟩
  intro n hn
  refine ⟨fun _ _ => fullJitter_mono n, ?_⟩
  intro v hv
  have hdraws := draws_eq (Nat.lt_of_lt_of_le hn (by decide)) v
  have hcard := Scaling.card_fibre (Nat.add_one_pos n) (by decide : 0 < 2 ^ 56) (Nat.lt_succ_of_le hv)
  have hdown : 0 < 2 ^ 56 / (n + 1) := Nat.div_pos hn (Nat.add_one_pos n)
  have hup : 2 ^ 56 / (n + 1) ≤ 2 ^ 56 ⌈/⌉ (n + 1) := by
    rw [← Nat.floorDiv_eq_div]
    exact floorDiv_le_ceilDiv
  rw [← hdraws] at hcard
  refine ⟨?_, hcard⟩
  rcases hcard with heq | heq
  · rw [heq]
    exact hdown
  · rw [heq]
    exact Nat.lt_of_lt_of_le hdown hup

end RociaSdk

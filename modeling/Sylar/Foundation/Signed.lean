import Mathlib.Data.Int.Basic
import Mathlib.Tactic.NormNum

/-!
# Signed words

A natural number that is converted to a signed word of 32 bits keeps its low bits. It stays the
same below 2^31, it never becomes larger, and it becomes negative when the highest of these bits is
set.

Signed arithmetic has no result when the exact one leaves the range of the type. Where it has one
it is that of arithmetic with wraparound.

## Main definitions

* `signed32`: the conversion
* `signedResult`, `signedNeg`, `signedMul`: arithmetic on words of any width

## Main results

* `signed32_of_low`, `signed32_neg`: the two halves of the low bits
* `signed32_of_lt`, `signed32_le`: numbers that are kept, and the bound
* `signedNeg_isSome_iff`, `signedMul_two_isSome_iff`: the words that can be negated and doubled
-/

namespace Foundation

/-- A number as a signed word of 32 bits. -/
def signed32 (n : ℕ) : Int := Int.bmod n (2 ^ 32)

variable {n : ℕ}

theorem signed32_eq (n : ℕ) : signed32 n =
    if n % 2 ^ 32 < 2 ^ 31 then ((n % 2 ^ 32 : ℕ) : Int) else (n % 2 ^ 32 : ℕ) - 2 ^ 32 := by
  unfold signed32
  rw [Int.bmod_def]
  norm_num
  split_ifs
  · rfl
  · omega
  · omega
  · rfl

theorem signed32_of_low (h : n % 2 ^ 32 < 2 ^ 31) : signed32 n = (n % 2 ^ 32 : ℕ) := by
  rw [signed32_eq, if_pos h]

theorem signed32_neg (h : ¬ n % 2 ^ 32 < 2 ^ 31) : signed32 n < 0 := by
  have hlt : n % 2 ^ 32 < 2 ^ 32 := Nat.mod_lt n (by decide)
  rw [signed32_eq, if_neg h]
  omega

theorem signed32_of_lt (h : n < 2 ^ 31) : signed32 n = n := by
  have hmod : n % 2 ^ 32 = n := Nat.mod_eq_of_lt (Nat.lt_trans h (by decide))
  rw [signed32_of_low (by rwa [hmod]), hmod]

theorem signed32_le (n : ℕ) : signed32 n ≤ n := by
  have hle : n % 2 ^ 32 ≤ n := Nat.mod_le n _
  rw [signed32_eq]
  split_ifs <;> omega

/-! ## Arithmetic in the range -/

section Arithmetic

variable {w : ℕ} {x y z : BitVec w}

/-- The word of a result, if this is in the range of the signed words. -/
def signedResult (w : ℕ) (n : Int) : Option (BitVec w) :=
  if -2 ^ (w - 1) ≤ n ∧ n < 2 ^ (w - 1) then some (BitVec.ofInt w n) else none

/-- `-x`. -/
def signedNeg (x : BitVec w) : Option (BitVec w) := signedResult w (-x.toInt)

/-- `x * y`. -/
def signedMul (x y : BitVec w) : Option (BitVec w) := signedResult w (x.toInt * y.toInt)

theorem signedResult_isSome_iff {n : Int} :
    (signedResult w n).isSome ↔ -2 ^ (w - 1) ≤ n ∧ n < 2 ^ (w - 1) := by
  unfold signedResult
  split_ifs with h
  · exact iff_of_true rfl h
  · exact iff_of_false Bool.false_ne_true h

theorem eq_of_signedNeg (h : signedNeg x = some z) : z = -x := by
  unfold signedNeg signedResult at h
  split_ifs at h
  rw [← Option.some.inj h, BitVec.ofInt_neg, BitVec.ofInt_toInt]

theorem eq_of_signedMul (h : signedMul x y = some z) : z = x * y := by
  unfold signedMul signedResult at h
  split_ifs at h
  rw [← Option.some.inj h, BitVec.ofInt_mul, BitVec.ofInt_toInt, BitVec.ofInt_toInt]

/-- Every word but the least one can be negated. -/
theorem signedNeg_isSome_iff : (signedNeg x).isSome ↔ -2 ^ (w - 1) < x.toInt := by
  have hlt : x.toInt < 2 ^ (w - 1) := BitVec.toInt_lt
  rw [signedNeg, signedResult_isSome_iff]
  constructor
  · rintro ⟨-, hneg⟩
    exact neg_lt.mp hneg
  · intro h
    exact ⟨neg_le_neg hlt.le, neg_lt.mpr h⟩

/-- The words in the middle half of the range can be doubled. -/
theorem signedMul_two_isSome_iff (hw : 2 < w) :
    (signedMul x 2#w).isSome ↔ -2 ^ (w - 2) ≤ x.toInt ∧ x.toInt < 2 ^ (w - 2) := by
  obtain ⟨k, rfl⟩ : ∃ k, w = k + 3 := ⟨w - 3, (Nat.sub_add_cancel hw).symm⟩
  have htwo : (2#(k + 3)).toInt = 2 := by
    -- from three bits on the number two is not negative
    have hfour : 2 ^ 2 < 2 ^ (k + 3) := Nat.pow_lt_pow_right (by decide) (by omega)
    have hnat : (2#(k + 3)).toNat = 2 := Nat.mod_eq_of_lt (Nat.lt_trans (by decide) hfour)
    rw [BitVec.toInt_eq_toNat_of_lt (by rwa [hnat]), hnat]
    rfl
  have hpow : (2 : Int) ^ (k + 3 - 1) = 2 ^ (k + 3 - 2) * 2 := pow_succ 2 (k + 1)
  rw [signedMul, signedResult_isSome_iff, htwo, hpow, ← neg_mul]
  constructor
  · rintro ⟨hle, hlt⟩
    exact ⟨le_of_mul_le_mul_right hle two_pos, lt_of_mul_lt_mul_right hlt zero_le_two⟩
  · rintro ⟨hle, hlt⟩
    exact ⟨mul_le_mul_of_nonneg_right hle zero_le_two, mul_lt_mul_of_pos_right hlt two_pos⟩

end Arithmetic

end Foundation

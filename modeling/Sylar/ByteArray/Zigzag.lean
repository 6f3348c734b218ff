import Sylar.ByteArray.RoundTrip
import Sylar.Foundation.Signed

/-!
# Evaluating the zigzag encoders

`EncodeZigzag32` and `EncodeZigzag64` negate or double a signed value. The negative branch casts to
the unsigned type after the negation, and the other branch does not cast before it doubles. An
evaluation in which signed arithmetic leaves the range of its type has no value; one that has a
value agrees with the encoders of the byte array, which compute with wraparound.

## Main definitions

* `evalEncodeZigzag32`, `evalEncodeZigzag64`: the encoders, as `evalZigzag` at their widths

## Main results

* `eq_of_evalEncodeZigzag32`, `eq_of_evalEncodeZigzag64`: where an encoder has a value
* `encodeZigzag_in_range_iff`: the values that the encoders take without leaving the range
-/

namespace Sylar.ByteArray

open Foundation

section Eval

variable {w : ℕ} {v u : BitVec w}

/-- `v < 0 ? (unsigned)(-v) * 2 - 1 : v * 2`. -/
def evalZigzag (v : BitVec w) : Option (BitVec w) :=
  if v.slt 0#w then
    -- the product and the difference are unsigned
    (signedNeg v).map fun n => n * 2#w - 1#w
  else
    -- the product is signed; what is returned is its conversion
    signedMul v 2#w

theorem evalZigzag_of_neg (h : v.toInt < 0) :
    evalZigzag v = (signedNeg v).map fun n => n * 2#w - 1#w := by
  have hslt : v.slt 0#w = true := by
    rw [BitVec.slt_iff_toInt_lt, BitVec.toInt_zero]
    exact h
  rw [evalZigzag, if_pos hslt]

theorem evalZigzag_of_nonneg (h : 0 ≤ v.toInt) : evalZigzag v = signedMul v 2#w := by
  have hslt : ¬ v.slt 0#w = true := by
    rw [BitVec.slt_iff_toInt_lt, BitVec.toInt_zero]
    exact not_lt.mpr h
  rw [evalZigzag, if_neg hslt]

theorem eq_zigzag_of_evalZigzag (h : evalZigzag v = some u) : u = zigzag v := by
  unfold evalZigzag at h
  unfold zigzag
  split_ifs at h ⊢ with hneg
  · obtain ⟨n, hn, hu⟩ := Option.map_eq_some_iff.mp h
    rw [← hu, eq_of_signedNeg hn]
  · exact eq_of_signedMul h

/-- The negation fails at the least value only, the doubling on the upper half of the values that
are not negative. -/
theorem isSome_evalZigzag_iff (hw : 2 < w) :
    (evalZigzag v).isSome ↔ -2 ^ (w - 1) < v.toInt ∧ v.toInt < 2 ^ (w - 2) := by
  have hpow : (0 : Int) < 2 ^ (w - 2) := pow_pos two_pos _
  have hpow' : (0 : Int) < 2 ^ (w - 1) := pow_pos two_pos _
  by_cases hneg : v.toInt < 0
  · -- below zero the upper bound holds
    rw [evalZigzag_of_neg hneg, Option.isSome_map, signedNeg_isSome_iff]
    constructor
    · intro h
      exact ⟨h, hneg.trans hpow⟩
    · rintro ⟨h, -⟩
      exact h
  · -- from zero on the lower bounds hold
    have hnonneg : 0 ≤ v.toInt := not_lt.mp hneg
    rw [evalZigzag_of_nonneg hnonneg, signedMul_two_isSome_iff hw]
    constructor
    · rintro ⟨-, h⟩
      exact ⟨(neg_neg_of_pos hpow').trans_le hnonneg, h⟩
    · rintro ⟨-, h⟩
      exact ⟨(neg_neg_of_pos hpow).le.trans hnonneg, h⟩

end Eval

/-! ## The two encoders -/

/-- `EncodeZigzag32`. -/
def evalEncodeZigzag32 (v : Int32) : Option UInt32 := (evalZigzag v.toBitVec).map UInt32.ofBitVec

/-- `EncodeZigzag64`. -/
def evalEncodeZigzag64 (v : Int64) : Option UInt64 := (evalZigzag v.toBitVec).map UInt64.ofBitVec

theorem eq_of_evalEncodeZigzag32 {v : Int32} {u : UInt32} (h : evalEncodeZigzag32 v = some u) :
    u = encodeZigzag32 v := by
  obtain ⟨x, hx, rfl⟩ := Option.map_eq_some_iff.mp h
  apply UInt32.toBitVec_inj.mp
  rw [toBitVec_encodeZigzag32, ← eq_zigzag_of_evalZigzag hx]

theorem eq_of_evalEncodeZigzag64 {v : Int64} {u : UInt64} (h : evalEncodeZigzag64 v = some u) :
    u = encodeZigzag64 v := by
  obtain ⟨x, hx, rfl⟩ := Option.map_eq_some_iff.mp h
  apply UInt64.toBitVec_inj.mp
  rw [toBitVec_encodeZigzag64, ← eq_zigzag_of_evalZigzag hx]

/-- **The encoders stay in the range of their signed types exactly between the least value and a
quarter of the range above zero.** -/
theorem encodeZigzag_in_range_iff (v : Int32) (v' : Int64) :
    ((evalEncodeZigzag32 v).isSome ↔ -2 ^ 31 < v.toInt ∧ v.toInt < 2 ^ 30) ∧
      ((evalEncodeZigzag64 v').isSome ↔ -2 ^ 63 < v'.toInt ∧ v'.toInt < 2 ^ 62) := by
  constructor
  · rw [evalEncodeZigzag32, Option.isSome_map]
    exact isSome_evalZigzag_iff (by decide)
  · rw [evalEncodeZigzag64, Option.isSome_map]
    exact isSome_evalZigzag_iff (by decide)

/-- Each branch of each encoder leaves the range, the negation at the least value and the doubling
from a quarter of the range on. -/
theorem encodeZigzag_out_of_range :
    evalEncodeZigzag32 (-2147483648) = none ∧ evalEncodeZigzag32 1073741824 = none ∧
      evalEncodeZigzag64 (-9223372036854775808) = none ∧
      evalEncodeZigzag64 4611686018427387904 = none := by
  refine ⟨?_, ?_, ?_, ?_⟩ <;> decide +kernel

end Sylar.ByteArray

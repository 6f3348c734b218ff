import Mathlib.Data.List.Basic
import Mathlib.Tactic.Ring

/-!
# Fixed-width bytes, zigzag and base-128 groups

The encodings of a machine integer as bytes: `k` bytes in little-endian order, the zigzag
numbering of the signed integers, and groups of seven bits, lowest first, with a continuation bit
on every group but the last.

## Main definitions

* `leBytes`, `ofLeBytes`, `swapBytes`: little-endian bytes and the reversal of the byte order
* `zigzag`, `unzigzag`: two's-complement integers numbered 0, -1, 1, -2, …
* `moreGroup`: the lowest group of seven bits with its continuation bit

## Main results

* `ofLeBytes_leBytes`, `swapBytes_swapBytes`, `unzigzag_zigzag`
* `payload_moreGroup`, `shiftLeft_groups`: decoding one group leaves the rest of the number
-/

namespace Foundation

/-! ## Little-endian bytes -/

/-- The `k` low bytes of `v`, the lowest first. -/
def leBytes : ℕ → ℕ → List UInt8
  | 0, _ => []
  | k + 1, v => UInt8.ofNat (v % 256) :: leBytes k (v / 256)

/-- The number with the given bytes, the lowest first. -/
def ofLeBytes : List UInt8 → ℕ
  | [] => 0
  | b :: bs => b.toNat + 256 * ofLeBytes bs

@[simp] theorem length_leBytes (k v : ℕ) : (leBytes k v).length = k := by
  induction k generalizing v with
  | zero => rfl
  | succ k ih => rw [leBytes, List.length_cons, ih]

theorem ofLeBytes_leBytes {k v : ℕ} (h : v < 256 ^ k) : ofLeBytes (leBytes k v) = v := by
  induction k generalizing v with
  | zero =>
    rw [pow_zero, Nat.lt_one_iff] at h
    exact h.symm
  | succ k ih =>
    have hdiv : v / 256 < 256 ^ k := by
      rw [Nat.div_lt_iff_lt_mul (by decide), ← pow_succ]
      exact h
    have hbyte : (UInt8.ofNat (v % 256)).toNat = v % 256 := by
      rw [UInt8.toNat_ofNat']
      omega
    rw [leBytes, ofLeBytes, ih hdiv, hbyte]
    omega

theorem ofLeBytes_lt (bs : List UInt8) : ofLeBytes bs < 256 ^ bs.length := by
  induction bs with
  | nil => simp [ofLeBytes]
  | cons b bs ih =>
    have hb := b.toNat_lt
    rw [ofLeBytes, List.length_cons, pow_succ]
    omega

theorem leBytes_ofLeBytes (bs : List UInt8) : leBytes bs.length (ofLeBytes bs) = bs := by
  induction bs with
  | nil => rfl
  | cons b bs ih =>
    have hb := b.toNat_lt
    have hmod : (b.toNat + 256 * ofLeBytes bs) % 256 = b.toNat := by omega
    have hdiv : (b.toNat + 256 * ofLeBytes bs) / 256 = ofLeBytes bs := by omega
    rw [List.length_cons, ofLeBytes, leBytes, hmod, hdiv, ih]
    simp

/-- The number with the `k` bytes of `v` in reverse order. -/
def swapBytes (k v : ℕ) : ℕ := ofLeBytes (leBytes k v).reverse

theorem swapBytes_lt (k v : ℕ) : swapBytes k v < 256 ^ k := by
  simpa [swapBytes] using ofLeBytes_lt (leBytes k v).reverse

theorem leBytes_swapBytes (k v : ℕ) : leBytes k (swapBytes k v) = (leBytes k v).reverse := by
  simpa [swapBytes] using leBytes_ofLeBytes (leBytes k v).reverse

theorem swapBytes_swapBytes {k v : ℕ} (h : v < 256 ^ k) : swapBytes k (swapBytes k v) = v := by
  rw [swapBytes, leBytes_swapBytes, List.reverse_reverse, ofLeBytes_leBytes h]

/-! ## Zigzag -/

section Zigzag

variable {w : ℕ}

/-- Two's-complement integers numbered 0, -1, 1, -2, …, with wraparound. -/
def zigzag (v : BitVec w) : BitVec w := if v.slt 0#w then -v * 2#w - 1#w else v * 2#w

def unzigzag (u : BitVec w) : BitVec w := u >>> 1 ^^^ -(u &&& 1#w)

theorem mul_two_eq_shiftLeft (v : BitVec w) : v * 2#w = v <<< 1 := by
  apply BitVec.eq_of_toNat_eq
  simp [Nat.shiftLeft_eq]

theorem zigzag_of_msb {v : BitVec w} (h : v.msb = true) : zigzag v = ~~~(v <<< 1) := by
  have hslt : v.slt 0#w = true := by rw [BitVec.slt_zero_eq_msb, h]
  rw [zigzag, if_pos hslt, BitVec.not_eq_neg_add, ← mul_two_eq_shiftLeft, BitVec.neg_mul]

theorem zigzag_of_not_msb {v : BitVec w} (h : v.msb = false) : zigzag v = v <<< 1 := by
  have hslt : ¬ v.slt 0#w = true := by rw [BitVec.slt_zero_eq_msb, h]; decide
  rw [zigzag, if_neg hslt, mul_two_eq_shiftLeft]

/-- **Zigzag round trip**, at every width and at both ends of the range. -/
theorem unzigzag_zigzag (v : BitVec w) : unzigzag (zigzag v) = v := by
  cases h : v.msb with
  | true =>
    have hone : zigzag v &&& 1#w = 1#w := by
      rw [zigzag_of_msb h]
      ext i hi
      simp
      omega
    rw [unzigzag, hone, zigzag_of_msb h, BitVec.neg_one_eq_allOnes]
    ext i hi
    rw [BitVec.msb_eq_getLsbD_last] at h
    by_cases hlast : i = w - 1
    · subst hlast
      simp_all
    · have hlt : 1 + i < w := by omega
      simp [hlt]
  | false =>
    have hzero : zigzag v &&& 1#w = 0#w := by
      rw [zigzag_of_not_msb h]
      ext i hi
      simp
      omega
    rw [unzigzag, hzero, zigzag_of_not_msb h]
    ext i hi
    rw [BitVec.msb_eq_getLsbD_last] at h
    by_cases hlast : i = w - 1
    · subst hlast
      simp_all
    · have hlt : 1 + i < w := by omega
      simp [hlt]

end Zigzag

/-! ## Groups of seven bits -/

section Groups

variable {w : ℕ}

theorem getLsbD_mask (i : ℕ) : (0x7F#w).getLsbD i = (decide (i < w) && decide (i < 7)) := by
  rw [BitVec.getLsbD_ofNat, show 0x7F = 2 ^ 7 - 1 from rfl, Nat.testBit_two_pow_sub_one]

/-- The lowest group of `v`, with the continuation bit set. -/
def moreGroup (v : BitVec w) : UInt8 := ⟨(v &&& 0x7F#w ||| 0x80#w).setWidth 8⟩

theorem toBitVec_moreGroup (v : BitVec w) (hw : 8 ≤ w) :
    (moreGroup v).toBitVec = v.setWidth 8 &&& 0x7F#8 ||| 0x80#8 := by
  simp only [moreGroup, BitVec.setWidth_or, BitVec.setWidth_and]
  rw [BitVec.setWidth_ofNat_of_le hw, BitVec.setWidth_ofNat_of_le hw]

/-- A group with the continuation bit is at least `0x80`. -/
theorem le_toNat_moreGroup (v : BitVec w) (hw : 8 ≤ w) : 0x80 ≤ (moreGroup v).toNat := by
  have h : (moreGroup v).toNat = (v.setWidth 8 &&& 0x7F#8).toNat ||| 0x80 := by
    rw [← UInt8.toNat_toBitVec, toBitVec_moreGroup v hw, BitVec.toNat_or]
    rfl
  rw [h]
  exact Nat.right_le_or

/-- The payload of a group with the continuation bit. -/
theorem payload_moreGroup (v : BitVec w) (hw : 8 ≤ w) :
    (moreGroup v &&& 0x7F).toBitVec.setWidth w = v &&& 0x7F#w := by
  have hmask : ∀ g : BitVec 8, (g &&& 0x7F#8 ||| 0x80#8) &&& 0x7F#8 = g &&& 0x7F#8 := by decide
  have hpay : (moreGroup v &&& 0x7F).toBitVec = v.setWidth 8 &&& 0x7F#8 := by
    rw [UInt8.toBitVec_and, toBitVec_moreGroup v hw]
    exact hmask _
  rw [hpay]
  ext i hi
  simp only [BitVec.getLsbD_and, BitVec.getLsbD_setWidth, getLsbD_mask,
    ← BitVec.getLsbD_eq_getElem]
  by_cases h7 : i < 7
  · have h8 : i < 8 := by omega
    simp [h7, h8, hi]
  · simp [h7]

/-- One step of the shift-and-or decoder: what the low group leaves to decode. -/
theorem shiftLeft_groups (v : BitVec w) (i : ℕ) :
    (v &&& 0x7F#w) <<< i ||| (v >>> 7) <<< (i + 7) = v <<< i := by
  ext j hj
  simp only [BitVec.getElem_or, BitVec.getElem_shiftLeft, BitVec.getElem_and]
  rw [← BitVec.getLsbD_eq_getElem (x := 0x7F#w)]
  by_cases hi : j < i
  · simp [hi]
    omega
  · have hw : j - i < w := by omega
    by_cases h7 : j < i + 7
    · have hlow : j - i < 7 := by omega
      simp [hi, h7, getLsbD_mask, hlow, hw]
    · have hidx : 7 + (j - (i + 7)) = j - i := by omega
      simp [hi, h7, hidx, BitVec.getLsbD_eq_getElem hw]
      exact fun h _ => h

end Groups

end Foundation

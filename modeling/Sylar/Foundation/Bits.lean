import Mathlib.Data.Finset.Card
import Mathlib.Data.Nat.Count
import Mathlib.Data.Nat.Factorization.Basic

/-!
# Leading bits, words stored byte by byte, and the number of ones

A word with its leading bits set is a mask: `and` with it keeps the leading bits of a word, and
`and` with its complement the others. A word read from memory in the other byte order has the same
bytes in reverse. The lowest one of a word goes away in `and` with its predecessor, so that as many
rounds as there are ones lead to zero.

## Main definitions

* `leading w n`: the word with its `n` leading bits set
* `bswap16`, `bswap32`: the bytes of a word in reverse
* `ones`, `clearLowest`: how many bits of a word are one, and the word without the lowest of them

## Main results

* `getMsbD_leading`, `compl_leading`: the bits of a mask, and of its complement
* `and_compl_eq_and_iff`: a word both masks agree on is zero
* `bswap32_bswap32`, `bswap32_and`, `bswap32_or`, `bswap32_not`: byte order and bitwise operations
* `ones_clearLowest`, `iterate_clearLowest_eq_zero_iff`: one round takes one of the ones away, and
  the rounds reach zero after all of them
-/

namespace Foundation

/-! ## Masks -/

/-- The word with its `n` leading bits set. -/
def leading (w n : ℕ) : BitVec w := ~~~BitVec.ofNat w (2 ^ (w - n) - 1)

section Masks

variable {w n i : ℕ}

theorem getLsbD_leading : (leading w n).getLsbD i = decide (i < w ∧ w - n ≤ i) := by
  rw [leading, BitVec.getLsbD_not, BitVec.getLsbD_ofNat, Nat.testBit_two_pow_sub_one]
  by_cases hi : i < w
  · by_cases hn : w - n ≤ i
    · simp [hi, hn, Nat.not_lt.mpr hn]
    · simp [hi, hn, Nat.not_le.mp hn]
  · simp [hi]

theorem getMsbD_leading (hi : i < w) : (leading w n).getMsbD i = decide (i < n) := by
  rw [BitVec.getMsbD_eq_getLsbD, getLsbD_leading, decide_eq_true hi, Bool.true_and,
    decide_eq_decide]
  omega

/-- The complement has the other bits. -/
theorem compl_leading : ~~~leading w n = BitVec.ofNat w (2 ^ (w - n) - 1) := by
  rw [leading, BitVec.not_not]

/-- **A word that a mask and its complement agree on** is zero. -/
theorem and_compl_eq_and_iff (x m : BitVec w) : x &&& ~~~m = x &&& m ↔ x = 0#w := by
  constructor
  · intro h
    apply BitVec.eq_of_getLsbD_eq
    intro i _
    have hbit := congrArg (BitVec.getLsbD · i) h
    simp only [BitVec.getLsbD_and, BitVec.getLsbD_not] at hbit
    rw [BitVec.getLsbD_zero]
    cases hx : x.getLsbD i with
    | false => rfl
    | true =>
      have hlt := BitVec.lt_of_getLsbD hx
      rw [hx, decide_eq_true hlt] at hbit
      cases hm : m.getLsbD i <;> simp [hm] at hbit
  · rintro rfl
    rw [BitVec.zero_and, BitVec.zero_and]

end Masks

/-! ## Byte order -/

/-- The two bytes of a word in reverse. -/
def bswap16 (x : BitVec 16) : BitVec 16 := x.extractLsb' 0 8 ++ x.extractLsb' 8 8

theorem bswap16_append (x y : BitVec 8) : bswap16 (x ++ y) = y ++ x := by
  have hlow : (x ++ y : BitVec (8 + 8)).extractLsb' 0 8 = y := by
    rw [BitVec.extractLsb'_append_eq_of_add_le (Nat.le_refl 8), BitVec.extractLsb'_eq_self]
  have hhigh : (x ++ y : BitVec (8 + 8)).extractLsb' 8 8 = x :=
    BitVec.extractLsb'_append_eq_left
  exact congrArg₂ (· ++ ·) hlow hhigh

theorem bswap16_bswap16 (t : BitVec 16) : bswap16 (bswap16 t) = t := by
  have hsplit : t.extractLsb' 8 8 ++ t.extractLsb' 0 8 = t := by
    rw [BitVec.extractLsb'_append_extractLsb'_eq_extractLsb' (by decide : 8 = 0 + 8),
      BitVec.extractLsb'_eq_self]
  rw [← hsplit, bswap16_append, bswap16_append]

/-- The four bytes of a word in reverse. -/
def bswap32 (x : BitVec 32) : BitVec 32 :=
  x.extractLsb' 0 8 ++ x.extractLsb' 8 8 ++ x.extractLsb' 16 8 ++ x.extractLsb' 24 8

section ByteOrder

variable (x y : BitVec 32) {i : ℕ}

theorem getLsbD_bswap32 (hi : i < 32) :
    (bswap32 x).getLsbD i = x.getLsbD (24 - 8 * (i / 8) + i % 8) := by
  have hbyte := fun start len (h : len < 8) =>
    (BitVec.getLsbD_extractLsb' start 8 x len).trans (by rw [decide_eq_true h, Bool.true_and])
  simp only [bswap32, BitVec.getLsbD_append]
  split_ifs with h₀ h₁ h₂
  · rw [hbyte _ _ h₀]
    congr 1
    omega
  · rw [hbyte _ _ h₁]
    congr 1
    omega
  · rw [hbyte _ _ h₂]
    congr 1
    omega
  · rw [hbyte _ _ (by omega)]
    congr 1
    omega

theorem bswap32_and : bswap32 (x &&& y) = bswap32 x &&& bswap32 y := by
  apply BitVec.eq_of_getLsbD_eq
  intro i hi
  simp only [BitVec.getLsbD_and, getLsbD_bswap32 _ hi]

theorem bswap32_or : bswap32 (x ||| y) = bswap32 x ||| bswap32 y := by
  apply BitVec.eq_of_getLsbD_eq
  intro i hi
  simp only [BitVec.getLsbD_or, getLsbD_bswap32 _ hi]

theorem bswap32_not : bswap32 (~~~x) = ~~~bswap32 x := by
  apply BitVec.eq_of_getLsbD_eq
  intro i hi
  have hlt : 24 - 8 * (i / 8) + i % 8 < 32 := by omega
  simp only [BitVec.getLsbD_not, getLsbD_bswap32 _ hi, hi, hlt]

theorem bswap32_bswap32 : bswap32 (bswap32 x) = x := by
  apply BitVec.eq_of_getLsbD_eq
  intro i hi
  rw [getLsbD_bswap32 _ hi, getLsbD_bswap32 _ (by omega)]
  congr 1
  omega

theorem bswap32_inj {x y : BitVec 32} (h : bswap32 x = bswap32 y) : x = y := by
  rw [← bswap32_bswap32 x, h, bswap32_bswap32]

end ByteOrder

/-! ## Ones -/

/-- How many bits of a word are one. -/
def ones {w : ℕ} (x : BitVec w) : ℕ := Nat.count (fun i => x.getLsbD i = true) w

/-- A word without the lowest of its ones. -/
def clearLowest {w : ℕ} (x : BitVec w) : BitVec w := x &&& (x - 1#w)

/-- Of the numbers below a bound, all but one. -/
theorem count_erase {p q : ℕ → Prop} [DecidablePred p] [DecidablePred q] {k n : ℕ} (hk : k < n)
    (hp : p k) (hq : ∀ i, q i ↔ p i ∧ i ≠ k) : Nat.count q n + 1 = Nat.count p n := by
  rw [Nat.count_eq_card_filter_range, Nat.count_eq_card_filter_range]
  have hmem : k ∈ (Finset.range n).filter p := Finset.mem_filter.mpr ⟨Finset.mem_range.mpr hk, hp⟩
  have herase : (Finset.range n).filter q = ((Finset.range n).filter p).erase k := by
    ext i
    rw [Finset.mem_erase, Finset.mem_filter, Finset.mem_filter, hq]
    tauto
  rw [herase, Finset.card_erase_add_one hmem]

theorem count_congr {p q : ℕ → Prop} [DecidablePred p] [DecidablePred q] {n : ℕ}
    (h : ∀ i < n, p i ↔ q i) : Nat.count p n = Nat.count q n := by
  rw [Nat.count_eq_card_filter_range, Nat.count_eq_card_filter_range]
  congr 1
  exact Finset.filter_congr fun i hi => h i (Finset.mem_range.mp hi)

theorem count_lt (n p : ℕ) : Nat.count (· < p) n = min n p := by
  induction n with
  | zero => rw [Nat.count_zero, Nat.zero_min]
  | succ n ih =>
    rw [Nat.count_succ, ih]
    split_ifs
    · omega
    · omega

/-- Below its lowest one a number is the complement of its predecessor, above it they agree. -/
theorem exists_testBit_pred {n : ℕ} (hn : n ≠ 0) :
    ∃ k, n.testBit k = true ∧
      ∀ i, (n &&& (n - 1)).testBit i = (n.testBit i && decide (i ≠ k)) := by
  obtain ⟨k, m, ⟨j, rfl⟩, rfl⟩ := Nat.exists_eq_two_pow_mul_odd hn
  have hpos := Nat.two_pow_pos k
  have hpred : 2 ^ k * (2 * j + 1) - 1 = 2 ^ k * (2 * j) + (2 ^ k - 1) := by
    rw [Nat.mul_add, Nat.mul_one]
    omega
  refine ⟨k, ?_, fun i => ?_⟩
  · rw [Nat.testBit_two_pow_mul]
    simp
  · rw [Nat.testBit_and, hpred, Nat.testBit_two_pow_mul_add _ (Nat.sub_one_lt hpos.ne'),
      Nat.testBit_two_pow_mul]
    rcases Nat.lt_trichotomy i k with hlt | rfl | hgt
    · simp [Nat.not_le.mpr hlt]
    · simp
    · obtain ⟨d, rfl⟩ := Nat.exists_eq_add_of_lt hgt
      -- the bits above the lowest one do not see whether it is there
      have hbit : (2 * j + 1).testBit (k + d + 1 - k) = (2 * j).testBit (k + d + 1 - k) := by
        have hd : k + d + 1 - k = d + 1 := by omega
        rw [hd, Nat.testBit_succ, Nat.testBit_succ]
        congr 1
        omega
      have hne : k + d + 1 ≠ k := by omega
      rw [if_neg (by omega), hbit, Bool.and_assoc, Bool.and_self, decide_eq_true hne, Bool.and_true]

section Ones

variable {w : ℕ} {x : BitVec w}

/-- **A round**: one of the ones goes away, and the others stay. -/
theorem exists_getLsbD_clearLowest (hx : x ≠ 0#w) :
    ∃ k < w, x.getLsbD k = true ∧
      ∀ i, (clearLowest x).getLsbD i = (x.getLsbD i && decide (i ≠ k)) := by
  have hnat : x.toNat ≠ 0 := fun h => hx (BitVec.eq_of_toNat_eq (by rw [h, BitVec.toNat_zero]))
  obtain ⟨k, hbit, hclear⟩ := exists_testBit_pred hnat
  have hpred : (x - 1#w).toNat = x.toNat - 1 := by
    have hw : 1 < 2 ^ w := by
      have hlt := x.isLt
      omega
    have hone : (1#w).toNat = 1 := by rw [BitVec.toNat_ofNat, Nat.mod_eq_of_lt hw]
    rw [BitVec.toNat_sub_of_le, hone]
    rw [BitVec.le_def, hone]
    exact Nat.one_le_iff_ne_zero.mpr hnat
  refine ⟨k, BitVec.lt_of_getLsbD hbit, hbit, fun i => ?_⟩
  rw [← hpred, ← BitVec.toNat_and] at hclear
  exact hclear i

theorem ones_clearLowest (hx : x ≠ 0#w) : ones (clearLowest x) + 1 = ones x := by
  obtain ⟨k, hk, hbit, hclear⟩ := exists_getLsbD_clearLowest hx
  exact count_erase hk hbit fun i => by simp [hclear]

theorem ones_eq_zero_iff : ones x = 0 ↔ x = 0#w := by
  rw [ones, Nat.count_iff_forall_not]
  constructor
  · intro h
    apply BitVec.eq_of_getLsbD_eq
    intro i hi
    rw [BitVec.getLsbD_zero]
    simpa using h i hi
  · rintro rfl i -
    simp

theorem clearLowest_zero : clearLowest (0#w) = 0#w := BitVec.zero_and

/-- The ones that are left after some rounds. -/
theorem ones_iterate (n : ℕ) : ones (clearLowest^[n] x) = ones x - n := by
  induction n with
  | zero => rfl
  | succ n ih =>
    rw [Function.iterate_succ_apply']
    by_cases hx : clearLowest^[n] x = 0#w
    · rw [ones_eq_zero_iff.mpr hx] at ih
      rw [hx, clearLowest_zero, ones_eq_zero_iff.mpr rfl]
      omega
    · have hround := ones_clearLowest hx
      omega

/-- **The rounds end** with the last of the ones. -/
theorem iterate_clearLowest_eq_zero_iff {n : ℕ} : clearLowest^[n] x = 0#w ↔ ones x ≤ n := by
  rw [← ones_eq_zero_iff, ones_iterate, Nat.sub_eq_zero_iff_le]

/-- The ones, counted from the front. -/
theorem count_getMsbD (x : BitVec w) : Nat.count (fun i => x.getMsbD i = true) w = ones x := by
  rw [ones, Nat.count_eq_card_filter_range, Nat.count_eq_card_filter_range]
  refine Finset.card_bij' (fun i _ => w - 1 - i) (fun i _ => w - 1 - i) ?_ ?_ ?_ ?_
  · intro i hi
    obtain ⟨hlt, hbit⟩ := Finset.mem_filter.mp hi
    rw [BitVec.getMsbD_eq_getLsbD, Bool.and_eq_true] at hbit
    rw [Finset.mem_range] at hlt
    exact Finset.mem_filter.mpr ⟨Finset.mem_range.mpr (by omega), hbit.2⟩
  · intro i hi
    obtain ⟨hlt, hbit⟩ := Finset.mem_filter.mp hi
    rw [Finset.mem_range] at hlt
    refine Finset.mem_filter.mpr ⟨Finset.mem_range.mpr (by omega), ?_⟩
    rw [BitVec.getMsbD_eq_getLsbD, decide_eq_true (by omega), Bool.true_and]
    have hback : w - 1 - (w - 1 - i) = i := by omega
    rwa [hback]
  · intro i hi
    have hlt := Finset.mem_range.mp (Finset.mem_filter.mp hi).1
    omega
  · intro i hi
    have hlt := Finset.mem_range.mp (Finset.mem_filter.mp hi).1
    omega

/-- The ones of a word, byte by byte. -/
theorem ones_bytes (x : BitVec 32) : ones x =
    Nat.count (fun i => x.getLsbD i = true) 8 + Nat.count (fun i => x.getLsbD (8 + i) = true) 8 +
      Nat.count (fun i => x.getLsbD (16 + i) = true) 8 +
      Nat.count (fun i => x.getLsbD (24 + i) = true) 8 := by
  change Nat.count (fun i => x.getLsbD i = true) (8 + 8 + 8 + 8) = _
  rw [Nat.count_add, Nat.count_add, Nat.count_add]

theorem ones_bswap32 (x : BitVec 32) : ones (bswap32 x) = ones x := by
  have hbyte (b : ℕ) (hb : b < 4) : Nat.count (fun i => (bswap32 x).getLsbD (8 * b + i) = true) 8 =
      Nat.count (fun i => x.getLsbD (24 - 8 * b + i) = true) 8 := by
    refine count_congr fun i hi => ?_
    rw [getLsbD_bswap32 x (by omega)]
    have hindex : 24 - 8 * ((8 * b + i) / 8) + (8 * b + i) % 8 = 24 - 8 * b + i := by omega
    rw [hindex]
  have h₀ := hbyte 0 (by decide)
  have h₁ := hbyte 1 (by decide)
  have h₂ := hbyte 2 (by decide)
  have h₃ := hbyte 3 (by decide)
  simp only [Nat.mul_zero, Nat.zero_add, Nat.mul_one, Nat.reduceMul, Nat.reduceSub] at h₀ h₁ h₂ h₃
  rw [ones_bytes, ones_bytes, h₀, h₁, h₂, h₃]
  omega

theorem ones_le : ones x ≤ w := Nat.count_le _

end Ones

end Foundation

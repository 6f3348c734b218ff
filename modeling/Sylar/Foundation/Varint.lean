import Mathlib.Data.Nat.Bitwise
import Mathlib.Data.List.Basic
import Mathlib.Tactic.Ring

/-!
# Numbers in groups of seven bits

A number is a sequence of bytes with the continuation bit and one byte without it. A decoder that
stops after a bounded number of bytes looks at a front of its input; what it has added up by shifts
is the number, as far as the word is wide enough.

## Main definitions

* `IsVarint`: bytes with the continuation bit, and one without
* `ofGroups`: the number that groups denote, the lowest first
* `scan turns u`: the bytes at which a decoder of at most `turns` bytes looks
* `RunsOut turns u`: the input ends before the decoder stops

## Main results

* `scan_of_isVarint`: a number of at most `turns` bytes is what the decoder looks at
* `runsOut_iff`: the inputs that end too early
* `or_shiftLeft_ofGroups`: one turn of the decoder
-/

namespace Foundation

variable {turns : ℕ} {b : UInt8} {u pre rest : List UInt8}

/-- Bytes with the continuation bit, and one without. -/
def IsVarint : List UInt8 → Prop
  | [] => False
  | b :: bs => if b < 0x80 then bs = [] else IsVarint bs

/-- The number with the given groups of seven bits, the lowest first. -/
def ofGroups : List UInt8 → ℕ
  | [] => 0
  | b :: bs => b.toNat % 128 + 128 * ofGroups bs

/-- The bytes at which a decoder of at most `turns` bytes looks. -/
def scan : ℕ → List UInt8 → List UInt8
  | 0, _ => []
  | _ + 1, [] => []
  | turns + 1, b :: bs => if b < 0x80 then [b] else b :: scan turns bs

/-- The input ends before the decoder stops. -/
def RunsOut : ℕ → List UInt8 → Prop
  | 0, _ => False
  | _ + 1, [] => True
  | turns + 1, b :: bs => ¬ b < 0x80 ∧ RunsOut turns bs

instance decidableIsVarint : (u : List UInt8) → Decidable (IsVarint u)
  | [] => .isFalse id
  | b :: bs =>
    if h : b < 0x80 then
      decidable_of_iff (bs = []) (by rw [IsVarint, if_pos h])
    else
      have := decidableIsVarint bs
      decidable_of_iff (IsVarint bs) (by rw [IsVarint, if_neg h])

instance decidableRunsOut : (turns : ℕ) → (u : List UInt8) → Decidable (RunsOut turns u)
  | 0, _ => .isFalse id
  | _ + 1, [] => .isTrue trivial
  | turns + 1, _ :: bs =>
    have := decidableRunsOut turns bs
    instDecidableAnd

/-! ## Where a decoder stops -/

theorem scan_isInitial (turns : ℕ) (u : List UInt8) : scan turns u <+: u := by
  induction turns generalizing u with
  | zero => exact List.nil_prefix
  | succ turns ih =>
    cases u with
    | nil => exact List.nil_prefix
    | cons b bs =>
      rw [scan]
      split_ifs
      · exact List.cons_prefix_cons.mpr ⟨rfl, List.nil_prefix⟩
      · exact List.cons_prefix_cons.mpr ⟨rfl, ih bs⟩

theorem length_scan_le (turns : ℕ) (u : List UInt8) : (scan turns u).length ≤ turns := by
  induction turns generalizing u with
  | zero => exact le_rfl
  | succ turns ih =>
    cases u with
    | nil => exact Nat.zero_le _
    | cons b bs =>
      rw [scan]
      split_ifs
      · simp
      · exact Nat.succ_le_succ (ih bs)

/-- A number of at most `turns` bytes is what the decoder looks at. -/
theorem scan_of_isVarint (h : IsVarint pre) (hle : pre.length ≤ turns) :
    scan turns (pre ++ rest) = pre ∧ ¬ RunsOut turns (pre ++ rest) := by
  induction turns generalizing pre with
  | zero =>
    obtain rfl := List.length_eq_zero_iff.mp (Nat.le_zero.mp hle)
    exact absurd h id
  | succ turns ih =>
    cases pre with
    | nil => exact absurd h id
    | cons b bs =>
      rw [List.cons_append, scan, RunsOut]
      rw [IsVarint] at h
      split_ifs at h ⊢ with hb
      · exact ⟨by rw [h], fun hrun => hrun.1 hb⟩
      · obtain ⟨hscan, hrun⟩ := ih h (Nat.le_of_succ_le_succ hle)
        exact ⟨by rw [hscan], fun h => hrun h.2⟩

/-- A decoder that has stopped has seen a number, or as many bytes with the continuation bit as it
looks at. -/
theorem scan_cases (h : ¬ RunsOut turns u) :
    IsVarint (scan turns u) ∨
      (scan turns u).length = turns ∧ ∀ b ∈ scan turns u, ¬ b < 0x80 := by
  induction turns generalizing u with
  | zero => exact .inr ⟨rfl, fun b hb => absurd hb List.not_mem_nil⟩
  | succ turns ih =>
    cases u with
    | nil => exact absurd trivial h
    | cons b bs =>
      rw [scan]
      split_ifs with hb
      · exact .inl (by rw [IsVarint, if_pos hb])
      · rcases ih (fun hrun => h ⟨hb, hrun⟩) with hvar | ⟨hlen, hmore⟩
        · exact .inl (by rw [IsVarint, if_neg hb]; exact hvar)
        · refine .inr ⟨by rw [List.length_cons, hlen], fun c hc => ?_⟩
          rcases List.mem_cons.mp hc with rfl | hc
          · exact hb
          · exact hmore c hc

/-- As many bytes with the continuation bit as the decoder looks at. -/
theorem scan_of_overlong (hlen : pre.length = turns) (hmore : ∀ b ∈ pre, ¬ b < 0x80) :
    scan turns (pre ++ rest) = pre ∧ ¬ RunsOut turns (pre ++ rest) ∧ ¬ IsVarint pre := by
  induction turns generalizing pre with
  | zero =>
    obtain rfl := List.length_eq_zero_iff.mp hlen
    exact ⟨rfl, id, id⟩
  | succ turns ih =>
    cases pre with
    | nil => cases hlen
    | cons b bs =>
      have hb := hmore b List.mem_cons_self
      obtain ⟨hscan, hrun, hvar⟩ := ih (Nat.succ.inj hlen) fun c hc =>
        hmore c (List.mem_cons_of_mem _ hc)
      rw [List.cons_append, scan, RunsOut, IsVarint, if_neg hb, if_neg hb, hscan]
      exact ⟨rfl, fun h => hrun h.2, hvar⟩

/-- **The inputs that end too early**: fewer bytes than the decoder looks at, all of them with the
continuation bit. -/
theorem runsOut_iff : RunsOut turns u ↔ u.length < turns ∧ ∀ b ∈ u, ¬ b < 0x80 := by
  induction turns generalizing u with
  | zero => exact ⟨fun h => absurd h id, fun h => absurd h.1 (Nat.not_lt_zero _)⟩
  | succ turns ih =>
    cases u with
    | nil => exact iff_of_true trivial ⟨Nat.succ_pos _, fun b hb => absurd hb List.not_mem_nil⟩
    | cons b bs =>
      rw [RunsOut, ih, List.length_cons, Nat.succ_lt_succ_iff, List.forall_mem_cons]
      exact and_left_comm

theorem length_scan_pos (h : ¬ RunsOut (turns + 1) u) : 0 < (scan (turns + 1) u).length := by
  cases u with
  | nil => exact absurd trivial h
  | cons b bs =>
    rw [scan]
    split_ifs <;> exact Nat.succ_pos _

/-! ## What a decoder adds up -/

section Word

variable {w : ℕ}

/-- The payload of a byte. -/
theorem setWidth_payload (w : ℕ) (b : UInt8) :
    (b &&& 0x7F).toBitVec.setWidth w = BitVec.ofNat w (b.toNat % 128) := by
  apply BitVec.eq_of_toNat_eq
  have hpay : (b &&& 0x7F).toNat = b.toNat % 128 := by
    rw [UInt8.toNat_and]
    exact Nat.and_two_pow_sub_one_eq_mod b.toNat 7
  rw [BitVec.toNat_setWidth, BitVec.toNat_ofNat, UInt8.toNat_toBitVec, hpay]

/-- The last byte is its own payload. -/
theorem setWidth_last (w : ℕ) (hb : b < 0x80) :
    b.toBitVec.setWidth w = BitVec.ofNat w (ofGroups [b]) := by
  have hlt : b.toNat < 128 := UInt8.lt_iff_toNat_lt.mp hb
  apply BitVec.eq_of_toNat_eq
  rw [BitVec.toNat_setWidth, BitVec.toNat_ofNat, UInt8.toNat_toBitVec, ofGroups, ofGroups,
    Nat.mul_zero, Nat.add_zero, Nat.mod_eq_of_lt hlt]

/-- **One turn**: the payload at its shift, and the other groups at theirs. -/
theorem or_shiftLeft_ofGroups (b : UInt8) (bs : List UInt8) (i : ℕ)
    (result : BitVec w) :
    result ||| (b &&& 0x7F).toBitVec.setWidth w <<< i |||
        BitVec.ofNat w (ofGroups bs) <<< (i + 7) =
      result ||| BitVec.ofNat w (ofGroups (b :: bs)) <<< i := by
  have hlt : b.toNat % 128 < 2 ^ 7 := Nat.mod_lt _ (by decide)
  have hsum : ofGroups (b :: bs) = ofGroups bs <<< 7 ||| b.toNat % 128 := by
    rw [Nat.shiftLeft_eq, Nat.mul_comm, ← Nat.two_pow_add_eq_or_of_lt hlt, ofGroups, Nat.add_comm]
  have hshift : BitVec.ofNat w (ofGroups bs <<< 7) = BitVec.ofNat w (ofGroups bs) <<< 7 := by
    apply BitVec.eq_of_toNat_eq
    rw [BitVec.toNat_shiftLeft, BitVec.toNat_ofNat, BitVec.toNat_ofNat, Nat.shiftLeft_eq,
      Nat.shiftLeft_eq, Nat.mod_mul_mod]
  rw [hsum, BitVec.ofNat_or, hshift, BitVec.shiftLeft_or_distrib, ← BitVec.shiftLeft_add,
    setWidth_payload w, BitVec.or_assoc, Nat.add_comm 7 i,
    BitVec.or_comm (BitVec.ofNat w (ofGroups bs) <<< (i + 7))]

end Word

end Foundation

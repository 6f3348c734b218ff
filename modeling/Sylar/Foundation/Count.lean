import Mathlib.Data.Finset.Card

/-!
# Counts of threads

A counter that goes up when a thread enters a region and down when it leaves is the number of
threads in the region.

## Main definitions

* `Counted p n`: there are `n` threads with `p`

## Main results

* `Counted.move`: one thread moves, and the counter follows
-/

namespace Foundation

variable {ι : Type*} {p p' : ι → Bool} {n n' : ℕ} {t : ι}

/-- There are `n` with `p`. -/
def Counted (p : ι → Bool) (n : ℕ) : Prop := ∃ S : Finset ι, (∀ t, t ∈ S ↔ p t) ∧ S.card = n

theorem Counted.pos (h : Counted p n) (ht : p t) : 0 < n := by
  obtain ⟨S, hmem, rfl⟩ := h
  exact Finset.card_pos.mpr ⟨t, (hmem t).mpr ht⟩

theorem Counted.eq_false (h : Counted p 0) (t : ι) : p t = false := by
  by_contra ht
  exact Nat.lt_irrefl 0 (h.pos (t := t) (by simpa using ht))

theorem counted_zero (h : ∀ t, p t = false) : Counted p 0 :=
  ⟨∅, fun t => by simp [h t], rfl⟩

/-- **One moves**: the counter changes as the one that moves does. -/
theorem Counted.move [DecidableEq ι] (h : Counted p n) (t : ι) (hp : ∀ t', t' ≠ t → p' t' = p t')
    (hn : n' + (p t).toNat = n + (p' t).toNat) : Counted p' n' := by
  obtain ⟨S, hmem, rfl⟩ := h
  cases ht : p t with
  | true =>
    have htS : t ∈ S := (hmem t).mpr ht
    have hpos := Finset.card_pos.mpr ⟨t, htS⟩
    rw [ht, Bool.toNat_true] at hn
    cases ht' : p' t with
    | true =>
      rw [ht', Bool.toNat_true] at hn
      refine ⟨S, fun t' => ?_, by omega⟩
      rcases eq_or_ne t' t with rfl | hne
      · exact iff_of_true htS ht'
      · rw [hmem, hp t' hne]
    | false =>
      rw [ht', Bool.toNat_false] at hn
      refine ⟨S.erase t, fun t' => ?_, by rw [Finset.card_erase_of_mem htS]; omega⟩
      rcases eq_or_ne t' t with rfl | hne
      · simp [ht']
      · simp [hne, hmem, hp t' hne]
  | false =>
    have htS : t ∉ S := fun hS => Bool.false_ne_true (ht.symm.trans ((hmem t).mp hS))
    rw [ht, Bool.toNat_false] at hn
    cases ht' : p' t with
    | true =>
      rw [ht', Bool.toNat_true] at hn
      refine ⟨insert t S, fun t' => ?_, by rw [Finset.card_insert_of_notMem htS]; omega⟩
      rcases eq_or_ne t' t with rfl | hne
      · simp [ht']
      · simp [hne, hmem, hp t' hne]
    | false =>
      rw [ht', Bool.toNat_false] at hn
      refine ⟨S, fun t' => ?_, by omega⟩
      rcases eq_or_ne t' t with rfl | hne
      · exact iff_of_false htS (by rw [ht']; exact Bool.false_ne_true)
      · rw [hmem, hp t' hne]

end Foundation

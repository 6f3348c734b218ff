import Mathlib.Data.List.Basic

/-!
# Streams in segments

A stream of symbols arrives in segments. A read takes what there is of the first segment, up to
the length it asks for; an exact read goes on until it has that many symbols. Whatever the reads,
what is left is the stream without the symbols that were read, in the segments they came in.

## Main definitions

* `readSome`, `readExact`: a read, and reads up to a length
* `skip`: the segments that are left behind the first symbols
* `segmentEnd`: where the segment of a symbol ends

## Main results

* `readSome_eq`, `readExact_eq`: reads in terms of the whole stream
* `segmentEnd_skip`: segments keep their ends
-/

namespace Foundation

universe u

variable {α : Type u}

/-- A read of at most `n` symbols: what was read, and what is left. -/
def readSome (n : ℕ) : List (List α) → List α × List (List α)
  | [] => ([], [])
  | segment :: segments =>
    if segment.length ≤ n then (segment, segments)
    else (segment.take n, segment.drop n :: segments)

/-- Reads until there are `n` symbols; without them the reads never end. -/
def readExact : ℕ → List (List α) → Option (List α × List (List α))
  | 0, segments => some ([], segments)
  | _ + 1, [] => none
  | n + 1, segment :: segments =>
    if segment.length ≤ n + 1 then
      (readExact (n + 1 - segment.length) segments).map fun r => (segment ++ r.1, r.2)
    else some (segment.take (n + 1), segment.drop (n + 1) :: segments)

/-- What is left behind the first `n` symbols. -/
def skip : ℕ → List (List α) → List (List α)
  | 0, segments => segments
  | _ + 1, [] => []
  | n + 1, segment :: segments =>
    if segment.length ≤ n + 1 then skip (n + 1 - segment.length) segments
    else segment.drop (n + 1) :: segments

/-- The position behind the segment that holds the symbol `p`. -/
def segmentEnd : List (List α) → ℕ → ℕ
  | [], p => p
  | segment :: segments, p =>
    if p < segment.length then segment.length
    else segment.length + segmentEnd segments (p - segment.length)

variable {segments : List (List α)} {m n p : ℕ}

@[simp] theorem skip_zero : skip 0 segments = segments := by
  cases segments <;> rfl

@[simp] theorem skip_nil : skip n ([] : List (List α)) = [] := by
  cases n <;> rfl

theorem skip_cons {segment : List α} (hn : 0 < n) : skip n (segment :: segments) =
    if segment.length ≤ n then skip (n - segment.length) segments
    else segment.drop n :: segments := by
  obtain ⟨n, rfl⟩ := Nat.exists_eq_succ_of_ne_zero (Nat.ne_of_gt hn)
  rfl

theorem flatten_skip (n : ℕ) (segments : List (List α)) :
    (skip n segments).flatten = segments.flatten.drop n := by
  induction segments generalizing n with
  | nil => simp
  | cons segment segments ih =>
    rcases Nat.eq_zero_or_pos n with rfl | hn
    · rw [skip_zero, List.drop_zero]
    · rw [skip_cons hn, List.flatten_cons, List.drop_append]
      split_ifs with hle
      · rw [ih, List.drop_eq_nil_of_le hle, List.nil_append]
      · rw [List.flatten_cons, Nat.sub_eq_zero_of_le (by omega), List.drop_zero]

/-- Segments stay segments: none of them becomes empty. -/
theorem ne_nil_of_mem_skip (h : ∀ segment ∈ segments, segment ≠ []) :
    ∀ segment ∈ skip n segments, segment ≠ [] := by
  induction segments generalizing n with
  | nil => simp
  | cons segment segments ih =>
    have hrest : ∀ segment ∈ segments, segment ≠ [] := fun s hs => h s (List.mem_cons_of_mem _ hs)
    rcases Nat.eq_zero_or_pos n with rfl | hn
    · rwa [skip_zero]
    · rw [skip_cons hn]
      split_ifs with hle
      · exact ih hrest
      · intro s hs
        rcases List.mem_cons.mp hs with rfl | hs
        · rw [Ne, List.drop_eq_nil_iff]
          exact hle
        · exact hrest s hs

theorem skip_skip (h : ∀ segment ∈ segments, segment ≠ []) :
    skip n (skip m segments) = skip (m + n) segments := by
  induction segments generalizing m with
  | nil => simp
  | cons segment segments ih =>
    have hrest : ∀ segment ∈ segments, segment ≠ [] := fun s hs => h s (List.mem_cons_of_mem _ hs)
    rcases Nat.eq_zero_or_pos m with rfl | hm
    · rw [skip_zero, Nat.zero_add]
    rcases Nat.eq_zero_or_pos n with rfl | hn
    · rw [skip_zero, Nat.add_zero]
    · rw [skip_cons hm, skip_cons (Nat.add_pos_left hm n)]
      by_cases hle : segment.length ≤ m
      · rw [if_pos hle, if_pos (by omega), ih hrest, Nat.sub_add_comm hle]
      · rw [if_neg hle, skip_cons hn, List.length_drop, List.drop_drop]
        split_ifs with h₁ h₂ h₂
        · rw [show n - (segment.length - m) = m + n - segment.length by omega]
        · omega
        · omega
        · rfl

theorem segmentEnd_le (h : p ≤ segments.flatten.length) :
    segmentEnd segments p ≤ segments.flatten.length := by
  induction segments generalizing p with
  | nil => exact h
  | cons segment segments ih =>
    rw [List.flatten_cons, List.length_append] at h ⊢
    rw [segmentEnd]
    split_ifs with hlt
    · omega
    · have hrest := ih (p := p - segment.length) (by omega)
      omega

/-- **Segments keep their ends** when the symbols before them are gone. -/
theorem segmentEnd_skip (h : n ≤ segments.flatten.length) :
    n + segmentEnd (skip n segments) p = segmentEnd segments (n + p) := by
  induction segments generalizing n p with
  | nil => simp [segmentEnd]
  | cons segment segments ih =>
    rcases Nat.eq_zero_or_pos n with rfl | hn
    · rw [skip_zero, Nat.zero_add, Nat.zero_add]
    rw [List.flatten_cons, List.length_append] at h
    rw [skip_cons hn]
    by_cases hle : segment.length ≤ n
    · have hrest := ih (n := n - segment.length) (p := p) (by omega)
      rw [if_pos hle, segmentEnd, if_neg (by omega),
        show n + p - segment.length = n - segment.length + p by omega, ← hrest]
      omega
    · rw [if_neg hle, segmentEnd, segmentEnd, List.length_drop]
      by_cases hp : n + p < segment.length
      · rw [if_pos (by omega), if_pos hp]
        omega
      · rw [if_neg (by omega), if_neg hp,
          show p - (segment.length - n) = n + p - segment.length by omega]
        omega

/-- **A read** takes the first segment, or the part of it that was asked for. -/
theorem readSome_eq (h : ∀ segment ∈ segments, segment ≠ []) (hn : 0 < n) :
    readSome n segments = (segments.flatten.take (min (segmentEnd segments 0) n),
      skip (min (segmentEnd segments 0) n) segments) := by
  cases segments with
  | nil => simp [readSome]
  | cons segment segments =>
    have hpos : 0 < segment.length := List.length_pos_iff.mpr (h segment (by simp))
    rw [readSome, segmentEnd, if_pos hpos, skip_cons (Nat.lt_min.mpr ⟨hpos, hn⟩), List.flatten_cons]
    split_ifs with hle hmin hmin
    · simp [Nat.min_eq_left hle]
    · omega
    · omega
    · rw [Nat.min_eq_right (by omega), List.take_append_of_le_length (by omega)]

/-- **An exact read** takes its part of the stream, if the stream is long enough. -/
theorem readExact_eq (n : ℕ) (segments : List (List α)) :
    readExact n segments =
      if n ≤ segments.flatten.length then some (segments.flatten.take n, skip n segments)
      else none := by
  induction segments generalizing n with
  | nil => cases n <;> simp [readExact]
  | cons segment segments ih =>
    cases n with
    | zero => simp [readExact]
    | succ n =>
      rw [readExact, ih, List.flatten_cons, List.length_append, skip_cons n.succ_pos]
      by_cases hle : segment.length ≤ n + 1
      · rw [if_pos hle, if_pos hle, List.take_append, List.take_of_length_le hle]
        by_cases hlen : n + 1 - segment.length ≤ segments.flatten.length
        · rw [if_pos hlen, if_pos (by omega)]
          rfl
        · rw [if_neg hlen, if_neg (by omega)]
          rfl
      · rw [if_neg hle, if_neg hle, if_pos (by omega), List.take_append_of_le_length (by omega)]

end Foundation

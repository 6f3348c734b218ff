import Mathlib.Data.List.Nodup
import Mathlib.Data.List.Perm.Basic

/-!
# Queues whose entries have tickets

The entries of a queue are numbered in the order in which they come. A taker takes the first entry
that suits it, and the record says who took which. Every number is either in the queue or was taken
by one taker, and the numbers in the queue go up.

## Main definitions

* `Tickets`: the queue, the record and the number of entries so far
* `Tickets.put`, `Tickets.take`: entries come, and a taker takes one

## Main results

* `Tickets.nodup_taken`, `Tickets.not_taken_of_waiting`: a number is in the record once, and not
  while it is in the queue
* `Tickets.take_first`: what suits a taker and has a smaller number is gone
-/

namespace Foundation

universe u v

/-- What a taker took. -/
structure Taken (ω : Type v) (α : Type u) where
  taker : ω
  entry : α
  number : ℕ
  deriving DecidableEq

/-- A queue with numbered entries, and the record of those that were taken. -/
structure Tickets (ω : Type v) (α : Type u) where
  issued : ℕ
  waiting : List (α × ℕ)
  taken : List (Taken ω α)
  once : (taken.map Taken.number ++ waiting.map Prod.snd).Perm (List.range issued)
  sorted : (waiting.map Prod.snd).Pairwise (· < ·)

namespace Tickets

variable {ω : Type v} {α : Type u}

def empty : Tickets ω α where
  issued := 0
  waiting := []
  taken := []
  once := .refl _
  sorted := .nil

theorem lt_issued {q : Tickets ω α} {n : ℕ}
    (h : n ∈ q.taken.map Taken.number ++ q.waiting.map Prod.snd) : n < q.issued :=
  List.mem_range.mp (q.once.mem_iff.mp h)

/-- Entries come, in order. -/
def put (q : Tickets ω α) (xs : List α) : Tickets ω α where
  issued := q.issued + xs.length
  waiting := q.waiting ++ xs.zipIdx q.issued
  taken := q.taken
  once := by
    rw [List.map_append, List.zipIdx_map_snd, ← List.append_assoc, List.range_eq_range',
      ← List.range'_append_1, ← List.range_eq_range', Nat.zero_add]
    exact q.once.append_right _
  sorted := by
    rw [List.map_append, List.zipIdx_map_snd, List.pairwise_append]
    refine ⟨q.sorted, List.pairwise_lt_range', fun m hm n hn => ?_⟩
    have hlt := lt_issued (List.mem_append_right _ hm)
    exact Nat.lt_of_lt_of_le hlt (List.mem_range'_1.mp hn).1

/-- The first entry that suits. -/
def next (q : Tickets ω α) (suits : α → Bool) : Option (α × ℕ) := q.waiting.find? (suits ·.1)

theorem next_spec {q : Tickets ω α} {suits : α → Bool} {e : α × ℕ} (h : q.next suits = some e) :
    ∃ skipped rest, q.waiting = skipped ++ e :: rest ∧ suits e.1 = true ∧
      (∀ x ∈ skipped, suits x.1 = false) ∧
      q.waiting.eraseP (suits ·.1) = skipped ++ rest := by
  obtain ⟨hsuits, skipped, rest, hq, hskip⟩ := List.find?_eq_some_iff_append.mp h
  have hno : ∀ x ∈ skipped, suits x.1 = false := fun x hx => by simpa using hskip x hx
  refine ⟨skipped, rest, hq, hsuits, hno, ?_⟩
  rw [hq, List.eraseP_append_right _ fun x hx => by simp [hno x hx]]
  exact congrArg _ (List.eraseP_cons_of_pos (p := fun x : α × ℕ => suits x.1) hsuits)

/-- The taker `w` takes the first entry that suits it, if there is one. -/
def take (q : Tickets ω α) (w : ω) (suits : α → Bool) : Tickets ω α :=
  match h : q.next suits with
  | none => q
  | some e =>
    { issued := q.issued
      waiting := q.waiting.eraseP (suits ·.1)
      taken := { taker := w, entry := e.1, number := e.2 } :: q.taken
      once := by
        obtain ⟨skipped, rest, hq, -, -, herase⟩ := next_spec h
        refine List.Perm.trans ?_ q.once
        rw [herase, hq]
        simp only [List.map_cons, List.map_append, List.cons_append]
        rw [← List.append_assoc, ← List.append_assoc]
        exact List.perm_middle.symm
      sorted := q.sorted.sublist (List.eraseP_sublist.map _) }

theorem take_none {q : Tickets ω α} {w : ω} {suits : α → Bool} (h : q.next suits = none) :
    q.take w suits = q := by
  unfold take
  split
  · rfl
  · rename_i e he
    rw [h] at he
    cases he

theorem waiting_take {q : Tickets ω α} {w : ω} {suits : α → Bool} :
    (q.take w suits).waiting = q.waiting.eraseP (suits ·.1) := by
  unfold take
  split
  · rename_i h
    refine (List.eraseP_of_forall_not fun x hx => ?_).symm
    exact List.find?_eq_none.mp h x hx
  · rfl

theorem taken_take {q : Tickets ω α} {w : ω} {suits : α → Bool} {e : α × ℕ}
    (h : q.next suits = some e) : (q.take w suits).taken =
      { taker := w, entry := e.1, number := e.2 } :: q.taken := by
  unfold take
  split
  · rename_i h'
    rw [h'] at h
    cases h
  · rename_i e' h'
    rw [h'] at h
    cases h
    rfl

/-- A number is in the record at most once. -/
theorem nodup_taken (q : Tickets ω α) : (q.taken.map Taken.number).Nodup :=
  (q.once.nodup_iff.mpr List.nodup_range).sublist (List.sublist_append_left ..)

/-- Two takers have not taken the same number. -/
theorem eq_of_number_eq {q : Tickets ω α} {x y : Taken ω α} (hx : x ∈ q.taken) (hy : y ∈ q.taken)
    (h : x.number = y.number) : x = y :=
  List.inj_on_of_nodup_map q.nodup_taken hx hy h

theorem not_taken_of_waiting {q : Tickets ω α} {e : α × ℕ} (h : e ∈ q.waiting) :
    e.2 ∉ q.taken.map Taken.number := by
  intro htaken
  have hnodup := q.once.nodup_iff.mpr List.nodup_range
  exact (List.disjoint_of_nodup_append hnodup) htaken (List.mem_map_of_mem h)

/-- **First come, first served**: an entry with a smaller number than the one that is taken does not
suit. -/
theorem take_first {q : Tickets ω α} {suits : α → Bool} {e x : α × ℕ} (h : q.next suits = some e)
    (hx : x ∈ q.waiting) (hlt : x.2 < e.2) : suits x.1 = false := by
  obtain ⟨skipped, rest, hq, -, hskip, -⟩ := next_spec h
  have hsorted := q.sorted
  rw [hq, List.map_append, List.map_cons, List.pairwise_append] at hsorted
  rw [hq] at hx
  rcases List.mem_append.mp hx with hx | hx
  · exact hskip x hx
  · rcases List.mem_cons.mp hx with rfl | hx
    · exact absurd hlt (Nat.lt_irrefl _)
    · have hgt := (List.pairwise_cons.mp hsorted.2.1).1 x.2 (List.mem_map_of_mem hx)
      exact absurd hlt (Nat.lt_asymm hgt)

end Tickets

end Foundation

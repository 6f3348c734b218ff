import Mathlib.Data.List.TakeWhile

/-!
# Lists cut at a separator of two letters

`pieces a b` cuts a list at the places where `a` is followed by `b`, as a text is cut into lines.
A separator that is put between two lists cuts there whatever the lists are: an `a` at the end of
the first list is followed by an `a`.

## Main results

* `pieces_append`: lists with a separator between them
* `pieces_flatMap`: lists that each have a separator behind them
* `pieces_of_not_mem`: a list without `a` is one piece
* `takeWhile_append_of_exists`: the first piece that fails a test ends what is in front of it
-/

namespace Foundation

variable {α : Type*}

/-- A letter in front of the first piece. -/
def extend (c : α) : List (List α) → List (List α)
  | [] => [[c]]
  | piece :: rest => (c :: piece) :: rest

theorem extend_append (c : α) {xs : List (List α)} (ys : List (List α)) (h : xs ≠ []) :
    extend c (xs ++ ys) = extend c xs ++ ys := by
  obtain ⟨piece, rest, rfl⟩ := List.exists_cons_of_ne_nil h
  rfl

theorem extend_ne_nil (c : α) (xs : List (List α)) : extend c xs ≠ [] := by
  cases xs with
  | nil => exact List.cons_ne_nil [c] []
  | cons piece rest => exact List.cons_ne_nil (c :: piece) rest

section Pieces

variable [DecidableEq α] {a b : α}

/-- The pieces of a list between the places where `a` is followed by `b`. -/
def pieces (a b : α) : List α → List (List α)
  | [] => [[]]
  | [c] => [[c]]
  | c :: d :: rest =>
    if c = a ∧ d = b then [] :: pieces a b rest else extend c (pieces a b (d :: rest))

theorem pieces_sep (ys : List α) : pieces a b (a :: b :: ys) = [] :: pieces a b ys :=
  if_pos ⟨rfl, rfl⟩

theorem pieces_cons {c d : α} (h : ¬ (c = a ∧ d = b)) (rest : List α) :
    pieces a b (c :: d :: rest) = extend c (pieces a b (d :: rest)) :=
  if_neg h

theorem pieces_ne_nil (xs : List α) : pieces a b xs ≠ [] := by
  match xs with
  | [] => exact List.cons_ne_nil [] []
  | [c] => exact List.cons_ne_nil [c] []
  | c :: d :: rest =>
    rw [pieces]
    split_ifs
    · exact List.cons_ne_nil _ _
    · exact extend_ne_nil _ _

/-- **Putting a separator** between two lists. -/
theorem pieces_append (hne : a ≠ b) (xs ys : List α) :
    pieces a b (xs ++ a :: b :: ys) = pieces a b xs ++ pieces a b ys := by
  induction xs using pieces.induct (a := a) (b := b) with
  | case1 => exact pieces_sep ys
  | case2 c =>
    -- an `a` behind `c` is no `b`
    rw [List.singleton_append, pieces_cons fun h => hne h.2, pieces_sep]
    rfl
  | case3 c d rest hsep ih =>
    obtain ⟨rfl, rfl⟩ := hsep
    rw [List.cons_append, List.cons_append, pieces_sep, pieces_sep, ih]
    rfl
  | case4 c d rest hsep ih =>
    rw [List.cons_append] at ih
    rw [List.cons_append, List.cons_append, pieces_cons hsep, pieces_cons hsep, ih,
      extend_append _ _ (pieces_ne_nil _)]

/-- Lists with a separator behind each. -/
theorem pieces_flatMap {ι : Type*} (hne : a ≠ b) (f : ι → List α) (is : List ι) (ys : List α) :
    pieces a b (is.flatMap (fun i => f i ++ [a, b]) ++ ys) =
      is.flatMap (fun i => pieces a b (f i)) ++ pieces a b ys := by
  induction is with
  | nil => rfl
  | cons i is ih =>
    simp only [List.flatMap_cons, List.append_assoc, List.cons_append, List.nil_append]
    rw [pieces_append hne, ih]

theorem pieces_of_not_mem {xs : List α} (h : a ∉ xs) : pieces a b xs = [xs] := by
  match xs with
  | [] => rfl
  | [c] => rfl
  | c :: d :: rest =>
    rw [List.mem_cons, not_or] at h
    rw [pieces_cons fun hsep => h.1 hsep.1.symm, pieces_of_not_mem h.2]
    rfl

end Pieces

/-- What fails the test ends the pieces in front. -/
theorem takeWhile_append_of_exists {p : α → Bool} {xs : List α} (h : ∃ x ∈ xs, p x = false)
    (ys : List α) : (xs ++ ys).takeWhile p = xs.takeWhile p := by
  obtain ⟨x, hx, hp⟩ := h
  rw [List.takeWhile_append, if_neg]
  intro hlen
  have hall := List.takeWhile_eq_self_iff.mp ((List.takeWhile_prefix p).eq_of_length hlen)
  rw [hall x hx] at hp
  cases hp

end Foundation

import Mathlib.Algebra.Order.BigOperators.Group.List
import Mathlib.Algebra.Order.Ring.Nat

/-!
# Calls in progress

Calls that interleave are kept in a list, each with how far it has come. A step takes one of them
on, or ends it. What the calls hold between them is the sum of what each holds, and it changes by
what the step's own call gains or loses.

## Main definitions

* `advance`: the calls after a step of one of them
* `tally`: a sum over the calls

## Main results

* `mem_advance`: the calls that there are after a step
* `tally_advance`: a sum over the calls, after a step
-/

namespace Foundation

variable {α : Type*} {l : List α} {i : ℕ} {a b : α} {next : Option α}

/-- The call at `i` goes on as `next`, or ends. -/
def advance (l : List α) (i : ℕ) (next : Option α) : List α :=
  match next with
  | some b => l.set i b
  | none => l.eraseIdx i

@[simp] theorem advance_some : advance l i (some b) = l.set i b := rfl

@[simp] theorem advance_none : advance l i none = l.eraseIdx i := rfl

theorem mem_advance (h : b ∈ advance l i next) : b ∈ l ∨ next = some b := by
  cases next with
  | none => exact .inl (List.mem_of_mem_eraseIdx h)
  | some b' =>
    rcases List.mem_or_eq_of_mem_set h with hl | rfl
    · exact .inl hl
    · exact .inr rfl

/-- What the calls hold between them. -/
def tally (l : List α) (f : α → ℕ) : ℕ := (l.map f).sum

@[simp] theorem tally_nil (f : α → ℕ) : tally [] f = 0 := rfl

theorem tally_append (f : α → ℕ) : tally (l ++ [a]) f = tally l f + f a := by
  simp [tally]

theorem tally_add (f g : α → ℕ) : (tally l fun a => f a + g a) = tally l f + tally l g :=
  List.sum_map_add

theorem tally_mono {f g : α → ℕ} (h : ∀ a, f a ≤ g a) : tally l f ≤ tally l g :=
  List.sum_le_sum fun a _ => h a

/-- **A sum over the calls**: a step changes it as its own call changes. -/
theorem tally_advance (next : Option α) (f : α → ℕ) (h : l[i]? = some a) :
    tally (advance l i next) f + f a = tally l f + (next.map f).getD 0 := by
  unfold tally
  induction l generalizing i with
  | nil => simp at h
  | cons x l ih =>
    cases i with
    | zero =>
      obtain rfl : x = a := by simpa using h
      cases next with
      | none => simp [Nat.add_comm]
      | some b =>
        simp only [advance_some, List.set_cons_zero, List.map_cons, List.sum_cons, Option.map_some,
          Option.getD_some]
        omega
    | succ i =>
      have hsum := ih (i := i) (by simpa using h)
      cases next <;>
        simp only [advance_some, advance_none, List.set_cons_succ, List.eraseIdx_cons_succ,
          List.map_cons, List.sum_cons] at hsum ⊢ <;> omega

theorem le_tally (f : α → ℕ) (h : l[i]? = some a) : f a ≤ tally l f := by
  have hsum := tally_advance none f h
  simp only [Option.map_none, Option.getD_none] at hsum
  omega

end Foundation

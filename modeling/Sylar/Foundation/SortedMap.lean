import Mathlib

/-!
# Ordered maps as sorted lists

A map ordered by what a function makes of its keys, as the list of its entries in order. Two keys
that the function does not tell apart are the same key to the map; the one that was inserted first
stays in the list, with the value that was set last. What the map is for does not depend on the
list: a partial function of what is made of a key.

## Main definitions

* `put`, `remove`, `lookup`: the operations of the map
* `Ordered`: the entries are in order, with a key each
* `view`: the partial function

## Main results

* `Ordered.put`, `Ordered.remove`: the operations keep the order
* `lookup_eq_view`: a lookup is a value of the function
* `view_put`, `view_remove`: the operations change one value of the function
* `mem_put`: the entries behind an insertion
-/

namespace Foundation.SortedMap

variable {α β κ : Type*} [LinearOrder κ] (f : α → κ)

/-- `m[a] = b`. -/
def put (a : α) (b : β) : List (α × β) → List (α × β)
  | [] => [(a, b)]
  | (k, v) :: m =>
    if f k < f a then (k, v) :: put a b m
    else if f a < f k then (a, b) :: (k, v) :: m
    else (k, b) :: m

/-- `m.erase(a)`. -/
def remove (a : α) : List (α × β) → List (α × β)
  | [] => []
  | (k, v) :: m =>
    if f k < f a then (k, v) :: remove a m
    else if f a < f k then (k, v) :: m
    else m

/-- `m.find(a)`. -/
def lookup (a : α) : List (α × β) → Option β
  | [] => none
  | (k, v) :: m =>
    if f k < f a then lookup a m
    else if f a < f k then none
    else some v

/-- The entries are in order, and each key is there once. -/
def Ordered (m : List (α × β)) : Prop := m.Pairwise fun x y => f x.1 < f y.1

/-- The map as a partial function. -/
def view (m : List (α × β)) (k : κ) : Option β := (m.find? fun x => f x.1 = k).map Prod.snd

variable {f} {a : α} {b : β} {k : κ} {m : List (α × β)} {x : α × β}

theorem eq_of_not_lt {k : α} (h : ¬ f k < f a) (h' : ¬ f a < f k) : f k = f a :=
  le_antisymm (not_lt.mp h') (not_lt.mp h)

/-! ## Entries -/

/-- An entry behind an insertion was there, or has the value, with a key that was inserted or that
stands for it. -/
theorem mem_put (h : x ∈ put f a b m) :
    x ∈ m ∨ x.2 = b ∧ f x.1 = f a ∧ (x.1 = a ∨ ∃ y ∈ m, y.1 = x.1) := by
  induction m with
  | nil =>
    obtain rfl := List.mem_singleton.mp h
    exact .inr ⟨rfl, rfl, .inl rfl⟩
  | cons y m ih =>
    obtain ⟨k, v⟩ := y
    rw [put] at h
    split_ifs at h with hlt hgt
    · rcases List.mem_cons.mp h with rfl | h
      · exact .inl List.mem_cons_self
      rcases ih h with h | ⟨hb, hf, rfl | ⟨y, hy, heq⟩⟩
      · exact .inl (List.mem_cons_of_mem _ h)
      · exact .inr ⟨hb, hf, .inl rfl⟩
      · exact .inr ⟨hb, hf, .inr ⟨y, List.mem_cons_of_mem _ hy, heq⟩⟩
    · rcases List.mem_cons.mp h with rfl | h
      · exact .inr ⟨rfl, rfl, .inl rfl⟩
      · exact .inl h
    · rcases List.mem_cons.mp h with rfl | h
      · exact .inr ⟨rfl, eq_of_not_lt hlt hgt, .inr ⟨(k, v), List.mem_cons_self, rfl⟩⟩
      · exact .inl (List.mem_cons_of_mem _ h)

theorem mem_remove (h : x ∈ remove f a m) : x ∈ m := by
  induction m with
  | nil => exact h
  | cons y m ih =>
    rw [remove] at h
    split_ifs at h
    · exact List.mem_cons.mpr ((List.mem_cons.mp h).imp_right ih)
    · exact h
    · exact List.mem_cons_of_mem _ h

/-! ## The order -/

theorem Ordered.put (h : Ordered f m) (a : α) (b : β) : Ordered f (put f a b m) := by
  induction m with
  | nil => exact List.pairwise_singleton ..
  | cons y m ih =>
    obtain ⟨hfirst, hm⟩ := List.pairwise_cons.mp h
    obtain ⟨k, v⟩ := y
    rw [SortedMap.put]
    split_ifs with hlt hgt
    · refine List.pairwise_cons.mpr ⟨fun x hx => ?_, ih hm⟩
      rcases mem_put hx with hx | ⟨-, hf, -⟩
      · exact hfirst x hx
      · exact hf ▸ hlt
    · refine List.pairwise_cons.mpr ⟨fun x hx => ?_, h⟩
      rcases List.mem_cons.mp hx with rfl | hx
      · exact hgt
      · exact hgt.trans (hfirst x hx)
    · exact List.pairwise_cons.mpr ⟨hfirst, hm⟩

theorem Ordered.remove (h : Ordered f m) (a : α) : Ordered f (remove f a m) := by
  induction m with
  | nil => exact h
  | cons y m ih =>
    obtain ⟨hfirst, hm⟩ := List.pairwise_cons.mp h
    rw [SortedMap.remove]
    split_ifs
    · exact List.pairwise_cons.mpr ⟨fun x hx => hfirst x (mem_remove hx), ih hm⟩
    · exact h
    · exact hm

/-! ## The partial function -/

theorem view_cons (x : α × β) (m : List (α × β)) (k : κ) :
    view f (x :: m) k = if f x.1 = k then some x.2 else view f m k := by
  unfold view
  by_cases h : f x.1 = k
  · rw [List.find?_cons_of_pos (by simpa using h), if_pos h]
    rfl
  · rw [List.find?_cons_of_neg (by simpa using h), if_neg h]

/-- There is nothing in front of the first entry. -/
theorem view_eq_none (h : ∀ x ∈ m, f x.1 ≠ k) : view f m k = none := by
  unfold view
  rw [List.find?_eq_none.mpr fun x hx => by simpa using h x hx]
  rfl

/-- **A lookup** is a value of the function. -/
theorem lookup_eq_view (h : Ordered f m) (a : α) : lookup f a m = view f m (f a) := by
  induction m with
  | nil => rfl
  | cons y m ih =>
    obtain ⟨hfirst, hm⟩ := List.pairwise_cons.mp h
    obtain ⟨k, v⟩ := y
    rw [lookup, view_cons]
    split_ifs with hlt heq hgt heq heq
    · exact absurd heq hlt.ne
    · exact ih hm
    · exact absurd heq hgt.ne'
    · exact (view_eq_none fun x hx => (hgt.trans (hfirst x hx)).ne').symm
    · rfl
    · exact absurd (eq_of_not_lt hlt hgt) heq

/-- **An insertion** sets the value. -/
theorem view_put (h : Ordered f m) (a : α) (b : β) (k : κ) :
    (f a = k → view f (put f a b m) k = some b) ∧
      (f a ≠ k → view f (put f a b m) k = view f m k) := by
  induction m with
  | nil =>
    rw [put, view_cons]
    exact ⟨fun hk => if_pos hk, fun hk => if_neg hk⟩
  | cons y m ih =>
    obtain ⟨-, hm⟩ := List.pairwise_cons.mp h
    obtain ⟨k', v⟩ := y
    obtain ⟨hself, hother⟩ := ih hm
    rw [put]
    split_ifs with hlt hgt
    · constructor
      · intro hk
        rw [view_cons, if_neg (hk ▸ hlt.ne), hself hk]
      · intro hk
        rw [view_cons, view_cons, hother hk]
    · rw [view_cons]
      exact ⟨fun hk => if_pos hk, fun hk => if_neg hk⟩
    · have heq := eq_of_not_lt hlt hgt
      rw [view_cons, view_cons, heq]
      exact ⟨fun hk => if_pos hk, fun hk => by rw [if_neg hk, if_neg hk]⟩

/-- **A removal** leaves no value. -/
theorem view_remove (h : Ordered f m) (a : α) (k : κ) :
    (f a = k → view f (remove f a m) k = none) ∧
      (f a ≠ k → view f (remove f a m) k = view f m k) := by
  induction m with
  | nil => exact ⟨fun _ => rfl, fun _ => rfl⟩
  | cons y m ih =>
    obtain ⟨hfirst, hm⟩ := List.pairwise_cons.mp h
    obtain ⟨k', v⟩ := y
    obtain ⟨hself, hother⟩ := ih hm
    rw [remove]
    split_ifs with hlt hgt
    · constructor
      · intro hk
        rw [view_cons, if_neg (hk ▸ hlt.ne), hself hk]
      · intro hk
        rw [view_cons, view_cons, hother hk]
    · refine ⟨fun hk => view_eq_none fun x hx => ?_, fun _ => rfl⟩
      rcases List.mem_cons.mp hx with rfl | hx
      · exact hk ▸ hgt.ne'
      · exact hk ▸ (hgt.trans (hfirst x hx)).ne'
    · have heq := eq_of_not_lt hlt hgt
      constructor
      · intro hk
        exact view_eq_none fun x hx => hk ▸ heq ▸ (hfirst x hx).ne'
      · intro hk
        rw [view_cons, heq, if_neg hk]

end Foundation.SortedMap

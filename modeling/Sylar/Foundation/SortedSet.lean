import Mathlib.Data.List.Basic

/-!
# Ordered sets as sorted lists

A set ordered by a comparator, as the list of its elements in order: two elements of which neither
comes before the other are the same element to the set, and an insertion next to such an element
changes nothing.

## Main definitions

* `insertBy`, `eraseBy`, `findBy`: the operations of the set, by the comparator alone

## Main results

* `pairwise_insertBy`, `mem_insertBy`, `mem_eraseBy`: the operations on a sorted list
* `foldl_insertBy`: a sorted list, inserted in order
* `takeWhile_eq_filter`, `dropWhile_eq_filter`: a property closed downwards cuts a sorted list
* `takeWhile_append_takeWhile`, `dropWhile_dropWhile`: a front in two parts
-/

namespace Foundation

variable {α : Type*}

section Operations

variable (lt : α → α → Prop) [DecidableRel lt]

/-- Neither comes before the other. -/
def Same (a b : α) : Prop := ¬ lt a b ∧ ¬ lt b a

instance (a b : α) : Decidable (Same lt a b) := inferInstanceAs (Decidable (_ ∧ _))

/-- Insertion; an element that is the same stays, and nothing is inserted. -/
def insertBy (a : α) : List α → List α
  | [] => [a]
  | b :: l => if lt a b then a :: b :: l else if lt b a then b :: insertBy a l else b :: l

/-- Whether an element that is the same is found. -/
def findBy (a : α) (l : List α) : Bool := l.any fun b => Same lt a b

/-- The set without the element that is the same. -/
def eraseBy (a : α) (l : List α) : List α := l.eraseP fun b => Same lt a b

end Operations

variable {lt lt' : α → α → Prop} [DecidableRel lt] [DecidableRel lt'] {a b : α} {l : List α}

theorem mem_of_mem_insertBy (h : b ∈ insertBy lt a l) : b = a ∨ b ∈ l := by
  induction l with
  | nil => exact .inl (List.mem_singleton.mp h)
  | cons c l ih =>
    rw [insertBy] at h
    split_ifs at h
    · simpa using h
    · rcases List.mem_cons.mp h with rfl | h
      · exact .inr (by simp)
      · exact (ih h).imp_right (List.mem_cons_of_mem _)
    · exact .inr h

theorem mem_insertBy (h : ∀ c ∈ l, lt a c ∨ lt c a) : b ∈ insertBy lt a l ↔ b = a ∨ b ∈ l := by
  refine ⟨mem_of_mem_insertBy, ?_⟩
  induction l with
  | nil => simp [insertBy]
  | cons c l ih =>
    have hc := h c (by simp)
    have hl := ih fun d hd => h d (by simp [hd])
    rw [insertBy]
    split_ifs with hac hca
    · simp
    · rw [List.mem_cons, List.mem_cons]
      rintro (hb | hb | hb)
      · exact .inr (hl (.inl hb))
      · exact .inl hb
      · exact .inr (hl (.inr hb))
    · exact absurd hc (not_or.mpr ⟨hac, hca⟩)

theorem pairwise_insertBy (htrans : ∀ x y z, lt x y → lt y z → lt x z) (h : l.Pairwise lt) :
    (insertBy lt a l).Pairwise lt := by
  induction l with
  | nil => simp [insertBy]
  | cons c l ih =>
    obtain ⟨hc, hl⟩ := List.pairwise_cons.mp h
    rw [insertBy]
    split_ifs with hac hca
    · refine List.pairwise_cons.mpr ⟨fun d hd => ?_, h⟩
      rcases List.mem_cons.mp hd with rfl | hd
      · exact hac
      · exact htrans _ _ _ hac (hc d hd)
    · refine List.pairwise_cons.mpr ⟨fun d hd => ?_, ih hl⟩
      rcases mem_of_mem_insertBy hd with rfl | hd
      · exact hca
      · exact hc d hd
    · exact h

/-- What comes after the whole set is inserted at its end. -/
theorem insertBy_of_last (hasymm : ∀ x y, lt x y → ¬ lt y x) (h : ∀ b ∈ l, lt b a) :
    insertBy lt a l = l ++ [a] := by
  induction l with
  | nil => rfl
  | cons c l ih =>
    have hc := h c (by simp)
    rw [insertBy, if_neg (hasymm _ _ hc), if_pos hc, ih fun b hb => h b (by simp [hb])]
    rfl

/-- A sorted list, inserted in order. -/
theorem foldl_insertBy (hasymm : ∀ x y, lt x y → ¬ lt y x) {l' : List α}
    (h : (l ++ l').Pairwise lt) : l'.foldl (fun s a => insertBy lt a s) l = l ++ l' := by
  induction l' generalizing l with
  | nil => simp
  | cons c l' ih =>
    have hlast : ∀ b ∈ l, lt b c := fun b hb =>
      (List.pairwise_append.mp h).2.2 b hb c List.mem_cons_self
    rw [List.foldl_cons, insertBy_of_last hasymm hlast, ih (by simpa using h),
      List.append_assoc]
    rfl

theorem findBy_of_mem (hirrefl : ∀ x, ¬ lt x x) (ha : a ∈ l) : findBy lt a l = true :=
  List.any_eq_true.mpr ⟨a, ha, decide_eq_true ⟨hirrefl a, hirrefl a⟩⟩

/-- In a sorted list, only the element itself is the same. -/
theorem mem_eraseBy (hirrefl : ∀ x, ¬ lt x x) (h : l.Pairwise lt) (ha : a ∈ l) :
    b ∈ eraseBy lt a l ↔ b ≠ a ∧ b ∈ l := by
  induction l with
  | nil => cases ha
  | cons c l ih =>
    obtain ⟨hc, hl⟩ := List.pairwise_cons.mp h
    by_cases hsame : Same lt a c
    · obtain rfl : a = c :=
        (List.mem_cons.mp ha).resolve_right fun hal => hsame.2 (hc a hal)
      rw [eraseBy, List.eraseP_cons_of_pos (by simpa using hsame), List.mem_cons]
      constructor
      · exact fun hb => ⟨fun heq => hirrefl a (heq ▸ hc b hb), .inr hb⟩
      · exact fun ⟨hne, hb⟩ => hb.resolve_left hne
    · have hne : c ≠ a := by
        rintro rfl
        exact hsame ⟨hirrefl c, hirrefl c⟩
      have hal : a ∈ l := (List.mem_cons.mp ha).resolve_left fun heq => hne heq.symm
      have hrest := ih hl hal
      rw [eraseBy] at hrest
      rw [eraseBy, List.eraseP_cons_of_neg (by simpa using hsame), List.mem_cons, hrest,
        List.mem_cons]
      constructor
      · rintro (rfl | ⟨hb, hbl⟩)
        · exact ⟨hne, .inl rfl⟩
        · exact ⟨hb, .inr hbl⟩
      · rintro ⟨hb, rfl | hbl⟩
        · exact .inl rfl
        · exact .inr ⟨hb, hbl⟩

theorem eraseBy_sublist : (eraseBy lt a l).Sublist l := List.eraseP_sublist

/-! ## Fronts -/

omit [DecidableRel lt] in
/-- In a sorted list, the elements with a property closed downwards are in front. -/
theorem takeWhile_eq_filter {p : α → Bool} (hp : ∀ x y, lt x y → p y → p x)
    (h : l.Pairwise lt) : l.takeWhile p = l.filter p := by
  induction l with
  | nil => rfl
  | cons c l ih =>
    obtain ⟨hc, hl⟩ := List.pairwise_cons.mp h
    rw [List.takeWhile_cons, List.filter_cons]
    split_ifs with hpc
    · rw [ih hl]
    · refine (List.filter_eq_nil_iff.mpr fun d hd hpd => hpc ?_).symm
      exact hp c d (hc d hd) hpd

omit [DecidableRel lt] in
theorem dropWhile_eq_filter {p : α → Bool} (hp : ∀ x y, lt x y → p y → p x)
    (h : l.Pairwise lt) : l.dropWhile p = l.filter fun x => !p x := by
  induction l with
  | nil => rfl
  | cons c l ih =>
    obtain ⟨hc, hl⟩ := List.pairwise_cons.mp h
    rw [List.dropWhile_cons, List.filter_cons]
    split_ifs with hpc hpc'
    · simp [hpc] at hpc'
    · exact ih hl
    · congr 1
      refine (List.filter_eq_self.mpr fun d hd => ?_).symm
      simp only [Bool.not_eq_true', Bool.not_eq_true] at hpc ⊢
      exact Bool.eq_false_iff.mpr fun hpd => absurd (hp c d (hc d hd) hpd) (by simp [hpc])
    · exact absurd (by simpa using ‹¬ (!p c) = true›) hpc

theorem takeWhile_append_takeWhile {p q : α → Bool} (hpq : ∀ x ∈ l, p x → q x) :
    l.takeWhile p ++ (l.dropWhile p).takeWhile q = l.takeWhile q := by
  induction l with
  | nil => rfl
  | cons c l ih =>
    by_cases hpc : p c
    · have hqc := hpq c (by simp) hpc
      simp [hpc, hqc, ih fun x hx => hpq x (by simp [hx])]
    · simp [hpc]

theorem dropWhile_dropWhile {p q : α → Bool} (hpq : ∀ x ∈ l, p x → q x) :
    (l.dropWhile p).dropWhile q = l.dropWhile q := by
  induction l with
  | nil => rfl
  | cons c l ih =>
    by_cases hpc : p c
    · have hqc := hpq c (by simp) hpc
      simp [hpc, hqc, ih fun x hx => hpq x (by simp [hx])]
    · simp [hpc]

theorem takeWhile_congr {p q : α → Bool} (h : ∀ x ∈ l, p x = q x) :
    l.takeWhile p = l.takeWhile q := by
  induction l with
  | nil => rfl
  | cons c l ih =>
    rw [List.takeWhile_cons, List.takeWhile_cons, h c (by simp),
      ih fun x hx => h x (by simp [hx])]

/-- What is left behind a front. -/
theorem drop_length_takeWhile (p : α → Bool) (l : List α) :
    l.drop (l.takeWhile p).length = l.dropWhile p := by
  induction l with
  | nil => rfl
  | cons c l ih =>
    by_cases hpc : p c
    · simp [hpc, ih]
    · simp [hpc]

end Foundation

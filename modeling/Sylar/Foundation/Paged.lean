import Mathlib.Data.List.Basic
import Mathlib.Tactic.Ring

/-!
# Overwriting and paged storage

`splice xs p d` overwrites `xs` with `d` from offset `p` on. A paged store keeps a sequence as a
chain of pages of one length `b`: the flat offset `b * i + q` is the `q`-th element of the page
of index `i`.

## Main definitions

* `splice`: overwriting a range of a list
* `Uniform f b ns`: every page `f n` of the chain `ns` has length `b`

## Main results

* `splice_append_left`, `splice_append_right`, `splice_splice`: an overwrite inside one part of a
  concatenation, and two consecutive overwrites
* `Uniform.length`, `Uniform.drop`, `Uniform.take`: the flat view of a chain, of its tail and of
  its front
-/

namespace Foundation

variable {α ι : Type*}

/-! ## Overwriting a range -/

/-- `xs` with the elements from offset `p` on overwritten by `d`. -/
def splice (xs : List α) (p : ℕ) (d : List α) : List α :=
  xs.take p ++ d ++ xs.drop (p + d.length)

@[simp] theorem splice_nil (xs : List α) (p : ℕ) : splice xs p [] = xs := by
  simp [splice]

theorem length_splice {xs d : List α} {p : ℕ} (h : p + d.length ≤ xs.length) :
    (splice xs p d).length = xs.length := by
  simp only [splice, List.length_append, List.length_take, List.length_drop]
  omega

theorem splice_append_left {xs ys d : List α} {p : ℕ} (h : p + d.length ≤ xs.length) :
    splice (xs ++ ys) p d = splice xs p d ++ ys := by
  unfold splice
  rw [List.take_append_of_le_length (by omega), List.drop_append_of_le_length h]
  simp only [List.append_assoc]

theorem splice_append_right (xs ys d : List α) (q : ℕ) :
    splice (xs ++ ys) (xs.length + q) d = xs ++ splice ys q d := by
  unfold splice
  rw [List.take_append, List.take_of_length_le (by omega), Nat.add_assoc, List.drop_append,
    List.drop_eq_nil_of_le (by omega)]
  simp

/-- An overwrite across a boundary is one overwrite on each side of it. -/
theorem splice_append_split {xs ys d e : List α} {p : ℕ} (h : p + d.length = xs.length) :
    splice (xs ++ ys) p (d ++ e) = splice xs p d ++ splice ys 0 e := by
  unfold splice
  rw [List.take_append_of_le_length (by omega),
    List.drop_eq_nil_of_le (show xs.length ≤ _ by omega),
    List.length_append, ← Nat.add_assoc, h, List.drop_append, List.drop_eq_nil_of_le (by omega)]
  simp

/-- Two overwrites, the second where the first ends, are one. -/
theorem splice_splice {xs d e : List α} {p : ℕ} (h : p + d.length ≤ xs.length) :
    splice (splice xs p d) (p + d.length) e = splice xs p (d ++ e) := by
  have hpre : (xs.take p ++ d).length = p + d.length := by
    rw [List.length_append, List.length_take]
    omega
  have htake : (splice xs p d).take (p + d.length) = xs.take p ++ d := by
    rw [splice, List.take_append_of_le_length hpre.ge, List.take_of_length_le hpre.le]
  have hdrop : (splice xs p d).drop (p + d.length + e.length) =
      xs.drop (p + d.length + e.length) := by
    rw [splice, List.drop_append, List.drop_eq_nil_of_le (by omega), hpre, List.drop_drop]
    simp only [List.nil_append]
    congr 1
    omega
  rw [splice, htake, hdrop, splice, List.length_append]
  simp only [List.append_assoc, Nat.add_assoc]

theorem getElem?_splice_of_lt {xs d : List α} {p i : ℕ} (hp : p ≤ xs.length) (hi : i < p) :
    (splice xs p d)[i]? = xs[i]? := by
  have hlen : (xs.take p).length = p := by simp [hp]
  rw [splice, List.append_assoc, List.getElem?_append_left (by omega), List.getElem?_take_of_lt hi]

theorem getElem?_splice_of_mem {xs d : List α} {p i : ℕ} (hp : p ≤ xs.length)
    (hi : i < d.length) : (splice xs p d)[p + i]? = d[i]? := by
  have hlen : (xs.take p).length = p := by simp [hp]
  rw [splice, List.append_assoc, List.getElem?_append_right (by omega), hlen,
    Nat.add_sub_cancel_left, List.getElem?_append_left hi]

theorem getElem?_splice_of_ge {xs d : List α} {p i : ℕ} (hp : p ≤ xs.length)
    (hi : p + d.length ≤ i) : (splice xs p d)[i]? = xs[i]? := by
  have hlen : (xs.take p ++ d).length = p + d.length := by simp [hp]
  rw [splice, List.getElem?_append_right (by omega), hlen, List.getElem?_drop]
  congr 1
  omega

/-- The range just overwritten reads back. -/
theorem take_drop_splice {xs d : List α} {p : ℕ} (hp : p ≤ xs.length) :
    ((splice xs p d).drop p).take d.length = d := by
  have hlen : (xs.take p).length = p := by simp [hp]
  rw [splice, List.append_assoc, List.drop_append_of_le_length hlen.ge,
    List.drop_eq_nil_of_le hlen.le, List.nil_append, List.take_append_of_le_length le_rfl,
    List.take_length]

/-! ## Chains of pages of one length -/

/-- Every page of the chain has length `b`. -/
def Uniform (f : ι → List α) (b : ℕ) (ns : List ι) : Prop := ∀ n ∈ ns, (f n).length = b

variable {f : ι → List α} {b : ℕ} {n : ι} {ns ms : List ι}

theorem Uniform.nil : Uniform f b [] := fun _ h => absurd h List.not_mem_nil

theorem Uniform.head (h : Uniform f b (n :: ns)) : (f n).length = b := h n List.mem_cons_self

theorem Uniform.tail (h : Uniform f b (n :: ns)) : Uniform f b ns :=
  fun m hm => h m (List.mem_cons_of_mem _ hm)

theorem Uniform.cons (hn : (f n).length = b) (h : Uniform f b ns) : Uniform f b (n :: ns) := by
  intro m hm
  rcases List.mem_cons.mp hm with rfl | hm
  · exact hn
  · exact h m hm

theorem Uniform.append (h : Uniform f b ns) (h' : Uniform f b ms) : Uniform f b (ns ++ ms) := by
  intro m hm
  rcases List.mem_append.mp hm with hm | hm
  · exact h m hm
  · exact h' m hm

theorem Uniform.drop_chain (h : Uniform f b ns) (i : ℕ) : Uniform f b (ns.drop i) :=
  fun m hm => h m (List.mem_of_mem_drop hm)

theorem Uniform.take_chain (h : Uniform f b ns) (i : ℕ) : Uniform f b (ns.take i) :=
  fun m hm => h m (List.mem_of_mem_take hm)

/-- The flat view of a chain. -/
theorem Uniform.length (h : Uniform f b ns) : (ns.flatMap f).length = b * ns.length := by
  induction ns with
  | nil => simp
  | cons n ns ih =>
    rw [List.flatMap_cons, List.length_append, h.head, ih h.tail, List.length_cons]
    ring

theorem Uniform.drop (h : Uniform f b ns) (i : ℕ) :
    (ns.flatMap f).drop (b * i) = (ns.drop i).flatMap f := by
  induction i generalizing ns with
  | zero => simp
  | succ i ih =>
    cases ns with
    | nil => simp
    | cons n ns =>
      have hb : b * (i + 1) = (f n).length + b * i := by rw [h.head]; ring
      rw [List.flatMap_cons, hb, List.drop_append, List.drop_eq_nil_of_le (by omega),
        Nat.add_sub_cancel_left, ih h.tail]
      simp

theorem Uniform.take (h : Uniform f b ns) (i : ℕ) :
    (ns.flatMap f).take (b * i) = (ns.take i).flatMap f := by
  induction i generalizing ns with
  | zero => simp
  | succ i ih =>
    cases ns with
    | nil => simp
    | cons n ns =>
      have hb : b * (i + 1) = (f n).length + b * i := by rw [h.head]; ring
      rw [List.flatMap_cons, hb, List.take_append, List.take_of_length_le (by omega),
        Nat.add_sub_cancel_left, ih h.tail]
      simp

end Foundation

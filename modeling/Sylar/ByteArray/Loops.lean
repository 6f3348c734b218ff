import Sylar.ByteArray.Model

/-!
# The loops over the node chain

On a chain of nodes of one size, each loop of `ByteArray` is the corresponding operation on the
flat sequence of the chain's bytes, as long as it stays inside the chain, and runs into the null
pointer at the end of the chain otherwise.

## Main results

* `writeLoop_eq_some`, `writeLoop_eq_none`: the loop of `write` overwrites a range of the chain
* `readLoop_eq_some`, `readLoop_eq_none`: the loop of `read` yields a range of the chain
* `iovLoop_isSome_iff`: the loop that collects buffers
* `seekLoop_eq_some`: the search of `setPosition`
-/

namespace Sylar

open Foundation

namespace Node

@[simp] theorem size_alloc (heap : ℕ → UInt8) (s : ℕ) : (Node.alloc heap s).size = s := by
  simp [Node.alloc, Node.size]

theorem size_store {n : Node} {npos : ℕ} {buf : List UInt8} (h : npos + buf.length ≤ n.size) :
    (n.store npos buf).size = n.size := length_splice h

end Node

namespace ByteArray

variable {b npos : ℕ} {ns : List Node}

/-! ## Writing -/

theorem writeLoop_eq_some (hb : 0 < b) (buf : List UInt8) (hu : Uniform Node.ptr b ns)
    (hnpos : npos < b) (hbuf : 0 < buf.length) (hfit : npos + buf.length ≤ b * ns.length) :
    ∃ ns', writeLoop ns npos buf = some (ns', (npos + buf.length) / b) ∧
      ns'.length = ns.length ∧ Uniform Node.ptr b ns' ∧
      ns'.flatMap Node.ptr = splice (ns.flatMap Node.ptr) npos buf := by
  induction ns generalizing npos buf with
  | nil =>
    rw [List.length_nil, Nat.mul_zero] at hfit
    omega
  | cons n ns ih =>
    have hn : n.size = b := hu.head
    by_cases hle : buf.length ≤ n.size - npos
    · -- the buffer ends in this node, possibly exactly at its end
      have hin : npos + buf.length ≤ n.size := by omega
      refine ⟨n.store npos buf :: ns, ?_, rfl, ?_, ?_⟩
      · have hk : (npos + buf.length) / b = if n.size = npos + buf.length then 1 else 0 := by
          split_ifs with hend
          · rw [← hend, hn, Nat.div_self hb]
          · rw [Nat.div_eq_of_lt (by omega)]
        simp only [writeLoop, if_pos hle, hk]
      · exact .cons ((Node.size_store hin).trans hn) hu.tail
      · rw [List.flatMap_cons, List.flatMap_cons, splice_append_left hin]
        rfl
    · -- the node is filled, and the rest goes to the chain behind it
      have hcap : n.size - npos = b - npos := by rw [hn]
      have hlen : (buf.drop (n.size - npos)).length = buf.length - (b - npos) := by
        rw [List.length_drop, hcap]
      have hrest : b * (ns.length + 1) = b * ns.length + b := Nat.mul_succ b ns.length
      rw [List.length_cons] at hfit
      obtain ⟨ns', hrun, hl, hu', hflat⟩ := ih (buf.drop (n.size - npos)) hu.tail
        hb (by omega) (by omega)
      have htake : (buf.take (n.size - npos)).length = b - npos := by
        rw [List.length_take, hcap]
        omega
      have hfull : npos + (buf.take (n.size - npos)).length = n.ptr.length := by
        rw [htake]
        change _ = n.size
        omega
      refine ⟨n.store npos (buf.take (n.size - npos)) :: ns', ?_, by simp [hl], ?_, ?_⟩
      · have hk : (npos + buf.length) / b = (0 + (buf.drop (n.size - npos)).length) / b + 1 := by
          rw [hlen, ← Nat.add_div_right _ hb]
          congr 1
          omega
        simp only [writeLoop, if_neg hle, hrun, Option.map_some, hk]
      · exact .cons ((Node.size_store (hfull.le)).trans hn) hu'
      · rw [List.flatMap_cons, List.flatMap_cons, hflat]
        conv_rhs => rw [← List.take_append_drop (n.size - npos) buf]
        exact (splice_append_split hfull).symm

theorem writeLoop_eq_none {buf : List UInt8} (hu : Uniform Node.ptr b ns) (hnpos : npos ≤ b)
    (hover : b * ns.length < npos + buf.length) : writeLoop ns npos buf = none := by
  induction ns generalizing npos buf with
  | nil => rfl
  | cons n ns ih =>
    have hn : n.size = b := hu.head
    rw [List.length_cons, Nat.mul_succ] at hover
    have hle : ¬ buf.length ≤ n.size - npos := by omega
    simp only [writeLoop, if_neg hle, Option.map_eq_none_iff]
    exact ih hu.tail (Nat.zero_le b) (by rw [List.length_drop]; omega)

/-! ## Reading -/

theorem readLoop_eq_some (hb : 0 < b) (size : ℕ) (hu : Uniform Node.ptr b ns) (hnpos : npos < b)
    (hne : ns ≠ []) (hfit : npos + size ≤ b * ns.length) :
    readLoop ns npos size =
      some (((ns.flatMap Node.ptr).drop npos).take size, (npos + size) / b) := by
  induction ns generalizing npos size with
  | nil => exact absurd rfl hne
  | cons n ns ih =>
    have hn : n.size = b := hu.head
    have hn' : n.ptr.length = b := hn
    by_cases hz : size = 0
    · subst hz
      simp [readLoop, Nat.div_eq_of_lt hnpos]
    by_cases hle : size ≤ n.size - npos
    · have hk : (npos + size) / b = if n.size = npos + size then 1 else 0 := by
        split_ifs with hend
        · rw [← hend, hn, Nat.div_self hb]
        · rw [Nat.div_eq_of_lt (by omega)]
      have hload : n.load npos size = (((n :: ns).flatMap Node.ptr).drop npos).take size := by
        rw [List.flatMap_cons, List.drop_append_of_le_length (by omega),
          List.take_append_of_le_length (by rw [List.length_drop]; omega)]
        rfl
      simp only [readLoop, if_neg hz, if_pos hle, hk, hload]
    · have hrest : b * (ns.length + 1) = b * ns.length + b := Nat.mul_succ b ns.length
      rw [List.length_cons] at hfit
      have hne' : ns ≠ [] := by
        rintro rfl
        simp at hfit
        omega
      have hrun := ih (size - (n.size - npos)) hu.tail hb hne' (by omega)
      have hk : (npos + size) / b = (0 + (size - (n.size - npos))) / b + 1 := by
        rw [← Nat.add_div_right _ hb]
        congr 1
        omega
      have hload : n.load npos (n.size - npos) = n.ptr.drop npos := by
        rw [Node.load, List.take_of_length_le]
        rw [List.length_drop]
        rfl
      simp only [readLoop, if_neg hz, if_neg hle, hrun, Option.map_some, hk, hload, List.drop_zero]
      rw [List.flatMap_cons, List.drop_append_of_le_length (by omega), List.take_append,
        List.take_of_length_le (show (n.ptr.drop npos).length ≤ size by
          rw [List.length_drop]; omega)]
      have hlen : (n.ptr.drop npos).length = n.size - npos := List.length_drop
      rw [hlen]

theorem readLoop_eq_none {size : ℕ} (hu : Uniform Node.ptr b ns) (hnpos : npos ≤ b)
    (hover : b * ns.length < npos + size) : readLoop ns npos size = none := by
  induction ns generalizing npos size with
  | nil => rfl
  | cons n ns ih =>
    have hn : n.size = b := hu.head
    rw [List.length_cons, Nat.mul_succ] at hover
    simp only [readLoop, if_neg (show ¬ size = 0 by omega),
      if_neg (show ¬ size ≤ n.size - npos by omega), Option.map_eq_none_iff]
    exact ih hu.tail (Nat.zero_le b) (by omega)

/-! ## Collecting buffers -/

theorem iovLoop_isSome_iff (idx : ℕ) {len : ℕ} (hu : Uniform Node.ptr b ns) (hnpos : npos ≤ b)
    (hlen : 0 < len) : (iovLoop ns idx npos len).isSome ↔ npos + len ≤ b * ns.length := by
  induction ns generalizing idx npos len with
  | nil =>
    simp only [iovLoop, Option.isSome_none, List.length_nil, Nat.mul_zero, Bool.false_eq_true,
      false_iff]
    omega
  | cons n ns ih =>
    have hn : n.size = b := hu.head
    rw [List.length_cons, Nat.mul_succ]
    by_cases hle : len ≤ n.size - npos
    · simp only [iovLoop, if_pos hle, Option.isSome_some, true_iff]
      omega
    · simp only [iovLoop, if_neg hle, Option.isSome_map]
      rw [ih _ hu.tail (Nat.zero_le b) (by omega)]
      omega

/-- The buffers collected hold `len` bytes together. -/
theorem iovLoop_sum {idx len : ℕ} {iovs : List Iovec} (h : iovLoop ns idx npos len = some iovs) :
    (iovs.map Iovec.len).sum = len := by
  induction ns generalizing idx npos len iovs with
  | nil => cases h
  | cons n ns ih =>
    by_cases hle : len ≤ n.size - npos
    · simp only [iovLoop, if_pos hle, Option.some.injEq] at h
      subst h
      simp
    · simp only [iovLoop, if_neg hle, Option.map_eq_some_iff] at h
      obtain ⟨rest, hrest, rfl⟩ := h
      simp only [List.map_cons, List.sum_cons, ih hrest]
      omega

/-! ## Seeking -/

theorem seekLoop_eq_some (hb : 0 < b) {v : ℕ} (hu : Uniform Node.ptr b ns) (hne : ns ≠ [])
    (hv : v ≤ b * ns.length) : seekLoop ns v = some (v / b) := by
  induction ns generalizing v with
  | nil => exact absurd rfl hne
  | cons n ns ih =>
    have hn : n.size = b := hu.head
    rw [List.length_cons, Nat.mul_succ] at hv
    by_cases hlt : n.size < v
    · have hne' : ns ≠ [] := by
        rintro rfl
        simp at hv
        omega
      simp only [seekLoop, if_pos hlt, ih hu.tail hne' (show v - n.size ≤ _ by omega),
        Option.map_some, Option.some.injEq]
      rw [← Nat.add_div_right _ hb]
      congr 1
      omega
    · simp only [seekLoop, if_neg hlt, Option.some.injEq]
      split_ifs with hend
      · rw [hend, hn, Nat.div_self hb]
      · rw [Nat.div_eq_of_lt (by omega)]

end ByteArray

end Sylar

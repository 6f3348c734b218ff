import Sylar.ByteArray.Loops
import Sylar.Foundation.Effect

/-!
# The invariant of the byte array

`Wf` ties the counters and the pointer of a byte array to its chain of nodes. Every member keeps
it; each has one specification here, in terms of `bytes`, the flat sequence of the chain's bytes,
and callers never unfold a member again.

## Main definitions

* `bytes`: the bytes of the chain, in order
* `Wf`: the invariant
* `Fits ba n`: after `addCapacity(n)` there is room for `n` bytes

## Main results

* `Wf.grow`: `addCapacity` keeps the invariant and only appends nodes
* `write_spec`, `write_fault`: `write` overwrites a range, or runs off the chain
* `read_spec`, `setPosition_spec`, `clear_eq`, `getWriteBuffers_spec`: the other members
* `sustains_write` and so on: no member breaks the invariant
-/

namespace Sylar

open Foundation

namespace ByteArray

/-- The bytes of the chain, in order. -/
def bytes (ba : ByteArray) : List UInt8 := ba.root.flatMap Node.ptr

/-- **The invariant**: nodes of one size, counters in order, and `m_cur` at the node of the
position. -/
structure Wf (ba : ByteArray) : Prop where
  base_pos : 0 < ba.baseSize
  uniform : Uniform Node.ptr ba.baseSize ba.root
  root_pos : 0 < ba.root.length
  capacity_eq : ba.capacity = ba.baseSize * ba.root.length
  position_le : ba.position ≤ ba.size
  size_le : ba.size ≤ ba.capacity
  cur_eq : ba.cur = ba.link (ba.position / ba.baseSize)

variable {ba ba' : ByteArray} {n v : ℕ} {buf : List UInt8}

theorem Wf.length_bytes (wf : ba.Wf) : ba.bytes.length = ba.capacity :=
  wf.uniform.length.trans wf.capacity_eq.symm

theorem Wf.position_le_capacity (wf : ba.Wf) : ba.position ≤ ba.capacity :=
  wf.position_le.trans wf.size_le

theorem Wf.cur_isSome_iff (wf : ba.Wf) : ba.cur.isSome ↔ ba.position < ba.capacity := by
  rw [wf.cur_eq, link, wf.capacity_eq, Nat.mul_comm, ← Nat.div_lt_iff_lt_mul wf.base_pos]
  split_ifs with h <;> simp [h]

theorem Wf.cur_of_lt (wf : ba.Wf) (h : ba.position < ba.capacity) :
    ba.cur = some (ba.position / ba.baseSize) := by
  rw [wf.capacity_eq, Nat.mul_comm, ← Nat.div_lt_iff_lt_mul wf.base_pos] at h
  rw [wf.cur_eq, link, if_pos h]

theorem Wf.chain_cur (wf : ba.Wf) :
    ba.chain ba.cur = ba.root.drop (ba.position / ba.baseSize) := by
  rw [wf.cur_eq, link]
  split_ifs with h
  · rfl
  · exact (List.drop_eq_nil_of_le (by omega)).symm

/-- The room from the offset in the current node to the end of the chain is the capacity left. -/
theorem Wf.room (wf : ba.Wf) : ba.baseSize * (ba.chain ba.cur).length =
    ba.position % ba.baseSize + ba.getCapacity := by
  have hdiv := Nat.div_add_mod ba.position ba.baseSize
  have hle : ba.position / ba.baseSize ≤ ba.root.length := by
    have h := wf.position_le_capacity
    rw [wf.capacity_eq] at h
    exact Nat.div_le_of_le_mul h
  rw [wf.chain_cur, List.length_drop, Nat.mul_sub, ← wf.capacity_eq, getCapacity]
  have hcap : ba.baseSize * (ba.position / ba.baseSize) ≤ ba.capacity := by
    rw [wf.capacity_eq]
    exact Nat.mul_le_mul_left _ hle
  have hp := wf.position_le_capacity
  omega

/-- The flat sequence from the current node on. -/
theorem Wf.flatMap_chain (wf : ba.Wf) : (ba.chain ba.cur).flatMap Node.ptr =
    ba.bytes.drop (ba.baseSize * (ba.position / ba.baseSize)) := by
  rw [wf.chain_cur, bytes, wf.uniform.drop]

theorem Wf.uniform_chain (wf : ba.Wf) : Uniform Node.ptr ba.baseSize (ba.chain ba.cur) := by
  rw [wf.chain_cur]
  exact wf.uniform.drop_chain _

/-- Following `k` links from the current node lands on the node of a later position. -/
theorem Wf.advance_cur (wf : ba.Wf) (h : ba.position < ba.capacity) (k : ℕ) :
    ba.advance ba.cur ((ba.position % ba.baseSize + k) / ba.baseSize) =
      ba.link ((ba.position + k) / ba.baseSize) := by
  have hdiv := Nat.div_add_mod ba.position ba.baseSize
  rw [wf.cur_of_lt h, advance, Option.bind_some]
  congr 1
  rw [← Nat.mul_add_div wf.base_pos]
  congr 1
  omega

theorem Wf.new (base_size : ℕ) (hb : 0 < base_size) (heap : ℕ → UInt8) :
    (new base_size heap).Wf where
  base_pos := hb
  uniform := .cons (by simp [ByteArray.new, Node.alloc]) .nil
  root_pos := by simp [ByteArray.new]
  capacity_eq := by simp [ByteArray.new]
  position_le := le_rfl
  size_le := Nat.zero_le _
  cur_eq := by simp [ByteArray.new, link]

/-! ## Growing -/

theorem pushNodes_eq (count : ℕ) (ba : ByteArray) : ∃ ms heap, ms.length = count ∧
    Uniform Node.ptr ba.baseSize ms ∧
    pushNodes count ba =
      { ba with
        root := ba.root ++ ms
        capacity := ba.capacity + ba.baseSize * count
        heap := heap } := by
  induction count generalizing ba with
  | zero => exact ⟨[], ba.heap, rfl, .nil, by simp [pushNodes]⟩
  | succ count ih =>
    obtain ⟨ms, heap, hlen, hu, heq⟩ := ih ba.pushNode
    refine ⟨Node.alloc ba.heap ba.baseSize :: ms, heap, by simp [hlen], ?_, ?_⟩
    · exact .cons (Node.size_alloc _ _) hu
    · rw [pushNodes, heq]
      simp only [pushNode, List.append_assoc, List.singleton_append, Nat.mul_succ,
        Nat.add_assoc, Nat.add_comm ba.baseSize]

/-- The number of nodes `addCapacity` appends. -/
def added (ba : ByteArray) (size : ℕ) : ℕ :=
  if size ≤ ba.getCapacity then 0
  else nodeCount ba.baseSize ba.getCapacity (size - ba.getCapacity)

/-- The state `addCapacity` leaves. -/
def grow (ba : ByteArray) (size : ℕ) : ByteArray :=
  let grown := pushNodes (ba.added size) ba
  if size ≤ ba.getCapacity ∨ ba.getCapacity ≠ 0 then grown
  else { grown with cur := grown.link ba.root.length }

theorem addCapacity_eq (size : ℕ) (ba : ByteArray) :
    addCapacity size ba = .ok () (ba.grow size) := by
  by_cases hz : size = 0
  · simp [addCapacity, grow, added, hz, pushNodes]
  by_cases hle : size ≤ ba.getCapacity
  · simp [addCapacity, grow, added, hz, hle, pushNodes]
  · by_cases hcap : ba.getCapacity = 0
    · simp [addCapacity, grow, added, hz, hcap]
    · simp [addCapacity, grow, added, hz, hle, hcap]

/-- What `addCapacity` does to a byte array: it appends nodes. -/
structure Grown (ba ba' : ByteArray) (count : ℕ) : Prop where
  baseSize : ba'.baseSize = ba.baseSize
  position : ba'.position = ba.position
  size : ba'.size = ba.size
  endian : ba'.endian = ba.endian
  capacity : ba'.capacity = ba.capacity + ba.baseSize * count
  bytes : ∃ t, ba'.bytes = ba.bytes ++ t

theorem Wf.grow (wf : ba.Wf) (size : ℕ) :
    (ba.grow size).Wf ∧ Grown ba (ba.grow size) (ba.added size) := by
  obtain ⟨ms, heap, hlen, hu, heq⟩ := pushNodes_eq (ba.added size) ba
  have hbytes : (ba.root ++ ms).flatMap Node.ptr = ba.bytes ++ ms.flatMap Node.ptr :=
    List.flatMap_append
  have hcapacity : ba.capacity + ba.baseSize * ba.added size =
      ba.baseSize * (ba.root ++ ms).length := by
    rw [List.length_append, hlen, Nat.mul_add, wf.capacity_eq]
  have hsize := wf.size_le
  have hroot := wf.root_pos
  unfold ByteArray.grow
  simp only [heq]
  split_ifs with h
  · refine ⟨⟨wf.base_pos, wf.uniform.append hu, by simp; omega, hcapacity, wf.position_le,
      by simp only; omega, ?_⟩, rfl, rfl, rfl, rfl, rfl, ms.flatMap Node.ptr, hbytes⟩
    by_cases hlt : ba.position < ba.capacity
    · -- the current node is still there
      have hi : ba.position / ba.baseSize < ba.root.length := by
        rw [Nat.div_lt_iff_lt_mul wf.base_pos, Nat.mul_comm, ← wf.capacity_eq]
        exact hlt
      simp only [wf.cur_of_lt hlt, link, List.length_append]
      rw [if_pos (by omega)]
    · -- nothing was missing, so nothing was appended
      have hcap : ba.getCapacity = 0 := by unfold getCapacity; omega
      have hz : ms = [] := by
        rw [← List.length_eq_zero_iff, hlen, added, if_pos (by omega)]
      simp only [wf.cur_eq, link, hz, List.append_nil]
  · obtain ⟨-, hcap⟩ := not_or.mp h
    have hpos : ba.position = ba.baseSize * ba.root.length := by
      have hp := wf.position_le_capacity
      rw [not_not, getCapacity] at hcap
      rw [← wf.capacity_eq]
      omega
    refine ⟨⟨wf.base_pos, wf.uniform.append hu, by simp; omega, hcapacity, wf.position_le,
      by simp only; omega, ?_⟩, rfl, rfl, rfl, rfl, rfl, ms.flatMap Node.ptr, hbytes⟩
    simp only [hpos, Nat.mul_div_cancel_left _ wf.base_pos]
    rfl

/-- After `addCapacity(n)` there is room for `n` bytes. -/
def Fits (ba : ByteArray) (n : ℕ) : Prop := n ≤ (ba.grow n).getCapacity

theorem Wf.fits_iff (wf : ba.Wf) :
    ba.Fits n ↔ n ≤ ba.getCapacity + ba.baseSize * ba.added n := by
  have hg := (wf.grow n).2
  have hp := wf.position_le_capacity
  unfold Fits getCapacity
  rw [hg.capacity, hg.position]
  constructor <;> intro h <;> omega

/-! ## Writing -/

/-- What a completed `write` does to a byte array. -/
structure Wrote (ba ba' : ByteArray) (buf : List UInt8) : Prop where
  baseSize : ba'.baseSize = ba.baseSize
  endian : ba'.endian = ba.endian
  position : ba'.position = ba.position + buf.length
  size : ba'.size = max ba.size (ba.position + buf.length)
  capacity : ba.capacity ≤ ba'.capacity
  bytes : ∃ t, ba.position + buf.length ≤ (ba.bytes ++ t).length ∧
    ba'.bytes = splice (ba.bytes ++ t) ba.position buf

theorem write_nil (ba : ByteArray) : write [] ba = .ok () ba := by simp [write]

theorem write_eq (hbuf : 0 < buf.length) (ba : ByteArray) :
    write buf ba =
      match writeLoop ((ba.grow buf.length).chain (ba.grow buf.length).cur)
          ((ba.grow buf.length).position % (ba.grow buf.length).baseSize) buf with
      | none => .error .nullNode (ba.grow buf.length)
      | some (ns, k) => .ok () { ba.grow buf.length with
          root := (ba.grow buf.length).root.take ((ba.grow buf.length).cur.getD 0) ++ ns
          cur := (ba.grow buf.length).advance (ba.grow buf.length).cur k
          position := (ba.grow buf.length).position + buf.length
          size := if (ba.grow buf.length).size < (ba.grow buf.length).position + buf.length
            then (ba.grow buf.length).position + buf.length else (ba.grow buf.length).size } := by
  have hne : ¬ buf.length = 0 := by omega
  simp only [write, if_neg hne, bind_ok (addCapacity_eq buf.length ba), get_bind_apply]
  cases writeLoop ((ba.grow buf.length).chain (ba.grow buf.length).cur)
    ((ba.grow buf.length).position % (ba.grow buf.length).baseSize) buf <;> rfl

theorem write_spec (wf : ba.Wf) (hfit : ba.Fits buf.length) :
    ∃ ba', write buf ba = .ok () ba' ∧ ba'.Wf ∧ Wrote ba ba' buf := by
  rcases Nat.eq_zero_or_pos buf.length with hz | hbuf
  · obtain rfl : buf = [] := List.length_eq_zero_iff.mp hz
    refine ⟨ba, write_nil ba, wf, rfl, rfl, rfl, ?_, le_rfl, [], ?_, by simp⟩
    · simpa using (max_eq_left wf.position_le).symm
    · simpa [wf.length_bytes] using wf.position_le_capacity
  obtain ⟨wf', hg⟩ := wf.grow buf.length
  rw [Fits] at hfit
  rw [write_eq hbuf]
  generalize ba.grow buf.length = g at *
  -- what is written fits, so there is a current node
  have hlt : g.position < g.capacity := by
    unfold getCapacity at hfit
    omega
  have hroom := wf'.room
  obtain ⟨ns, hrun, hlen, hu, hflat⟩ := writeLoop_eq_some wf'.base_pos buf
    wf'.uniform_chain (Nat.mod_lt g.position wf'.base_pos) hbuf (by omega)
  have hcur : g.cur.getD 0 = g.position / g.baseSize := by rw [wf'.cur_of_lt hlt]; rfl
  have hroot : (g.root.take (g.position / g.baseSize) ++ ns).length = g.root.length := by
    rw [List.length_append, hlen, wf'.chain_cur, List.length_drop, List.length_take]
    omega
  -- the loop starts at the current node; the nodes in front of it stay
  have hbytes : (g.root.take (g.position / g.baseSize) ++ ns).flatMap Node.ptr =
      splice g.bytes g.position buf := by
    have hdiv := Nat.div_add_mod g.position g.baseSize
    have hle := wf'.position_le_capacity
    have hl : (g.bytes.take (g.baseSize * (g.position / g.baseSize))).length =
        g.baseSize * (g.position / g.baseSize) := by
      rw [List.length_take, wf'.length_bytes]
      omega
    rw [List.flatMap_append, hflat, wf'.flatMap_chain, ← wf'.uniform.take]
    conv_rhs =>
      rw [← List.take_append_drop (g.baseSize * (g.position / g.baseSize)) g.bytes]
    have hsplit := splice_append_right (g.bytes.take (g.baseSize * (g.position / g.baseSize)))
      (g.bytes.drop (g.baseSize * (g.position / g.baseSize))) buf (g.position % g.baseSize)
    rw [hl, hdiv] at hsplit
    exact hsplit.symm
  rw [hrun]
  simp only [hcur]
  refine ⟨_, rfl, ⟨wf'.base_pos, ?_, ?_, ?_, ?_, ?_, ?_⟩, ⟨hg.baseSize, hg.endian, ?_, ?_, ?_, ?_⟩⟩
  · exact (wf'.uniform.take_chain _).append hu
  · simp only [hroot]
    exact wf'.root_pos
  · simp only [hroot]
    exact wf'.capacity_eq
  · simp only
    split_ifs <;> omega
  · have hs := wf'.size_le
    unfold getCapacity at hfit
    simp only
    split_ifs <;> omega
  · simp only [wf'.advance_cur hlt, link, hroot]
  · simp only [hg.position]
  · simp only [hg.position, hg.size]
    split_ifs <;> omega
  · simp only [hg.capacity]
    omega
  · obtain ⟨t, ht⟩ := hg.bytes
    refine ⟨t, ?_, by simp only [bytes] at hbytes ht ⊢; rw [hbytes, ht, hg.position]⟩
    rw [← ht, wf'.length_bytes, ← hg.position]
    unfold getCapacity at hfit
    omega

theorem write_fault (wf : ba.Wf) (hfit : ¬ ba.Fits buf.length) :
    ∃ ba', write buf ba = .error .nullNode ba' := by
  obtain ⟨wf', -⟩ := wf.grow buf.length
  have hbuf : 0 < buf.length := by
    rw [Fits] at hfit
    omega
  rw [Fits] at hfit
  rw [write_eq hbuf]
  generalize ba.grow buf.length = g at *
  have hroom := wf'.room
  have hnone : writeLoop (g.chain g.cur) (g.position % g.baseSize) buf = none :=
    writeLoop_eq_none wf'.uniform_chain (Nat.mod_lt _ wf'.base_pos).le (by omega)
  exact ⟨g, by rw [hnone]⟩

/-! ## Reading -/

/-- The byte array with its position moved to `v`. -/
def moveTo (ba : ByteArray) (v : ℕ) : ByteArray :=
  { ba with position := v, cur := ba.link (v / ba.baseSize) }

@[simp] theorem bytes_moveTo (ba : ByteArray) (v : ℕ) : (ba.moveTo v).bytes = ba.bytes := rfl

@[simp] theorem position_moveTo (ba : ByteArray) (v : ℕ) : (ba.moveTo v).position = v := rfl

@[simp] theorem size_moveTo (ba : ByteArray) (v : ℕ) : (ba.moveTo v).size = ba.size := rfl

@[simp] theorem endian_moveTo (ba : ByteArray) (v : ℕ) : (ba.moveTo v).endian = ba.endian := rfl

@[simp] theorem capacity_moveTo (ba : ByteArray) (v : ℕ) :
    (ba.moveTo v).capacity = ba.capacity := rfl

@[simp] theorem baseSize_moveTo (ba : ByteArray) (v : ℕ) :
    (ba.moveTo v).baseSize = ba.baseSize := rfl

@[simp] theorem moveTo_moveTo (ba : ByteArray) (v w : ℕ) :
    (ba.moveTo v).moveTo w = ba.moveTo w := rfl

theorem Wf.moveTo (wf : ba.Wf) (h : v ≤ ba.size) : (ba.moveTo v).Wf :=
  { wf with position_le := h, cur_eq := rfl }

theorem Wf.moveTo_position (wf : ba.Wf) : ba.moveTo ba.position = ba := by
  rw [ByteArray.moveTo, ← wf.cur_eq]

theorem read_short (h : ba.getReadSize < n) :
    read n ba = .error (.outOfRange "not enough len") ba := by
  simp [read, h]

theorem read_spec (wf : ba.Wf) (hn : n ≤ ba.getReadSize) (hlt : ba.position < ba.capacity) :
    read n ba = .ok ((ba.bytes.drop ba.position).take n) (ba.moveTo (ba.position + n)) := by
  have hsize := wf.size_le
  have hne : ba.chain ba.cur ≠ [] := by
    rw [wf.chain_cur, ne_eq, List.drop_eq_nil_iff, not_le, Nat.div_lt_iff_lt_mul wf.base_pos,
      Nat.mul_comm, ← wf.capacity_eq]
    exact hlt
  have hroom := wf.room
  have hdiv := Nat.div_add_mod ba.position ba.baseSize
  have hrun := readLoop_eq_some wf.base_pos n wf.uniform_chain
    (Nat.mod_lt ba.position wf.base_pos) hne
    (by unfold getReadSize at hn; unfold getCapacity at hroom; omega)
  rw [wf.flatMap_chain, List.drop_drop, hdiv] at hrun
  have hif : ¬ ba.getReadSize < n := not_lt.mpr hn
  simp only [read, get_bind_apply, if_neg hif, hrun, set_bind_apply, pure_apply,
    wf.advance_cur hlt]
  rfl

/-- At full capacity `m_cur` is null, and `read` follows it even for no bytes at all. -/
theorem read_fault (wf : ba.Wf) (hn : n ≤ ba.getReadSize) (heq : ba.position = ba.capacity) :
    read n ba = .error .nullNode ba := by
  have hnone : ba.chain ba.cur = [] := by
    rw [wf.chain_cur, heq, wf.capacity_eq, Nat.mul_div_cancel_left _ wf.base_pos, List.drop_length]
  have hif : ¬ ba.getReadSize < n := not_lt.mpr hn
  simp only [read, get_bind_apply, if_neg hif, hnone, readLoop, throw_apply]

/-! ## Moving -/

theorem setPosition_short (h : ba.capacity < v) :
    setPosition v ba = .error (.outOfRange "set_position out of range") ba := by
  simp [setPosition, h]

theorem setPosition_spec (wf : ba.Wf) (hv : v ≤ ba.capacity) :
    setPosition v ba = .ok () ({ ba with size := max ba.size v }.moveTo v) := by
  have hseek := seekLoop_eq_some wf.base_pos (v := v) wf.uniform
    (List.ne_nil_of_length_pos wf.root_pos) (by rw [← wf.capacity_eq]; exact hv)
  have hif : ¬ ba.capacity < v := not_lt.mpr hv
  have hmax : (if ba.size < v then v else ba.size) = max ba.size v := by
    split_ifs <;> omega
  simp only [setPosition, get_bind_apply, if_neg hif, hseek, set_apply, hmax]
  rfl

theorem Wf.setPosition (wf : ba.Wf) (hv : v ≤ ba.capacity) :
    ({ ba with size := max ba.size v }.moveTo v).Wf :=
  { wf with
    position_le := le_max_right _ _
    size_le := max_le wf.size_le hv
    cur_eq := rfl }

/-- The byte array after `clear`. -/
def cleared (ba : ByteArray) : ByteArray :=
  { ba with
    position := 0
    size := 0
    capacity := ba.baseSize
    root := ba.root.take 1
    cur := some 0 }

theorem clear_eq (ba : ByteArray) : clear ba = .ok () ba.cleared := rfl

theorem Wf.cleared (wf : ba.Wf) : ba.cleared.Wf := by
  have hroot := wf.root_pos
  have hlen : (ba.root.take 1).length = 1 := by
    rw [List.length_take]
    omega
  exact ⟨wf.base_pos, wf.uniform.take_chain 1, by simp only [ByteArray.cleared]; omega,
    by simp only [ByteArray.cleared, hlen, Nat.mul_one], le_rfl, Nat.zero_le _,
    by simp [ByteArray.cleared, link, hroot]⟩

/-! ## Buffers to write into -/

theorem getWriteBuffers_spec (wf : ba.Wf) (hn : 0 < n) (hfit : ba.Fits n) :
    ∃ iovs, getWriteBuffers n ba = .ok (iovs, n) (ba.grow n) ∧
      (iovs.map Iovec.len).sum = n := by
  obtain ⟨wf', -⟩ := wf.grow n
  rw [Fits] at hfit
  have hroom := wf'.room
  have hsome := (iovLoop_isSome_iff ((ba.grow n).cur.getD 0) wf'.uniform_chain
    (Nat.mod_lt (ba.grow n).position wf'.base_pos).le hn).mpr (by omega)
  obtain ⟨iovs, hiovs⟩ := Option.isSome_iff_exists.mp hsome
  have hne : ¬ n = 0 := by omega
  refine ⟨iovs, ?_, iovLoop_sum hiovs⟩
  simp only [getWriteBuffers, if_neg hne, bind_ok (addCapacity_eq n ba), get_bind_apply, hiovs,
    pure_apply]

theorem getWriteBuffers_fault (wf : ba.Wf) (hfit : ¬ ba.Fits n) :
    getWriteBuffers n ba = .error .nullNode (ba.grow n) := by
  obtain ⟨wf', -⟩ := wf.grow n
  rw [Fits] at hfit
  have hroom := wf'.room
  have hn : 0 < n := by omega
  have hnone : iovLoop ((ba.grow n).chain (ba.grow n).cur) ((ba.grow n).cur.getD 0)
      ((ba.grow n).position % (ba.grow n).baseSize) n = none := by
    rw [← Option.not_isSome_iff_eq_none, iovLoop_isSome_iff _ wf'.uniform_chain
      (Nat.mod_lt _ wf'.base_pos).le hn]
    omega
  have hne : ¬ n = 0 := by omega
  simp only [getWriteBuffers, if_neg hne, bind_ok (addCapacity_eq n ba), get_bind_apply, hnone,
    throw_apply]

/-! ## What the members keep -/

/-- A null pointer and an overrun leave no state; an exception does. -/
def Error.fatal : Error → Bool
  | .outOfRange _ => false
  | .nullNode => true
  | .overrun => true

theorem sustains_addCapacity (n : ℕ) : Sustains Error.fatal Wf (addCapacity n) := by
  intro ba wf ba' h
  obtain rfl : ba.grow n = ba' := by simpa [addCapacity_eq, settle] using h
  exact (wf.grow n).1

theorem sustains_write (buf : List UInt8) : Sustains Error.fatal Wf (write buf) := by
  intro ba wf ba' h
  by_cases hfit : ba.Fits buf.length
  · obtain ⟨t, hrun, wf', -⟩ := write_spec wf hfit
    obtain rfl : t = ba' := by simpa [hrun, settle] using h
    exact wf'
  · obtain ⟨t, hrun⟩ := write_fault wf hfit
    simp [hrun, settle, Error.fatal] at h

theorem sustains_read (n : ℕ) : Sustains Error.fatal Wf (read n) := by
  intro ba wf ba' h
  rcases Nat.lt_or_ge ba.getReadSize n with hn | hn
  · obtain rfl : ba = ba' := by simpa [read_short hn, settle, Error.fatal] using h
    exact wf
  · have hsize := wf.position_le
    rcases wf.position_le_capacity.lt_or_eq with hlt | heq
    · obtain rfl : ba.moveTo (ba.position + n) = ba' := by
        simpa [read_spec wf hn hlt, settle] using h
      exact wf.moveTo (by unfold getReadSize at hn; omega)
    · simp [read_fault wf hn heq, settle, Error.fatal] at h

theorem sustains_setPosition (v : ℕ) : Sustains Error.fatal Wf (setPosition v) := by
  intro ba wf ba' h
  rcases Nat.lt_or_ge ba.capacity v with hv | hv
  · obtain rfl : ba = ba' := by simpa [setPosition_short hv, settle, Error.fatal] using h
    exact wf
  · obtain rfl : _ = ba' := by simpa [setPosition_spec wf hv, settle] using h
    exact wf.setPosition hv

theorem sustains_clear : Sustains Error.fatal Wf clear := by
  intro ba wf ba' h
  obtain rfl : ba.cleared = ba' := by simpa [clear_eq, settle] using h
  exact wf.cleared

theorem sustains_getWriteBuffers (n : ℕ) : Sustains Error.fatal Wf (getWriteBuffers n) := by
  intro ba wf ba' h
  rcases Nat.eq_zero_or_pos n with rfl | hn
  · obtain rfl : ba = ba' := by simpa [getWriteBuffers, settle] using h
    exact wf
  by_cases hfit : ba.Fits n
  · obtain ⟨iovs, hrun, -⟩ := getWriteBuffers_spec wf hn hfit
    obtain rfl : ba.grow n = ba' := by simpa [hrun, settle] using h
    exact (wf.grow n).1
  · simp [getWriteBuffers_fault wf hfit, settle, Error.fatal] at h

theorem sustains_setIsLittleEndian (val : Bool) :
    Sustains Error.fatal Wf (setIsLittleEndian val) :=
  .modify fun _ wf => { wf with cur_eq := wf.cur_eq }

theorem sustains_readFromFile (file : Option (List UInt8)) :
    Sustains Error.fatal Wf (readFromFile file) := by
  cases file with
  | none => exact .pure false
  | some file =>
    exact .get_bind fun ba => (Sustains.forM (fun i => sustains_write _) _).bind fun _ => .pure true

end ByteArray

end Sylar

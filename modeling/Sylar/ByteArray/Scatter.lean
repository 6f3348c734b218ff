import Sylar.ByteArray.Views

/-!
# Input from a socket

`SocketStream::read` hands the kernel the buffers of `getWriteBuffers`, which `recv` fills in
order, and moves the position by what has come. It asks for more than comes, so the chain may grow
further than for a `write` of the same bytes, and `setPosition` looks for the current node from the
root. On the flat sequence of bytes it is the same overwrite.

## Main definitions

* `scatter`: the chain after `recv` has filled ranges of its buffers
* `Iovec.start`: the offset at which a range starts
* `Agree`: two byte arrays with the same position, size and bytes up to the size

## Main results

* `iovLoop_scatter`: filling the ranges overwrites a stretch of the chain
* `socket_read_eq_write`: reading from a socket is writing what has come
-/

namespace Sylar

open Foundation

namespace ByteArray

variable {byteOrder : Endian} {ba ba' g : ByteArray} {b npos idx len k : ℕ} {ns root : List Node}
  {d : List UInt8} {iovs : List Iovec}

/-! ## Filling buffers -/

/-- `recv` stores the bytes that have come into the buffers, one after the other. -/
def scatter : List Iovec → List UInt8 → List Node → List Node
  | [], _, root => root
  | v :: iovs, d, root =>
    scatter iovs (d.drop v.len) (root.modify v.node fun n => n.store v.off (d.take v.len))

/-- `SocketStream::read` with a buffer of `length` bytes asked for, when `d` has come. -/
def socketRead (length : ℕ) (d : List UInt8) : Op Unit := do
  let r ← getWriteBuffers length
  modify fun ba => { ba with root := scatter r.1 d ba.root }
  -- the stream moves the position behind what it received
  let ba ← get
  setPosition (ba.position + d.length)

/-- A store into one node of a chain. -/
theorem modify_store {n : Node} (hns : root.drop idx = n :: ns) (off : ℕ) (e : List UInt8) :
    root.modify idx (fun n => n.store off e) = root.take idx ++ n.store off e :: ns := by
  have hlt : idx < root.length := by
    apply Nat.lt_of_not_le
    intro hle
    rw [List.drop_eq_nil_of_le hle] at hns
    cases hns
  have hcons := List.drop_eq_getElem_cons hlt
  rw [hns] at hcons
  obtain ⟨hn, htail⟩ := List.cons.inj hcons
  rw [List.modify_eq_take_cons_drop hlt, ← hn, ← htail]

/-- **Filling the ranges** of a stretch of the chain overwrites the stretch. -/
theorem iovLoop_scatter (hns : root.drop idx = ns) (hu : Uniform Node.ptr b ns) (hnpos : npos < b)
    (hd : d.length ≤ len) (h : iovLoop ns idx npos len = some iovs) :
    ∃ ns', scatter iovs d root = root.take idx ++ ns' ∧ ns'.length = ns.length ∧
      Uniform Node.ptr b ns' ∧ ns'.flatMap Node.ptr = splice (ns.flatMap Node.ptr) npos d := by
  induction ns generalizing idx npos len iovs d root with
  | nil => cases h
  | cons n ns ih =>
    have hsize : n.size = b := hu.head
    simp only [iovLoop] at h
    split_ifs at h with hle
    · -- the stretch ends in this node
      obtain rfl := Option.some.inj h
      have hin : npos + d.length ≤ n.size := by omega
      refine ⟨n.store npos d :: ns, ?_, rfl, ?_, ?_⟩
      · rw [scatter, scatter, List.take_of_length_le hd]
        exact modify_store hns npos d
      · exact .cons ((Node.size_store hin).trans hsize) hu.tail
      · rw [List.flatMap_cons, List.flatMap_cons, splice_append_left hin]
        rfl
    · -- the node is filled as far as bytes have come, and the rest goes to the nodes behind it
      obtain ⟨rest, hrest, rfl⟩ := Option.map_eq_some_iff.mp h
      generalize hcap : n.size - npos = ncap at hle hrest ⊢
      have htake : npos + (d.take ncap).length ≤ n.size := by
        rw [List.length_take]
        omega
      have hstore := modify_store hns npos (d.take ncap)
      have hlen : (root.take idx ++ [n.store npos (d.take ncap)]).length = idx + 1 := by
        have hlt : idx < root.length := by
          apply Nat.lt_of_not_le
          intro hle
          rw [List.drop_eq_nil_of_le hle] at hns
          cases hns
        rw [List.length_append, List.length_take, List.length_singleton]
        omega
      have hroot : root.take idx ++ n.store npos (d.take ncap) :: ns =
          root.take idx ++ [n.store npos (d.take ncap)] ++ ns := by
        rw [List.append_assoc, List.singleton_append]
      have hdrop : (root.take idx ++ n.store npos (d.take ncap) :: ns).drop (idx + 1) = ns := by
        rw [hroot, List.drop_append_of_le_length hlen.ge, List.drop_eq_nil_of_le hlen.le,
          List.nil_append]
      obtain ⟨ns', hscatter, hl, hu', hflat⟩ := ih hdrop hu.tail (Nat.zero_lt_of_lt hnpos)
        (d := d.drop ncap) (by rw [List.length_drop]; omega) hrest
      refine ⟨n.store npos (d.take ncap) :: ns', ?_, by rw [List.length_cons, hl]; rfl, ?_, ?_⟩
      · rw [scatter, hstore, hscatter, hroot, List.take_append_of_le_length hlen.ge,
          List.take_of_length_le hlen.le, List.append_assoc, List.singleton_append]
      · exact .cons ((Node.size_store htake).trans hsize) hu'
      · rw [List.flatMap_cons, List.flatMap_cons, hflat]
        by_cases hfull : d.length ≤ ncap
        · -- nothing has come for the nodes behind
          rw [List.drop_eq_nil_of_le hfull, splice_nil, List.take_of_length_le hfull,
            splice_append_left (by change _ ≤ n.size; omega)]
          rfl
        · have hend : npos + (d.take ncap).length = n.ptr.length := by
            rw [List.length_take]
            change _ = n.size
            omega
          conv_rhs => rw [← List.take_append_drop ncap d]
          exact (splice_append_split hend).symm

/-! ## The ranges -/

/-- The offset at which a range starts. -/
def Iovec.start (ba : ByteArray) (v : Iovec) : ℕ := ba.baseSize * v.node + v.off

/-- The ranges lie in their nodes, one behind the other. -/
theorem iovLoop_ordered (hb : ba.baseSize = b) (hu : Uniform Node.ptr b ns) (hnpos : npos < b)
    (h : iovLoop ns idx npos len = some iovs) :
    (∀ v ∈ iovs, b * idx + npos ≤ v.start ba ∧ v.off + v.len ≤ b ∧ v.node < idx + ns.length) ∧
      iovs.Pairwise fun v w => v.stop ba ≤ w.start ba := by
  induction ns generalizing idx npos len iovs with
  | nil => cases h
  | cons n ns ih =>
    have hsize : n.size = b := hu.head
    simp only [iovLoop] at h
    split_ifs at h with hle
    · obtain rfl := Option.some.inj h
      refine ⟨fun v hv => ?_, List.pairwise_singleton _ _⟩
      obtain rfl := List.mem_singleton.mp hv
      simp only [Iovec.start, hb, List.length_cons]
      omega
    · obtain ⟨rest, hrest, rfl⟩ := Option.map_eq_some_iff.mp h
      obtain ⟨hranges, hordered⟩ := ih hu.tail (Nat.zero_lt_of_lt hnpos) hrest
      have hnext : b * (idx + 1) = b * idx + b := Nat.mul_succ b idx
      refine ⟨fun v hv => ?_, List.pairwise_cons.mpr ⟨fun w hw => ?_, hordered⟩⟩
      · rw [List.length_cons]
        rcases List.mem_cons.mp hv with rfl | hv
        · simp only [Iovec.start, hb]
          omega
        · have hv := hranges v hv
          omega
      · have hw := hranges w hw
        simp only [Iovec.stop, hb]
        omega

/-! ## Reading from a socket -/

/-- The same position, size and bytes up to the size. -/
structure Agree (ba ba' : ByteArray) : Prop where
  position : ba.position = ba'.position
  size : ba.size = ba'.size
  bytes : ∀ i < ba.size, ba.bytes[i]? = ba'.bytes[i]?

/-- An overwrite at the position, whatever the chain has behind its old size. -/
theorem getElem?_splice_grown (wf : ba.Wf) {t t' : List UInt8}
    (ht : ba.position + d.length ≤ (ba.bytes ++ t).length)
    (ht' : ba.position + d.length ≤ (ba.bytes ++ t').length) {i : ℕ}
    (hi : i < max ba.size (ba.position + d.length)) :
    (splice (ba.bytes ++ t) ba.position d)[i]? = (splice (ba.bytes ++ t') ba.position d)[i]? := by
  have hsize := wf.size_le
  rw [← wf.length_bytes] at hsize
  rcases Nat.lt_or_ge i ba.position with hlt | hge
  · rw [getElem?_splice_of_lt (by omega) hlt, getElem?_splice_of_lt (by omega) hlt]
    have hpos := wf.position_le
    rw [List.getElem?_append_left (by omega), List.getElem?_append_left (by omega)]
  · obtain ⟨k, rfl⟩ := Nat.exists_eq_add_of_le hge
    rcases Nat.lt_or_ge k d.length with hk | hk
    · rw [getElem?_splice_of_mem (by omega) hk, getElem?_splice_of_mem (by omega) hk]
    · rw [getElem?_splice_of_ge (by omega) (by omega), getElem?_splice_of_ge (by omega) (by omega)]
      rw [List.getElem?_append_left (by omega), List.getElem?_append_left (by omega)]

/-- The byte array after the buffers are filled and the position has moved. -/
theorem Wf.scatter (wf : ba.Wf) (hlen : 0 < len) (hfit : ba.position + len ≤ ba.capacity)
    (hd : d.length ≤ len) : ∃ iovs root',
    ByteArray.iovLoop (ba.chain ba.cur) (ba.cur.getD 0) (ba.position % ba.baseSize) len =
        some iovs ∧
      ByteArray.scatter iovs d ba.root = root' ∧ { ba with root := root' }.Wf ∧
      root'.flatMap Node.ptr = splice ba.bytes ba.position d := by
  have hlt : ba.position < ba.capacity := by omega
  have hdiv := Nat.div_add_mod ba.position ba.baseSize
  have hcur : ba.cur.getD 0 = ba.position / ba.baseSize := by
    rw [wf.cur_of_lt hlt]
    rfl
  obtain ⟨iovs, hiovs, -⟩ := wf.iovLoop hlen hfit
  have hmod := Nat.mod_lt ba.position wf.base_pos
  obtain ⟨ns', hscatter, hl, hu, hflat⟩ :=
    iovLoop_scatter (d := d) rfl (wf.uniform.drop_chain _) hmod hd hiovs
  have hroot : (ba.root.take (ba.position / ba.baseSize) ++ ns').length = ba.root.length := by
    rw [List.length_append, hl, List.length_take, List.length_drop]
    omega
  refine ⟨iovs, _, by rw [wf.chain_cur, hcur]; exact hiovs, hscatter, ?_, ?_⟩
  · exact ⟨wf.base_pos, (wf.uniform.take_chain _).append hu,
      by simp only [hroot]; exact wf.root_pos,
      by simp only [hroot]; exact wf.capacity_eq, wf.position_le, wf.size_le,
      by simp only [link, hroot]; exact wf.cur_eq⟩
  · have hl : (ba.bytes.take (ba.baseSize * (ba.position / ba.baseSize))).length =
        ba.baseSize * (ba.position / ba.baseSize) := by
      rw [List.length_take, wf.length_bytes]
      omega
    have hsplit := splice_append_right (ba.bytes.take (ba.baseSize * (ba.position / ba.baseSize)))
      (ba.bytes.drop (ba.baseSize * (ba.position / ba.baseSize))) d (ba.position % ba.baseSize)
    rw [hl, hdiv, List.take_append_drop] at hsplit
    rw [List.flatMap_append, hflat, ← wf.uniform.drop, ← wf.uniform.take]
    exact hsplit.symm

/-- The buffers are the ranges that the loop collects behind the grown chain. -/
theorem getWriteBuffers_eq (hlen : 0 < len)
    (h : iovLoop ((ba.grow len).chain (ba.grow len).cur) ((ba.grow len).cur.getD 0)
      ((ba.grow len).position % (ba.grow len).baseSize) len = some iovs) :
    getWriteBuffers len ba = .ok (iovs, len) (ba.grow len) := by
  have hne : ¬ len = 0 := by omega
  simp only [getWriteBuffers, if_neg hne, bind_ok (addCapacity_eq len ba), get_bind_apply, h,
    pure_apply]

/-- The state in which a read from a socket leaves a byte array that has grown to `g`. -/
def received (g : ByteArray) (root : List Node) (n : ℕ) : ByteArray :=
  { { g with root := root } with size := max g.size (g.position + n) }.moveTo (g.position + n)

theorem socketRead_eq (hbuffers : getWriteBuffers len ba = .ok (iovs, len) (ba.grow len))
    (wf : { ba.grow len with root := root }.Wf)
    (hscatter : ByteArray.scatter iovs d (ba.grow len).root = root)
    (hd : (ba.grow len).position + d.length ≤ (ba.grow len).capacity) :
    socketRead len d ba = .ok () (received (ba.grow len) root d.length) := by
  have hmove := setPosition_spec wf (v := (ba.grow len).position + d.length) hd
  simp only [socketRead, bind_ok hbuffers, bind_ok (modify_apply _ _), get_bind_apply, hscatter]
  exact hmove

/-- The byte array after the read and the one after the `write` agree. -/
theorem Agree.of_splice (wf : ba.Wf) (hg : Grown ba g k) (hw : Wrote ba ba' d)
    (hroom : ba.position + d.length ≤ g.bytes.length)
    (hroot : root.flatMap Node.ptr = splice g.bytes g.position d) :
    Agree (received g root d.length) ba' := by
  refine ⟨?_, ?_, fun i hi => ?_⟩
  · rw [hw.position, ← hg.position]
    rfl
  · rw [hw.size, ← hg.position, ← hg.size]
    rfl
  · have hi : i < max ba.size (ba.position + d.length) := by
      rw [← hg.position, ← hg.size]
      exact hi
    obtain ⟨t, ht⟩ := hg.bytes
    obtain ⟨t', hle, ht'⟩ := hw.bytes
    have hbytes : (received g root d.length).bytes = splice (ba.bytes ++ t) ba.position d := by
      rw [← ht, ← hg.position, ← hroot]
      rfl
    rw [hbytes, ht']
    rw [ht] at hroom
    exact getElem?_splice_grown wf hroom hle hi

/-- **Reading from a socket** is writing what has come: the same position, size and bytes, and the
current node at the position. The buffers are disjoint ranges in the order of their offsets. -/
theorem socket_read_eq_write {base_size : ℕ} (hb : 1 ≤ base_size)
    (h : Reachable byteOrder base_size ba) (hlen : 1 ≤ len) (hd : d.length ≤ len)
    (hfit : ba.Fits len) (hfit' : ba.Fits d.length) :
    ∃ iovs ba₁ ba₂ ba', getWriteBuffers len ba = .ok (iovs, len) ba₁ ∧
      socketRead len d ba = .ok () ba₂ ∧ write d ba = .ok () ba' ∧ Agree ba₂ ba' ∧
      ba₂.cur = ba₂.link (ba₂.position / ba₂.baseSize) ∧
      ba'.cur = ba'.link (ba'.position / ba'.baseSize) ∧
      (iovs.map Iovec.len).sum = len ∧
      (∀ v ∈ iovs, ba.position ≤ v.start ba₁ ∧ v.stop ba₁ ≤ ba.position + len ∧
        v.off + v.len ≤ ba₁.baseSize ∧ v.node < ba₁.root.length) ∧
      iovs.Pairwise fun v w => v.stop ba₁ ≤ w.start ba₁ := by
  have wf := h.wf hb
  obtain ⟨wf₁, hg⟩ := wf.grow len
  have hroom : (ba.grow len).position + len ≤ (ba.grow len).capacity := by
    have hle := wf₁.position_le_capacity
    unfold Fits getCapacity at hfit
    omega
  have hlt : (ba.grow len).position < (ba.grow len).capacity := by omega
  obtain ⟨iovs, root, hiovs, hscatter, wf₂, hroot⟩ := wf₁.scatter hlen hroom hd
  have hbuffers := getWriteBuffers_eq hlen hiovs
  have hread := socketRead_eq hbuffers wf₂ hscatter (by omega)
  obtain ⟨ba', hwrite, wf', hw⟩ := write_spec wf hfit'
  have hagree : Agree (received (ba.grow len) root d.length) ba' := by
    apply Agree.of_splice wf hg hw _ hroot
    rw [wf₁.length_bytes, ← hg.position]
    omega
  -- the ranges, from the current node on
  have hcur : (ba.grow len).cur.getD 0 = (ba.grow len).position / (ba.grow len).baseSize := by
    rw [wf₁.cur_of_lt hlt]
    rfl
  have hmod := Nat.mod_lt (ba.grow len).position wf₁.base_pos
  have hdiv := Nat.div_add_mod (ba.grow len).position (ba.grow len).baseSize
  have hnode : (ba.grow len).position / (ba.grow len).baseSize < (ba.grow len).root.length := by
    rw [Nat.div_lt_iff_lt_mul wf₁.base_pos, Nat.mul_comm, ← wf₁.capacity_eq]
    exact hlt
  obtain ⟨hranges, hordered⟩ := iovLoop_ordered rfl wf₁.uniform_chain hmod hiovs
  obtain ⟨iovs', hiovs', -, hstop, -⟩ := wf₁.iovLoop hlen hroom
  rw [← wf₁.chain_cur, ← hcur, hiovs] at hiovs'
  obtain rfl := Option.some.inj hiovs'
  refine ⟨iovs, _, _, ba', hbuffers, hread, hwrite, hagree, rfl, wf'.cur_eq,
    iovLoop_sum hiovs, fun v hv => ?_, hordered⟩
  obtain ⟨hstart, hin, hlink⟩ := hranges v hv
  have hstop := (hstop v hv).2
  rw [hcur, hdiv, hg.position] at hstart
  rw [hg.position] at hstop
  rw [hcur, wf₁.chain_cur, List.length_drop] at hlink
  exact ⟨hstart, hstop, hin, by omega⟩

/-- Two of three bytes asked for come, in nodes of one. -/
theorem socket_read_eq_write_two : ∃ iovs ba₁ ba₂ ba',
    getWriteBuffers 3 (new 1 fun _ => 0) = .ok (iovs, 3) ba₁ ∧
      socketRead 3 [7, 8] (new 1 fun _ => 0) = .ok () ba₂ ∧
      write [7, 8] (new 1 fun _ => 0) = .ok () ba' ∧ Agree ba₂ ba' ∧
      ba₂.cur = ba₂.link (ba₂.position / ba₂.baseSize) ∧
      ba'.cur = ba'.link (ba'.position / ba'.baseSize) ∧
      (iovs.map Iovec.len).sum = 3 ∧
      (∀ v ∈ iovs, 0 ≤ v.start ba₁ ∧ v.stop ba₁ ≤ 0 + 3 ∧
        v.off + v.len ≤ ba₁.baseSize ∧ v.node < ba₁.root.length) ∧
      iovs.Pairwise fun v w => v.stop ba₁ ≤ w.start ba₁ :=
  socket_read_eq_write (by decide) (reachable_new .little 1 fun _ => 0) (by decide) (by decide)
    (by unfold Fits; decide) (by unfold Fits; decide)

end ByteArray

end Sylar

import Sylar.ByteArray.Strings

/-!
# Views of the stored bytes

The unread bytes can be read, copied into a string, or handed out as ranges of node buffers; two
of these members also take a position of their own. The loops are those of `read` and of
`getReadBuffers`, so on the flat sequence of the chain's bytes they agree wherever they start at
the same node with the same length.

They do not always. `read` looks at the current node even for no bytes, and there is none at the
end of the capacity. The members with a position compare the length with what is unread from
`m_position` on, and the one that copies starts at the node of `m_position`.

## Main definitions

* `stored`: the bytes at a range of offsets
* `Iovec.load`, `gather`: the bytes that a range of a node buffer, and a list of them, stand for
* `copied`: the ranges that the positional `read` copies
* `Addresses`: the positional members yield the bytes at their offsets, and none behind the size

## Main results

* `reads_total_iff`: reads of what there is complete exactly where there is a current node
* `views_agree`: `read`, `toString` and `getReadBuffers` yield the same bytes
* `addresses_iff`: when the positional members address absolute offsets
-/

namespace Sylar

open Foundation

namespace ByteArray

variable {byteOrder : Endian} {ba ba' : ByteArray} {b npos idx len n p : ℕ} {ns : List Node}

/-! ## Ranges -/

/-- The bytes at the offsets from `p` on, `n` of them. -/
def stored (ba : ByteArray) (p n : ℕ) : List UInt8 := (ba.bytes.drop p).take n

/-- The bytes of a range of a node buffer. -/
def Iovec.load (ba : ByteArray) (v : Iovec) : List UInt8 :=
  (ba.root[v.node]?.map fun node => node.load v.off v.len).getD []

/-- The bytes of ranges, one after the other. -/
def gather (ba : ByteArray) (iovs : List Iovec) : List UInt8 := iovs.flatMap (Iovec.load ba)

/-- The offset behind a range. -/
def Iovec.stop (ba : ByteArray) (v : Iovec) : ℕ := ba.baseSize * v.node + v.off + v.len

/-- **The loop that collects buffers** yields the bytes of a stretch of the chain, in ranges that
are not empty and the last of which ends where the stretch ends. -/
theorem iovLoop_gather (hb : ba.baseSize = b) (hns : ba.root.drop idx = ns)
    (hu : Uniform Node.ptr b ns) (hnpos : npos < b) (hlen : 0 < len) {iovs : List Iovec}
    (h : iovLoop ns idx npos len = some iovs) :
    gather ba iovs = ((ns.flatMap Node.ptr).drop npos).take len ∧
      (∀ v ∈ iovs, 0 < v.len ∧ v.stop ba ≤ b * idx + npos + len) ∧
      ∃ v ∈ iovs, v.stop ba = b * idx + npos + len := by
  induction ns generalizing idx npos len iovs with
  | nil => cases h
  | cons node ns ih =>
    have hnode : node.ptr.length = b := hu.head
    have hget : ba.root[idx]? = some node := by
      rw [← List.head?_drop, hns]
      rfl
    have htail : ba.root.drop (idx + 1) = ns := by
      rw [← List.tail_drop, hns]
      rfl
    have hsize : node.size = b := hnode
    simp only [iovLoop] at h
    split_ifs at h with hle
    · -- the stretch ends in this node
      obtain rfl := Option.some.inj h
      refine ⟨?_, ?_, ⟨idx, npos, len⟩, by simp, ?_⟩
      · rw [gather, List.flatMap_singleton, Iovec.load, hget, List.flatMap_cons,
          List.drop_append_of_le_length (by omega),
          List.take_append_of_le_length (by rw [List.length_drop]; omega)]
        rfl
      · intro v hv
        obtain rfl := List.mem_singleton.mp hv
        simp only [Iovec.stop, hb]
        exact ⟨hlen, Nat.le_refl _⟩
      · simp only [Iovec.stop, hb]
    · -- the rest of the node, and the rest of the stretch behind it
      obtain ⟨rest, hrest, rfl⟩ := Option.map_eq_some_iff.mp h
      obtain ⟨hbytes, hranges, v, hv, hstop⟩ :=
        ih htail hu.tail (by omega) (by omega) hrest
      have hnext : b * (idx + 1) + 0 + (len - (node.size - npos)) = b * idx + npos + len := by
        rw [Nat.mul_succ]
        omega
      have hload : node.load npos (node.size - npos) = node.ptr.drop npos := by
        rw [Node.load, List.take_of_length_le]
        rw [List.length_drop]
        rfl
      refine ⟨?_, ?_, v, List.mem_cons_of_mem _ hv, hstop.trans hnext⟩
      · rw [gather] at hbytes ⊢
        rw [List.flatMap_cons, hbytes, Iovec.load, hget, Option.map_some, Option.getD_some, hload,
          List.flatMap_cons, List.drop_append_of_le_length (by omega), List.take_append,
          List.take_of_length_le (show (node.ptr.drop npos).length ≤ len by
            rw [List.length_drop]; omega),
          List.drop_zero, List.length_drop, hnode, hsize]
      · intro w hw
        rcases List.mem_cons.mp hw with rfl | hw
        · simp only [Iovec.stop, hb]
          omega
        · obtain ⟨hpos, hend⟩ := hranges w hw
          exact ⟨hpos, hend.trans_eq hnext⟩

/-- The ranges collected from the node of an offset on, as long as they stay in the capacity. -/
theorem Wf.iovLoop (wf : ba.Wf) (hlen : 0 < len) (hle : p + len ≤ ba.capacity) :
    ∃ iovs, ByteArray.iovLoop (ba.root.drop (p / ba.baseSize)) (p / ba.baseSize)
        (p % ba.baseSize) len = some iovs ∧
      gather ba iovs = ba.stored p len ∧ (∀ v ∈ iovs, 0 < v.len ∧ v.stop ba ≤ p + len) ∧
      ∃ v ∈ iovs, v.stop ba = p + len := by
  have hdiv := Nat.div_add_mod p ba.baseSize
  have hmod := Nat.mod_lt p wf.base_pos
  have hu := wf.uniform.drop_chain (p / ba.baseSize)
  have hroom : p % ba.baseSize + len ≤
      ba.baseSize * (ba.root.drop (p / ba.baseSize)).length := by
    rw [List.length_drop, Nat.mul_sub, ← wf.capacity_eq]
    omega
  obtain ⟨iovs, hiovs⟩ := Option.isSome_iff_exists.mp
    ((iovLoop_isSome_iff (p / ba.baseSize) hu hmod.le hlen).mpr hroom)
  obtain ⟨hbytes, hranges, hlast⟩ := iovLoop_gather rfl rfl hu hmod hlen hiovs
  rw [hdiv] at hranges hlast
  refine ⟨iovs, hiovs, ?_, hranges, hlast⟩
  rw [hbytes, ← wf.uniform.drop, List.drop_drop, hdiv]
  rfl

/-- Ranges that leave the capacity run off the chain. -/
theorem Wf.iovLoop_eq_none (wf : ba.Wf) (hlen : 0 < len) (hlt : ba.capacity < p + len) :
    ByteArray.iovLoop (ba.root.drop (p / ba.baseSize)) (p / ba.baseSize) (p % ba.baseSize) len =
      none := by
  have hdiv := Nat.div_add_mod p ba.baseSize
  have hmod := Nat.mod_lt p wf.base_pos
  have hroot := wf.root_pos
  rw [← Option.not_isSome_iff_eq_none,
    iovLoop_isSome_iff _ (wf.uniform.drop_chain _) hmod.le hlen, List.length_drop, Nat.mul_sub,
    ← wf.capacity_eq]
  omega

theorem Wf.length_stored (wf : ba.Wf) (h : p + n ≤ ba.capacity) : (ba.stored p n).length = n := by
  rw [stored, List.length_take, List.length_drop, wf.length_bytes]
  omega

/-! ## Reading what there is -/

theorem length_unread (wf : ba.Wf) (h : n ≤ ba.getReadSize) : ba.position + n ≤ ba.capacity := by
  have hpos := wf.position_le
  have hsize := wf.size_le
  unfold getReadSize at h
  omega

/-- The loop of `read` on the chain from the current node on, for as many bytes as the chain
has. -/
theorem Wf.readLoop (wf : ba.Wf) (hlt : ba.position < ba.capacity) {q : ℕ}
    (hq : q < ba.baseSize)
    (hfit : ba.baseSize * (ba.position / ba.baseSize) + q + n ≤ ba.capacity) :
    ∃ k, ByteArray.readLoop (ba.chain ba.cur) q n =
      some (ba.stored (ba.baseSize * (ba.position / ba.baseSize) + q) n, k) := by
  have hne : ba.chain ba.cur ≠ [] := by
    rw [wf.chain_cur, ne_eq, List.drop_eq_nil_iff, not_le, Nat.div_lt_iff_lt_mul wf.base_pos,
      Nat.mul_comm, ← wf.capacity_eq]
    exact hlt
  have hroom : q + n ≤ ba.baseSize * (ba.chain ba.cur).length := by
    rw [wf.chain_cur, List.length_drop, Nat.mul_sub, ← wf.capacity_eq]
    omega
  have hrun := readLoop_eq_some wf.base_pos n wf.uniform_chain hq hne hroom
  rw [wf.flatMap_chain, List.drop_drop] at hrun
  exact ⟨_, hrun⟩

theorem readAt_eq (hn : n ≤ ba.getReadSize) : readAt n p ba =
    match readLoop (ba.chain ba.cur) (p % ba.baseSize) n with
    | none => .error .nullNode ba
    | some (buf, _) => .ok buf ba := by
  simp only [readAt, get_bind_apply, if_neg (not_lt.mpr hn)]
  cases readLoop (ba.chain ba.cur) (p % ba.baseSize) n <;> rfl

/-- `toString` is the unread bytes. -/
theorem toString_eq (wf : ba.Wf) :
    toString ba = .ok (ba.stored ba.position ba.getReadSize) ba := by
  by_cases hzero : ba.getReadSize = 0
  · simp [toString, stored, hzero]
  have hlen := length_unread wf (Nat.le_refl ba.getReadSize)
  have hdiv := Nat.div_add_mod ba.position ba.baseSize
  obtain ⟨k, hloop⟩ := wf.readLoop (n := ba.getReadSize) (by omega)
    (Nat.mod_lt ba.position wf.base_pos) (by omega)
  rw [hdiv] at hloop
  simp only [toString, get_bind_apply, if_neg hzero]
  rw [readAt_eq (Nat.le_refl _), hloop]

/-- `getReadBuffers` stands for the unread bytes, as many as there are of those it is asked
for. -/
theorem getReadBuffers_eq (wf : ba.Wf) (len : ℕ) :
    ∃ iovs, getReadBuffers len ba = .ok (iovs, min len ba.getReadSize) ba ∧
      gather ba iovs = ba.stored ba.position (min len ba.getReadSize) ∧ ∀ v ∈ iovs, 0 < v.len := by
  have hmin : (if ba.getReadSize < len then ba.getReadSize else len) = min len ba.getReadSize := by
    split_ifs with h
    · exact (Nat.min_eq_right h.le).symm
    · exact (Nat.min_eq_left (not_lt.mp h)).symm
  by_cases hzero : min len ba.getReadSize = 0
  · refine ⟨[], ?_, by simp [gather, stored, hzero], by simp⟩
    simp only [getReadBuffers, get_bind_apply, hmin, hzero, if_true, pure_apply]
  have hlen := length_unread wf (Nat.min_le_right len ba.getReadSize)
  obtain ⟨iovs, hiovs, hbytes, hranges, -⟩ := wf.iovLoop (Nat.pos_of_ne_zero hzero) hlen
  refine ⟨iovs, ?_, hbytes, fun v hv => (hranges v hv).1⟩
  have hcur : ba.cur.getD 0 = ba.position / ba.baseSize := by
    rw [wf.cur_of_lt (by omega), Option.getD_some]
  simp only [getReadBuffers, get_bind_apply, hmin, if_neg hzero, hcur, wf.chain_cur, hiovs,
    pure_apply]

/-- **All views of the unread bytes agree**: what `read` of `n` bytes returns is the front of
`toString` and what the ranges of `getReadBuffers` stand for. Neither of these changes the byte
array, and the ranges are not empty. -/
theorem views_agree {base_size : ℕ} (hb : 1 ≤ base_size) (h : Reachable byteOrder base_size ba)
    (hn : 1 ≤ n) (hle : n ≤ ba.getReadSize) :
    ∃ buf s iovs, (∃ ba', read n ba = .ok buf ba') ∧ toString ba = .ok s ba ∧
      getReadBuffers n ba = .ok (iovs, n) ba ∧ buf.length = n ∧ s.take n = buf ∧
      gather ba iovs = buf ∧ (∀ v ∈ iovs, v.len ≠ 0) ∧
      ∀ len, ∃ iovs, getReadBuffers len ba = .ok (iovs, min len ba.getReadSize) ba ∧
        gather ba iovs = s.take len ∧ ∀ v ∈ iovs, v.len ≠ 0 := by
  have wf := h.wf hb
  have hlen := length_unread wf hle
  -- the front of the unread bytes, whatever is asked for
  have hfront : ∀ len, (ba.stored ba.position ba.getReadSize).take len =
      ba.stored ba.position (min len ba.getReadSize) := by
    intro len
    rw [stored, List.take_take]
    rfl
  obtain ⟨iovs, hiovs, hbytes, hranges⟩ := getReadBuffers_eq wf n
  rw [Nat.min_eq_left hle] at hiovs hbytes
  refine ⟨_, _, iovs, ⟨_, read_spec wf hle (by omega)⟩, toString_eq wf, hiovs,
    wf.length_stored hlen, ?_, hbytes, fun v hv => Nat.ne_of_gt (hranges v hv), fun len => ?_⟩
  · rw [hfront, Nat.min_eq_left hle]
    rfl
  · obtain ⟨iovs, hiovs, hbytes, hranges⟩ := getReadBuffers_eq wf len
    exact ⟨iovs, hiovs, by rw [hbytes, hfront], fun v hv => Nat.ne_of_gt (hranges v hv)⟩

/-- Two of three bytes, across nodes of two bytes. -/
theorem views_agree_three : ∃ ba buf s iovs, (∃ ba', read 2 ba = .ok buf ba') ∧
    toString ba = .ok s ba ∧ getReadBuffers 2 ba = .ok (iovs, 2) ba ∧ buf.length = 2 ∧
    s.take 2 = buf ∧ gather ba iovs = buf ∧ (∀ v ∈ iovs, v.len ≠ 0) ∧
    ∀ len, ∃ iovs, getReadBuffers len ba = .ok (iovs, min len ba.getReadSize) ba ∧
      gather ba iovs = s.take len ∧ ∀ v ∈ iovs, v.len ≠ 0 := by
  have hreach : (machine .little).Reaches (new 1 fun _ => 0) _ :=
    .snoc (.setPosition 0) (.snoc (.write [7, 8, 9]) .refl trivial rfl) trivial rfl
  exact ⟨_, views_agree (le_refl 1) (⟨_, hreach⟩ : Reachable .little 1 _) (by decide)
    (by decide)⟩

/-! ## Positions of their own -/

/-- Where the positional `read` starts: at the offset of the position in its own node, in the node
of `m_position`. -/
def readStart (ba : ByteArray) (p : ℕ) : ℕ :=
  ba.baseSize * (ba.position / ba.baseSize) + p % ba.baseSize

/-- The ranges that the positional `read` copies, if it copies all of them. -/
def copied (ba : ByteArray) (n p : ℕ) : Option (List Iovec) :=
  if n = 0 then some []
  else iovLoop (ba.chain ba.cur) (ba.cur.getD 0) (p % ba.baseSize) n

/-- **Absolute offsets**: in the size both members yield the bytes at the offsets from `p` to
`p + n`; across the end of the size they stay on the chain, and what they copy or hand out ends in
the size. -/
def Addresses (ba : ByteArray) (n p : ℕ) : Prop :=
  if p + n ≤ ba.size then
    readAt n p ba = .ok (ba.stored p n) ba ∧
      ∃ iovs, getReadBuffersAt n p ba = .ok (iovs, n) ba ∧ gather ba iovs = ba.stored p n
  else
    ¬ Faults (readAt n p) ba ∧ ¬ Faults (getReadBuffersAt n p) ba ∧
      (∀ buf, readAt n p ba = .ok buf ba →
        ∀ iovs, ba.copied n p = some iovs → ∀ v ∈ iovs, v.stop ba ≤ ba.size) ∧
      ∀ iovs m, getReadBuffersAt n p ba = .ok (iovs, m) ba → ∀ v ∈ iovs, v.stop ba ≤ ba.size

theorem readAt_short (h : ba.getReadSize < n) :
    readAt n p ba = .error (.outOfRange "not enough len") ba := by
  simp [readAt, h]

/-- Without a current node there is nothing to read from. -/
theorem readAt_fault (wf : ba.Wf) (hn : n ≤ ba.getReadSize) (heq : ba.position = ba.capacity) :
    readAt n p ba = .error .nullNode ba := by
  have hnone : ba.chain ba.cur = [] := by
    rw [wf.chain_cur, heq, wf.capacity_eq, Nat.mul_div_cancel_left _ wf.base_pos, List.drop_length]
  rw [readAt_eq hn, hnone]
  rfl

theorem readAt_ok (wf : ba.Wf) (hn : n ≤ ba.getReadSize) (hlt : ba.position < ba.capacity)
    (hfit : ba.readStart p + n ≤ ba.capacity) :
    readAt n p ba = .ok (ba.stored (ba.readStart p) n) ba := by
  obtain ⟨k, hloop⟩ := wf.readLoop hlt (Nat.mod_lt p wf.base_pos) hfit
  rw [readAt_eq hn, hloop]
  rfl

theorem readAt_over (wf : ba.Wf) (hn : n ≤ ba.getReadSize) (hlt : ba.position < ba.capacity)
    (hover : ba.capacity < ba.readStart p + n) : readAt n p ba = .error .nullNode ba := by
  have hmod := Nat.mod_lt p wf.base_pos
  have hroom : ba.baseSize * (ba.chain ba.cur).length < p % ba.baseSize + n := by
    have hle : ba.baseSize * (ba.position / ba.baseSize) ≤ ba.position :=
      Nat.mul_div_le ..
    unfold readStart at hover
    rw [wf.chain_cur, List.length_drop, Nat.mul_sub, ← wf.capacity_eq]
    omega
  rw [readAt_eq hn, readLoop_eq_none wf.uniform_chain hmod.le hroom]

/-- What the positional `read` copies, from where it starts on. -/
theorem copied_eq (wf : ba.Wf) (hlt : ba.position < ba.capacity) (hn : 0 < n)
    (hfit : ba.readStart p + n ≤ ba.capacity) :
    ∃ iovs, ba.copied n p = some iovs ∧ gather ba iovs = ba.stored (ba.readStart p) n ∧
      (∀ v ∈ iovs, v.stop ba ≤ ba.readStart p + n) ∧
      ∃ v ∈ iovs, v.stop ba = ba.readStart p + n := by
  have hmod := Nat.mod_lt p wf.base_pos
  have hu := wf.uniform.drop_chain (ba.position / ba.baseSize)
  have hroom : p % ba.baseSize + n ≤
      ba.baseSize * (ba.root.drop (ba.position / ba.baseSize)).length := by
    unfold readStart at hfit
    rw [List.length_drop, Nat.mul_sub, ← wf.capacity_eq]
    omega
  obtain ⟨iovs, hiovs⟩ := Option.isSome_iff_exists.mp
    ((iovLoop_isSome_iff (ba.position / ba.baseSize) hu hmod.le hn).mpr hroom)
  obtain ⟨hbytes, hranges, hlast⟩ := iovLoop_gather rfl rfl hu hmod hn hiovs
  refine ⟨iovs, ?_, ?_, fun v hv => (hranges v hv).2, hlast⟩
  · rw [copied, if_neg (by omega), wf.cur_of_lt hlt, Option.getD_some]
    exact hiovs
  · rw [hbytes, ← wf.uniform.drop, List.drop_drop]
    rfl

/-- What the positional `read` returns is what it copies. -/
theorem readAt_copied (wf : ba.Wf) {buf : List UInt8} (h : readAt n p ba = .ok buf ba) :
    ∃ iovs, ba.copied n p = some iovs ∧ gather ba iovs = buf := by
  rcases Nat.lt_or_ge ba.getReadSize n with hshort | hle
  · rw [readAt_short hshort] at h
    cases h
  rcases wf.position_le_capacity.lt_or_eq with hlt | heq
  · rcases Nat.lt_or_ge ba.capacity (ba.readStart p + n) with hover | hfit
    · rw [readAt_over wf hle hlt hover] at h
      cases h
    · rw [readAt_ok wf hle hlt hfit] at h
      injection h with hbuf _
      rcases Nat.eq_zero_or_pos n with rfl | hn
      · exact ⟨[], rfl, hbuf⟩
      · obtain ⟨iovs, hcopied, hbytes, -⟩ := copied_eq wf hlt hn hfit
        exact ⟨iovs, hcopied, hbytes.trans hbuf⟩
  · rw [readAt_fault wf hle heq] at h
    cases h

/-- In the size, the positional `read` yields its bytes exactly if it asks for no more than is
unread and what it copies are the same bytes. -/
theorem readAt_eq_stored_iff (wf : ba.Wf) :
    readAt n p ba = .ok (ba.stored p n) ba ↔
      n ≤ ba.getReadSize ∧ ba.position < ba.capacity ∧ ba.readStart p + n ≤ ba.capacity ∧
        ba.stored (ba.readStart p) n = ba.stored p n := by
  constructor
  · intro h
    have hle : n ≤ ba.getReadSize := by
      by_contra hshort
      rw [readAt_short (not_le.mp hshort)] at h
      cases h
    have hlt : ba.position < ba.capacity := by
      apply lt_of_le_of_ne wf.position_le_capacity
      intro heq
      rw [readAt_fault wf hle heq] at h
      cases h
    have hfit : ba.readStart p + n ≤ ba.capacity := by
      by_contra hover
      rw [readAt_over wf hle hlt (not_le.mp hover)] at h
      cases h
    rw [readAt_ok wf hle hlt hfit] at h
    injection h with hbuf _
    exact ⟨hle, hlt, hfit, hbuf⟩
  · rintro ⟨hle, hlt, hfit, hbuf⟩
    rw [readAt_ok wf hle hlt hfit, hbuf]

/-- The positional buffers: those of as many bytes as are unread, from the position on. -/
theorem getReadBuffersAt_eq (n p : ℕ) (ba : ByteArray) : getReadBuffersAt n p ba =
    if min n ba.getReadSize = 0 then .ok ([], 0) ba
    else match iovLoop (ba.root.drop (p / ba.baseSize)) (p / ba.baseSize) (p % ba.baseSize)
        (min n ba.getReadSize) with
      | none => .error .nullNode ba
      | some iovs => .ok (iovs, min n ba.getReadSize) ba := by
  have hmin : (if ba.getReadSize < n then ba.getReadSize else n) = min n ba.getReadSize := by
    split_ifs with h
    · exact (Nat.min_eq_right h.le).symm
    · exact (Nat.min_eq_left (not_lt.mp h)).symm
  simp only [getReadBuffersAt, get_bind_apply, hmin]
  split_ifs with hzero
  · rfl
  · cases iovLoop (ba.root.drop (p / ba.baseSize)) (p / ba.baseSize) (p % ba.baseSize)
      (min n ba.getReadSize) <;> rfl

/-- In the size, the positional buffers yield their bytes exactly if they are asked for no more
than is unread. -/
theorem getReadBuffersAt_eq_stored_iff (wf : ba.Wf) (hle : p + n ≤ ba.size) :
    (∃ iovs, getReadBuffersAt n p ba = .ok (iovs, n) ba ∧ gather ba iovs = ba.stored p n) ↔
      n ≤ ba.getReadSize := by
  have hsize := wf.size_le
  rw [getReadBuffersAt_eq]
  constructor
  · rintro ⟨iovs, h, -⟩
    split_ifs at h with hzero
    · injection h with hr _
      have hn := congrArg Prod.snd hr
      simp only at hn
      omega
    · split at h
      · cases h
      · injection h with hr _
        have hn := congrArg Prod.snd hr
        simp only at hn
        omega
  · intro hn
    rw [Nat.min_eq_left hn]
    split_ifs with hzero
    · exact ⟨[], by rw [hzero], by simp [gather, stored, hzero]⟩
    · obtain ⟨iovs, hiovs, hbytes, -⟩ := wf.iovLoop (Nat.pos_of_ne_zero hzero) (hle.trans hsize)
      exact ⟨iovs, by rw [hiovs], hbytes⟩

/-- Across the end of the size, the positional buffers end in the size exactly if there are none
of them, or they are cut short and start in front of `m_position`. -/
theorem getReadBuffersAt_inSize_iff (wf : ba.Wf) (hlt : ba.size < p + n) :
    (¬ Faults (getReadBuffersAt n p) ba ∧
      ∀ iovs m, getReadBuffersAt n p ba = .ok (iovs, m) ba → ∀ v ∈ iovs, v.stop ba ≤ ba.size) ↔
      n = 0 ∨ ba.getReadSize = 0 ∨ ba.getReadSize < n ∧ p ≤ ba.position := by
  have hsize := wf.size_le
  have hpos := wf.position_le
  have hcond : n = 0 ∨ ba.getReadSize = 0 ∨ ba.getReadSize < n ∧ p ≤ ba.position ↔
      min n ba.getReadSize = 0 ∨ p + min n ba.getReadSize ≤ ba.size := by
    unfold getReadSize
    omega
  rw [hcond, getReadBuffersAt_eq, Faults, getReadBuffersAt_eq]
  by_cases hzero : min n ba.getReadSize = 0
  · rw [if_pos hzero]
    refine iff_of_true ⟨?_, ?_⟩ (.inl hzero)
    · rintro ⟨ba', h⟩
      cases h
    · intro iovs m h
      cases h
      simp
  rw [if_neg hzero]
  rcases Nat.lt_or_ge ba.capacity (p + min n ba.getReadSize) with hover | hfit
  · -- the chain ends first
    rw [wf.iovLoop_eq_none (Nat.pos_of_ne_zero hzero) hover]
    exact iff_of_false (fun h => h.1 ⟨ba, rfl⟩) (by omega)
  · obtain ⟨iovs, hiovs, -, hranges, v, hv, hstop⟩ :=
      wf.iovLoop (Nat.pos_of_ne_zero hzero) hfit
    rw [hiovs]
    constructor
    · rintro ⟨-, h⟩
      rw [← hstop]
      exact .inr (h iovs _ rfl v hv)
    · intro hin
      refine ⟨?_, ?_⟩
      · rintro ⟨ba', h⟩
        cases h
      · intro iovs' m h w hw
        cases h
        have hend := (hranges w hw).2
        omega

/-- Across the end of the size, the positional `read` throws, or it copies nothing or what is in
the size. -/
theorem readAt_inSize_iff (wf : ba.Wf) :
    (¬ Faults (readAt n p) ba ∧ ∀ buf, readAt n p ba = .ok buf ba →
      ∀ iovs, ba.copied n p = some iovs → ∀ v ∈ iovs, v.stop ba ≤ ba.size) ↔
      ba.getReadSize < n ∨ ba.position < ba.capacity ∧ (n = 0 ∨ ba.readStart p + n ≤ ba.size) := by
  have hsize := wf.size_le
  rcases Nat.lt_or_ge ba.getReadSize n with hshort | hle
  · rw [Faults, readAt_short hshort]
    refine iff_of_true ⟨?_, ?_⟩ (.inl hshort)
    · rintro ⟨ba', h⟩
      cases h
    · intro buf h
      cases h
  rcases wf.position_le_capacity.lt_or_eq with hlt | heq
  · rcases Nat.lt_or_ge ba.capacity (ba.readStart p + n) with hover | hfit
    · have hn : n ≠ 0 := by
        rintro rfl
        have hdiv := Nat.mul_div_le ba.position ba.baseSize
        have hmod := Nat.mod_lt p wf.base_pos
        have hroom := wf.room
        unfold readStart getCapacity at *
        have hnode : ba.position / ba.baseSize < ba.root.length := by
          rw [Nat.div_lt_iff_lt_mul wf.base_pos, Nat.mul_comm, ← wf.capacity_eq]
          exact hlt
        have hnext := Nat.mul_le_mul_left ba.baseSize hnode
        rw [← wf.capacity_eq, Nat.mul_succ] at hnext
        omega
      refine iff_of_false (fun h => h.1 ⟨ba, readAt_over wf hle hlt hover⟩) (by omega)
    · rw [Faults, readAt_ok wf hle hlt hfit]
      -- nothing is copied for an empty read
      rcases Nat.eq_zero_or_pos n with rfl | hn
      · refine iff_of_true ⟨?_, ?_⟩ (.inr ⟨hlt, .inl rfl⟩)
        · rintro ⟨ba', h⟩
          cases h
        · intro buf _ iovs hiovs
          obtain rfl := Option.some.inj hiovs
          simp
      · obtain ⟨iovs, hcopied, -, hranges, v, hv, hstop⟩ := copied_eq wf hlt hn hfit
        constructor
        · rintro ⟨-, h⟩
          have hin := h _ rfl iovs hcopied v hv
          omega
        · intro hin
          refine ⟨?_, ?_⟩
          · rintro ⟨ba', h⟩
            cases h
          · intro buf _ iovs' hiovs' w hw
            obtain rfl := Option.some.inj (hcopied.symm.trans hiovs')
            have hend := hranges w hw
            omega
  · exact iff_of_false (fun h => h.1 ⟨ba, readAt_fault wf hle heq⟩) (by omega)

/-- The positional `read` starts at its position exactly if that is in the node of `m_position`. -/
theorem readStart_eq_iff (wf : ba.Wf) :
    ba.readStart p = p ↔ p / ba.baseSize = ba.position / ba.baseSize := by
  have hdiv := Nat.div_add_mod p ba.baseSize
  unfold readStart
  constructor
  · intro h
    apply Nat.eq_of_mul_eq_mul_left wf.base_pos
    omega
  · intro h
    rw [← h, hdiv]

/-- The condition under which the positional members address absolute offsets. In the size: no more
than is unread from `m_position` on, a current node, and at the offset of the position in that node
as many bytes that are the stored ones, as they are when the position is in it. Across the end of
the size: no bytes and a current node, or more than is unread, and the position not behind
`m_position` unless nothing is. -/
def Addressable (ba : ByteArray) (n p : ℕ) : Prop :=
  if p + n ≤ ba.size then
    n ≤ ba.getReadSize ∧ ba.position < ba.capacity ∧ ba.readStart p + n ≤ ba.capacity ∧
      ba.stored (ba.readStart p) n = ba.stored p n
  else
    n = 0 ∧ ba.position < ba.capacity ∨
      ba.getReadSize < n ∧ (ba.getReadSize = 0 ∨ p ≤ ba.position)

/-- **Positional access**: in every reachable state the members that take a position address
absolute offsets exactly under this condition. -/
theorem addresses_iff {base_size : ℕ} (hb : 1 ≤ base_size) (h : Reachable byteOrder base_size ba)
    (n p : ℕ) : Addresses ba n p ↔ Addressable ba n p := by
  have wf := h.wf hb
  unfold Addresses Addressable
  split_ifs with hin
  · rw [readAt_eq_stored_iff wf, getReadBuffersAt_eq_stored_iff wf hin]
    exact and_iff_left_of_imp And.left
  · have hread := readAt_inSize_iff (n := n) (p := p) wf
    have hbuffers := getReadBuffersAt_inSize_iff wf (not_le.mp hin)
    have hsplit : ∀ a b c d : Prop, a ∧ b ∧ c ∧ d ↔ (a ∧ c) ∧ b ∧ d := by
      intro a b c d
      tauto
    rw [hsplit, hread, hbuffers]
    have hsize := wf.size_le
    unfold getReadSize
    omega

/-- Three bytes in nodes of two bytes, from the second one on. -/
theorem addresses_iff_three : ∃ ba, ba.position = 1 ∧ ba.size = 3 ∧
    (Addresses ba 1 0 ↔ Addressable ba 1 0) := by
  have hreach : (machine .little).Reaches (new 4 fun _ => 0) _ :=
    .snoc (.setPosition 1) (.snoc (.write [7, 8, 9]) .refl trivial rfl) trivial rfl
  exact ⟨_, rfl, rfl, addresses_iff (by decide) (⟨_, hreach⟩ : Reachable .little 4 _) 1 0⟩

/-- Four bytes in nodes of two, read from the start. The second node is in the size, and the
positional `read` yields the first one; asked for three bytes from the third one on, the
positional buffers run off the chain. -/
theorem positions_ignored : ∃ ba, Reachable .little 2 ba ∧ 2 + 2 ≤ ba.size ∧
    ba.stored 2 2 = [3, 4] ∧ readAt 2 2 ba = .ok [1, 2] ba ∧ ¬ Addresses ba 2 2 ∧
    ba.size < 2 + 3 ∧ Faults (getReadBuffersAt 3 2) ba ∧ ¬ Addresses ba 3 2 := by
  have hreach : (machine .little).Reaches (new 2 fun _ => 0) _ :=
    .snoc (.setPosition 0) (.snoc (.write [1, 2, 3, 4]) .refl trivial rfl) trivial rfl
  refine ⟨_, ⟨_, hreach⟩, by decide, rfl, rfl, ?_, by decide, ⟨_, rfl⟩, ?_⟩
  · rw [Addresses, if_pos (by decide)]
    rintro ⟨h, -⟩
    injection h with hbuf _
    exact absurd hbuf (by decide)
  · rw [Addresses, if_neg (by decide)]
    rintro ⟨-, h, -⟩
    exact h ⟨_, rfl⟩

end ByteArray

end Sylar

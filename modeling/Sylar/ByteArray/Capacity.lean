import Sylar.ByteArray.Typed

/-!
# When the chain has enough nodes

`addCapacity` compares the remainder of the missing bytes with the capacity that is left, although
that capacity is already subtracted from them. It appends a node too few exactly when the missing
bytes are not a whole number of nodes and their remainder is at most the capacity left; `write`,
`getWriteBuffers` and `readFromFile` then follow the null pointer at the end of the chain.

## Main definitions

* `Adequate ba n`: `addCapacity(n)` appends enough nodes
* `FileAdequate ba file`: every chunk of the file finds enough nodes
* `Faults`: a member follows a null pointer

## Main results

* `enough_nodes_iff`: in every reachable state the members stay on the chain exactly under these
  conditions
* `Adequate.of_baseSize_one`: nodes of one byte are always enough
-/

namespace Sylar

open Foundation

namespace ByteArray

/-- The member follows a null pointer. -/
def Faults {α : Type} (x : Op α) (ba : ByteArray) : Prop := ∃ ba', x ba = .error .nullNode ba'

/-- `addCapacity(n)` appends enough nodes: nothing is missing, or what is missing is a whole
number of nodes, or its remainder is more than the capacity left. -/
def Adequate (ba : ByteArray) (n : ℕ) : Prop :=
  n ≤ ba.getCapacity ∨ (n - ba.getCapacity) % ba.baseSize = 0 ∨
    ba.getCapacity < (n - ba.getCapacity) % ba.baseSize

instance (ba : ByteArray) (n : ℕ) : Decidable (ba.Adequate n) := by
  unfold Adequate
  infer_instance

variable {ba ba' : ByteArray} {n : ℕ} {buf : List UInt8}

/-- The nodes for `m` missing bytes hold them exactly if the remainder is counted. -/
theorem le_nodeCount_iff {baseSize old_cap m : ℕ} (hb : 0 < baseSize) :
    m ≤ baseSize * nodeCount baseSize old_cap m ↔
      m % baseSize = 0 ∨ old_cap < m % baseSize := by
  have hdiv := Nat.div_add_mod m baseSize
  have hmod := Nat.mod_lt m hb
  unfold nodeCount
  split_ifs with h
  · rw [Nat.mul_add, Nat.mul_one]
    constructor
    · exact fun _ => .inr h
    · omega
  · rw [Nat.add_zero]
    constructor <;> intro hm <;> omega

theorem Wf.fits_iff_adequate (wf : ba.Wf) : ba.Fits n ↔ ba.Adequate n := by
  rw [wf.fits_iff, Adequate, added]
  by_cases hle : n ≤ ba.getCapacity
  · simp [hle]
  · rw [if_neg hle, ← le_nodeCount_iff wf.base_pos]
    constructor <;> intro h <;> omega

/-- The capacity a completed `write` leaves in the chain. -/
theorem capacity_of_write (h : write buf ba = .ok () ba') :
    ba'.capacity = (ba.grow buf.length).capacity := by
  rcases Nat.eq_zero_or_pos buf.length with hz | hbuf
  · obtain rfl : buf = [] := List.length_eq_zero_iff.mp hz
    obtain rfl : ba = ba' := by simpa [write_nil] using h
    simp [grow, added, pushNodes]
  · rw [write_eq hbuf] at h
    split at h
    · cases h
    · injection h with _ h
      rw [← h]

theorem write_adequate (wf : ba.Wf) (h : ba.Adequate buf.length) :
    ∃ ba', write buf ba = .ok () ba' ∧ ba'.Wf ∧ ba'.baseSize = ba.baseSize ∧
      ba'.getCapacity = ba.getCapacity + ba.baseSize * ba.added buf.length - buf.length := by
  obtain ⟨ba', hrun, wf', hw⟩ := write_spec wf (wf.fits_iff_adequate.mpr h)
  refine ⟨ba', hrun, wf', hw.baseSize, ?_⟩
  have hp := wf.position_le_capacity
  rw [getCapacity, capacity_of_write hrun, (wf.grow _).2.capacity, hw.position, getCapacity]
  omega

theorem faults_write_iff (wf : ba.Wf) : Faults (write buf) ba ↔ ¬ ba.Adequate buf.length := by
  rw [← wf.fits_iff_adequate]
  constructor
  · rintro ⟨t, ht⟩ hfit
    obtain ⟨u, hu, -⟩ := write_spec wf hfit
    rw [hu] at ht
    cases ht
  · exact write_fault wf

theorem faults_getWriteBuffers_iff (wf : ba.Wf) (hn : 0 < n) :
    Faults (getWriteBuffers n) ba ↔ ¬ ba.Adequate n := by
  rw [← wf.fits_iff_adequate]
  constructor
  · rintro ⟨t, ht⟩ hfit
    obtain ⟨iovs, hrun, -⟩ := getWriteBuffers_spec wf hn hfit
    rw [hrun] at ht
    cases ht
  · exact fun hfit => ⟨_, getWriteBuffers_fault wf hfit⟩

/-- Room for at least one byte comes with a current node. -/
theorem room_iff (wf : ba.Wf) (hn : 0 < n) :
    (∃ t, addCapacity n ba = .ok () t ∧ n ≤ t.getCapacity ∧ t.cur ≠ none) ↔ ba.Adequate n := by
  rw [← wf.fits_iff_adequate, Fits]
  constructor
  · rintro ⟨t, ht, hroom, -⟩
    obtain rfl : ba.grow n = t := by simpa [addCapacity_eq] using ht
    exact hroom
  · intro hroom
    refine ⟨_, addCapacity_eq n ba, hroom, ?_⟩
    rw [← Option.isSome_iff_ne_none, (wf.grow n).1.cur_isSome_iff]
    unfold getCapacity at hroom
    omega

/-! ## Files -/

/-- Every chunk of a file finds enough nodes: the file fits in the capacity left, or the capacity
left behind the last node boundary is less than half a node, if a full chunk meets it, and less
than half the last chunk, if that chunk does not fit in it. -/
def FileAdequate (ba : ByteArray) (file : List UInt8) : Prop :=
  file.length ≤ ba.getCapacity ∨
    (ba.getCapacity / ba.baseSize < file.length / ba.baseSize →
        2 * (ba.getCapacity % ba.baseSize) < ba.baseSize) ∧
      (file.length % ba.baseSize ≤ ba.getCapacity % ba.baseSize ∨
        2 * (ba.getCapacity % ba.baseSize) < file.length % ba.baseSize)

instance (ba : ByteArray) (file : List UInt8) : Decidable (ba.FileAdequate file) := by
  unfold FileAdequate
  infer_instance

/-- The capacity that is left after `k` full chunks. -/
def leftAfter (baseSize cap k : ℕ) : ℕ :=
  if k ≤ cap / baseSize then cap - baseSize * k else cap % baseSize

theorem fault_bind {α β : Type} {x : Op α} {f : α → Op β} (h : Faults x ba) :
    Faults (x >>= f) ba := by
  obtain ⟨t, ht⟩ := h
  exact ⟨t, bind_error ht⟩

theorem faults_bind_iff {α β : Type} {x : Op α} {f : α → Op β} {a : α}
    (h : x ba = .ok a ba') : Faults (x >>= f) ba ↔ Faults (f a) ba' := by
  unfold Faults
  rw [bind_ok h]

/-- A chunk of a full node: it is written if a node fits, or if less than half a node is left. -/
theorem adequate_full_iff (hbuf : buf.length = ba.baseSize) (hb : 0 < ba.baseSize) :
    ba.Adequate buf.length ↔
      0 < ba.getCapacity / ba.baseSize ∨ 2 * (ba.getCapacity % ba.baseSize) < ba.baseSize := by
  rw [Adequate, hbuf, Nat.div_pos_iff]
  by_cases hle : ba.baseSize ≤ ba.getCapacity
  · simp [hle, hb]
  · rw [Nat.mod_eq_of_lt (a := ba.getCapacity) (by omega)]
    rcases Nat.eq_zero_or_pos ba.getCapacity with hz | hpos
    · simp [hz, hb]
    · rw [Nat.mod_eq_of_lt (a := ba.baseSize - ba.getCapacity) (by omega)]
      omega

theorem left_full (hbuf : buf.length = ba.baseSize) (hb : 0 < ba.baseSize)
    (h : ba.Adequate buf.length) :
    ba.getCapacity + ba.baseSize * ba.added buf.length - buf.length =
      leftAfter ba.baseSize ba.getCapacity 1 := by
  rw [hbuf] at h ⊢
  unfold leftAfter added
  by_cases hle : ba.baseSize ≤ ba.getCapacity
  · have hdiv : 1 ≤ ba.getCapacity / ba.baseSize := (Nat.one_le_div_iff hb).mpr hle
    simp [hle, hdiv]
  · have hlt : ba.getCapacity < ba.baseSize := by omega
    have hcount : nodeCount ba.baseSize ba.getCapacity (ba.baseSize - ba.getCapacity) = 1 := by
      rcases Nat.eq_zero_or_pos ba.getCapacity with hz | hpos
      · simp [nodeCount, hz, hb]
      · have hmod : (ba.baseSize - ba.getCapacity) % ba.baseSize =
          ba.baseSize - ba.getCapacity := Nat.mod_eq_of_lt (by omega)
        have hdiv : (ba.baseSize - ba.getCapacity) / ba.baseSize = 0 :=
          Nat.div_eq_of_lt (by omega)
        rw [Adequate, hmod] at h
        rw [nodeCount, hmod, hdiv, if_pos (by omega)]
    rw [if_neg hle, hcount, Nat.div_eq_of_lt hlt, Nat.mod_eq_of_lt hlt]
    simp

theorem leftAfter_one_div {baseSize cap : ℕ} (hb : 0 < baseSize) :
    leftAfter baseSize cap 1 / baseSize = cap / baseSize - 1 := by
  unfold leftAfter
  split_ifs with h
  · exact Nat.sub_mul_div _ _ _
  · rw [Nat.div_eq_of_lt (Nat.mod_lt _ hb)]
    omega

theorem leftAfter_one_mod (baseSize cap : ℕ) :
    leftAfter baseSize cap 1 % baseSize = cap % baseSize := by
  unfold leftAfter
  split_ifs with h
  · exact Nat.sub_mul_mod ((Nat.mul_le_mul_left _ h).trans (Nat.mul_div_le _ _))
  · exact Nat.mod_mod _ _

theorem leftAfter_succ {baseSize cap k : ℕ} (hb : 0 < baseSize) :
    leftAfter baseSize (leftAfter baseSize cap 1) k = leftAfter baseSize cap (k + 1) := by
  rw [leftAfter, leftAfter_one_div hb, leftAfter_one_mod, leftAfter, leftAfter, Nat.mul_add,
    Nat.mul_one]
  rcases Nat.eq_zero_or_pos k with rfl | hk
  · simp
  · split_ifs <;> omega

/-- A run of full chunks stays on the chain if they all fit, or if less than half a node is left
behind the last node boundary. -/
theorem full_chunks (bufs : List (List UInt8)) (wf : ba.Wf)
    (hfull : ∀ buf ∈ bufs, buf.length = ba.baseSize) :
    if ba.getCapacity / ba.baseSize < bufs.length →
        2 * (ba.getCapacity % ba.baseSize) < ba.baseSize then
      ∃ ba', bufs.forM write ba = .ok () ba' ∧ ba'.Wf ∧ ba'.baseSize = ba.baseSize ∧
        ba'.getCapacity = leftAfter ba.baseSize ba.getCapacity bufs.length
    else Faults (bufs.forM write) ba := by
  induction bufs generalizing ba with
  | nil =>
    rw [if_pos (by simp)]
    exact ⟨ba, rfl, wf, rfl, by simp [leftAfter]⟩
  | cons buf bufs ih =>
    have hbuf := hfull buf (by simp)
    have hb := wf.base_pos
    rw [List.length_cons, List.forM_eq_forM, List.forM_cons, ← List.forM_eq_forM]
    by_cases hfit : ba.Adequate buf.length
    · obtain ⟨t, hrun, wft, hbase, hleft⟩ := write_adequate wf hfit
      rw [left_full hbuf hb hfit] at hleft
      have hrest := ih wft fun b hmem => by rw [hbase]; exact hfull b (by simp [hmem])
      rw [hbase, hleft, leftAfter_succ hb, leftAfter_one_div hb, leftAfter_one_mod] at hrest
      rw [adequate_full_iff hbuf hb] at hfit
      rw [bind_ok hrun, faults_bind_iff hrun]
      split_ifs at hrest ⊢ with h h'
      · exact hrest
      · omega
      · omega
      · exact hrest
    · rw [if_neg (by rw [adequate_full_iff hbuf hb] at hfit; omega)]
      exact fault_bind ((faults_write_iff wf).mpr hfit)

theorem length_fileChunk (baseSize : ℕ) (file : List UInt8) (i : ℕ) :
    (fileChunk baseSize file i).length = min baseSize (file.length - baseSize * i) := by
  simp [fileChunk]

theorem length_fileChunk_full {baseSize i : ℕ} {file : List UInt8}
    (hi : i < file.length / baseSize) : (fileChunk baseSize file i).length = baseSize := by
  have hle : baseSize * (i + 1) ≤ file.length :=
    (Nat.mul_le_mul_left _ hi).trans (Nat.mul_div_le _ _)
  rw [Nat.mul_add, Nat.mul_one] at hle
  rw [length_fileChunk]
  omega

theorem length_fileChunk_last {baseSize : ℕ} (file : List UInt8) (hb : 0 < baseSize) :
    (fileChunk baseSize file (file.length / baseSize)).length = file.length % baseSize := by
  have hdiv := Nat.div_add_mod file.length baseSize
  have hmod := Nat.mod_lt file.length hb
  rw [length_fileChunk]
  omega

theorem fullChunks_length {baseSize : ℕ} {file buf : List UInt8}
    (hmem : buf ∈ (List.range (file.length / baseSize)).map (fileChunk baseSize file)) :
    buf.length = baseSize := by
  obtain ⟨i, hi, rfl⟩ := List.mem_map.mp hmem
  exact length_fileChunk_full (List.mem_range.mp hi)

/-- `readFromFile` writes the full chunks and then the rest. -/
theorem readFromFile_some (file : List UInt8) (ba : ByteArray) :
    readFromFile (some file) ba =
      ((((List.range (file.length / ba.baseSize)).map (fileChunk ba.baseSize file)).forM write >>=
        fun _ => write (fileChunk ba.baseSize file (file.length / ba.baseSize))) >>=
          fun _ => pure true) ba := by
  simp only [readFromFile, get_bind_apply, List.range_succ, List.forM_eq_forM, List.forM_append,
    List.forM_map, List.forM_cons, List.forM_nil, bind_pure_unit]

/-- A program followed by a pure result faults when the program does. -/
theorem faults_bind_pure_iff {α β : Type} {x : Op α} (f : α → β) :
    Faults (x >>= fun a => pure (f a)) ba ↔ Faults x ba := by
  refine ⟨?_, fault_bind⟩
  rintro ⟨t, ht⟩
  cases hx : x ba with
  | ok a u =>
    rw [bind_ok hx] at ht
    cases ht
  | error e u =>
    rw [bind_error hx] at ht
    injection ht with he hu
    exact ⟨u, hx.trans (by rw [he])⟩

/-- The capacity that the full chunks leave decides the last chunk. -/
theorem last_chunk_iff {b cap len : ℕ} (hb : 0 < b)
    (hfull : cap / b < len / b → 2 * (cap % b) < b) :
    (len % b ≤ leftAfter b cap (len / b) ∨
        (len % b - leftAfter b cap (len / b)) % b = 0 ∨
        leftAfter b cap (len / b) < (len % b - leftAfter b cap (len / b)) % b) ↔
      len ≤ cap ∨ (cap / b < len / b → 2 * (cap % b) < b) ∧
        (len % b ≤ cap % b ∨ 2 * (cap % b) < len % b) := by
  have hcap := Nat.div_add_mod cap b
  have hlen := Nat.div_add_mod len b
  have hrest := Nat.mod_lt len hb
  have hmod : (len % b - leftAfter b cap (len / b)) % b = len % b - leftAfter b cap (len / b) :=
    Nat.mod_eq_of_lt (by omega)
  rw [hmod]
  unfold leftAfter
  split_ifs with h
  · rcases h.lt_or_eq with hlt | heq
    · -- a node boundary is left: the whole file fits
      have hmul := Nat.mul_le_mul_left b (Nat.succ_le_of_lt hlt)
      rw [Nat.succ_eq_add_one, Nat.mul_add, Nat.mul_one] at hmul
      exact iff_of_true (.inl (by omega)) (.inl (by omega))
    · rw [heq] at hlen ⊢
      constructor <;> intro hm <;> omega
  · have hmul := Nat.mul_le_mul_left b (Nat.succ_le_of_lt (not_le.mp h))
    rw [Nat.succ_eq_add_one, Nat.mul_add, Nat.mul_one] at hmul
    have hcapMod := Nat.mod_lt cap hb
    constructor <;> intro hm <;> omega

theorem faults_readFromFile_iff (wf : ba.Wf) (file : List UInt8) :
    Faults (readFromFile (some file)) ba ↔ ¬ ba.FileAdequate file := by
  have hb := wf.base_pos
  have hlast := length_fileChunk_last file hb
  have hchunks := full_chunks ((List.range (file.length / ba.baseSize)).map
    (fileChunk ba.baseSize file)) wf fun _ => fullChunks_length
  rw [List.length_map, List.length_range] at hchunks
  rw [Faults, readFromFile_some, ← Faults, faults_bind_pure_iff]
  split_ifs at hchunks with hfull
  · obtain ⟨t, hrun, wft, hbase, hleft⟩ := hchunks
    rw [faults_bind_iff hrun, faults_write_iff wft, not_iff_not, Adequate, hlast, hbase, hleft]
    exact last_chunk_iff hb hfull
  · -- a full chunk already runs off the chain
    obtain ⟨hlt, -⟩ := Classical.not_imp.mp hfull
    have hmul := Nat.mul_le_mul_left ba.baseSize (Nat.succ_le_of_lt hlt)
    have hcap := Nat.lt_mul_div_succ ba.getCapacity hb
    have hlen := Nat.mul_div_le file.length ba.baseSize
    refine iff_of_true (fault_bind hchunks) ?_
    rintro (hle | hfit)
    · rw [Nat.succ_eq_add_one] at hmul
      omega
    · exact hfull hfit.1

/-! ## Every reachable state -/

/-- Nodes of one byte are always enough: there is no remainder. -/
theorem Adequate.of_baseSize_one (h : ba.baseSize = 1) (n : ℕ) : ba.Adequate n :=
  .inr (.inl (by rw [h, Nat.mod_one]))

/-- **Exactly when the chain has enough nodes**: in every reachable state, `addCapacity(n)` leaves
room for `n` bytes at a current node, and `write` and `getWriteBuffers` stay on the chain, exactly
if `Adequate` holds; `readFromFile` stays on the chain exactly if `FileAdequate` holds. -/
theorem enough_nodes_iff {byteOrder : Endian} {base_size : ℕ} (hb : 1 ≤ base_size)
    (h : Reachable byteOrder base_size ba) :
    (∀ n, 1 ≤ n →
      ((∃ t, addCapacity n ba = .ok () t ∧ n ≤ t.getCapacity ∧ t.cur ≠ none) ↔ ba.Adequate n) ∧
      (∀ buf, buf.length = n → (¬ Faults (write buf) ba ↔ ba.Adequate n)) ∧
      (¬ Faults (getWriteBuffers n) ba ↔ ba.Adequate n)) ∧
    ∀ file, ¬ Faults (readFromFile (some file)) ba ↔ ba.FileAdequate file := by
  have wf := h.wf hb
  refine ⟨fun n hn => ⟨room_iff wf hn, ?_, ?_⟩, fun file => ?_⟩
  · rintro buf rfl
    rw [faults_write_iff wf, not_not]
  · rw [faults_getWriteBuffers_iff wf hn, not_not]
  · rw [faults_readFromFile_iff wf, not_not]

/-- A new byte array is reachable. -/
theorem reachable_new (byteOrder : Endian) (base_size : ℕ) (heap : ℕ → UInt8) :
    Reachable byteOrder base_size (new base_size heap) := ⟨heap, .refl⟩

theorem enough_nodes_iff_new_two :
    ((∀ n, 1 ≤ n →
      ((∃ t, addCapacity n (new 2 fun _ => 0) = .ok () t ∧ n ≤ t.getCapacity ∧ t.cur ≠ none) ↔
        (new 2 fun _ => 0).Adequate n) ∧
      (∀ buf, buf.length = n →
        (¬ Faults (write buf) (new 2 fun _ => 0) ↔ (new 2 fun _ => 0).Adequate n)) ∧
      (¬ Faults (getWriteBuffers n) (new 2 fun _ => 0) ↔ (new 2 fun _ => 0).Adequate n)) ∧
    ∀ file, ¬ Faults (readFromFile (some file)) (new 2 fun _ => 0) ↔
      (new 2 fun _ => 0).FileAdequate file) :=
  enough_nodes_iff (by decide) (reachable_new .little 2 fun _ => 0)

/-- A node too few: in a new byte array of base size 2, `addCapacity(3)` leaves room for 2 bytes,
and `write` and `getWriteBuffers` of 3 bytes follow a null pointer. -/
theorem chain_runs_out :
    Reachable .little 2 (new 2 fun _ => 0) ∧
      (∃ t, addCapacity 3 (new 2 fun _ => 0) = .ok () t ∧ t.getCapacity = 2) ∧
      Faults (write [1, 2, 3]) (new 2 fun _ => 0) ∧
      Faults (getWriteBuffers 3) (new 2 fun _ => 0) :=
  ⟨⟨_, .refl⟩, ⟨_, rfl, rfl⟩, ⟨_, rfl⟩, ⟨_, rfl⟩⟩

end ByteArray

end Sylar

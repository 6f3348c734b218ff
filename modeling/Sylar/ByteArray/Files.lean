import Sylar.ByteArray.Decoding

/-!
# Files

`writeToFile` walks the chain from the current node on and writes, of each node, what it takes for
the rest of the node. It measures a chunk from the start of the node and not from the offset in it:
what is left, or a whole node if more is left, and of that the offset is taken off. A dump that
starts within a node and has less than a node to write falls short by the offset, and the next
chunk has a negative length.

## Main definitions

* `Chunk`: a range of a node that is written, with the signs the source computes
* `writeToFile`: the member
* `Covers`: chunks that lie in their nodes, one behind the other
* `DumpsAndLoads`: what is written is what is unread, and loads again

## Main results

* `Covers.load`: chunks that cover a stretch of the offsets are its bytes
* `load_file`: what `readFromFile` makes of a new byte array
* `file_round_trip_iff`: which byte arrays are dumped
-/

namespace Sylar

open Foundation

namespace ByteArray

variable {byteOrder : Endian} {ba ba' : ByteArray} {ns : List Node} {bufs : List (List UInt8)}
  {file : List UInt8} {p q : ℤ}

/-! ## Writing a file -/

/-- What one `ofs.write(cur->ptr + off, len)` writes of the node `node`. -/
structure Chunk where
  node : ℕ
  off : ℤ
  len : ℤ
  deriving DecidableEq, Repr

/-- The loop of `writeToFile` from the node `idx` on, or nothing when it follows a null pointer.
`diff` is an `int`; the other numbers are 64-bit ones that do not wrap. -/
def fileLoop (baseSize : ℕ) : List Node → ℕ → ℤ → ℤ → Option (List Chunk)
  | [], _, _, read_size => if 0 < read_size then none else some []
  | _ :: ns, idx, pos, read_size =>
    if 0 < read_size then
      -- `diff` is an `int`
      let diff := (pos % baseSize).bmod (2 ^ 32)
      -- the offset is taken off, also where all that is left would fit
      let len := (if (baseSize : ℤ) < read_size then (baseSize : ℤ) else read_size) - diff
      (fileLoop baseSize ns (idx + 1) (pos + len) (read_size - len)).map (⟨idx, diff, len⟩ :: ·)
    else
      some []

/-- `writeToFile`: the result, and what is written; `opens` is whether the file could be opened. -/
def writeToFile (opens : Bool) : Op (Bool × List Chunk) := do
  if ¬ opens then
    return (false, [])
  let ba ← get
  match fileLoop ba.baseSize (ba.chain ba.cur) (ba.cur.getD 0) ba.position ba.getReadSize with
  | none => throw .nullNode
  | some chunks => return (true, chunks)

/-- The bytes of a chunk that lies in its node. -/
def Chunk.load (ba : ByteArray) (c : Chunk) : List UInt8 :=
  Iovec.load ba ⟨c.node, c.off.toNat, c.len.toNat⟩

/-- The chunks are not empty, lie in nodes of the chain, and lie one behind the other on the offsets
from `p` to `q`. -/
def Covers (ba : ByteArray) : ℤ → List Chunk → ℤ → Prop
  | p, [], q => p = q
  | p, c :: chunks, q =>
    0 < c.len ∧ 0 ≤ c.off ∧ c.off + c.len ≤ ba.baseSize ∧ c.node < ba.root.length ∧
      ba.baseSize * c.node + c.off = p ∧ Covers ba (p + c.len) chunks q

theorem Covers.cons {idx : ℕ} {off len : ℤ} {chunks : List Chunk} (hlen : 0 < len) (hoff : 0 ≤ off)
    (hin : off + len ≤ ba.baseSize) (hnode : idx < ba.root.length)
    (hp : ba.baseSize * idx + off = p) (h : Covers ba (p + len) chunks q) :
    Covers ba p (⟨idx, off, len⟩ :: chunks) q :=
  ⟨hlen, hoff, hin, hnode, hp, h⟩

theorem load_eq_stored (wf : ba.Wf) {v : Iovec} (hnode : v.node < ba.root.length)
    (hin : v.off + v.len ≤ ba.baseSize) :
    v.load ba = ba.stored (ba.baseSize * v.node + v.off) v.len := by
  have hget := List.getElem?_eq_getElem hnode
  have hsize : (ba.root[v.node]).ptr.length = ba.baseSize :=
    wf.uniform _ (List.getElem_mem hnode)
  rw [Iovec.load, hget, stored, ← List.drop_drop, bytes, wf.uniform.drop,
    List.drop_eq_getElem_cons hnode, List.flatMap_cons, List.drop_append_of_le_length (by omega),
    List.take_append_of_le_length (by rw [List.length_drop]; omega)]
  rfl

theorem stored_append (ba : ByteArray) (p m n : ℕ) :
    ba.stored p m ++ ba.stored (p + m) n = ba.stored p (m + n) := by
  rw [stored, stored, stored, ← List.drop_drop, ← List.take_add]

theorem Covers.le {chunks : List Chunk} (h : Covers ba p chunks q) : p ≤ q := by
  induction chunks generalizing p with
  | nil => exact h.le
  | cons c chunks ih =>
    obtain ⟨hlen, -, -, -, -, hrest⟩ := h
    have hle := ih hrest
    omega

/-- **Chunks that cover a stretch** of the offsets are its bytes. -/
theorem Covers.load {chunks : List Chunk} (wf : ba.Wf) (hp : 0 ≤ p) (h : Covers ba p chunks q) :
    chunks.flatMap (Chunk.load ba) = ba.stored p.toNat (q - p).toNat := by
  induction chunks generalizing p with
  | nil =>
    rw [List.flatMap_nil, show q - p = 0 by rw [h.symm]; omega]
    exact List.take_zero.symm
  | cons c chunks ih =>
    obtain ⟨hlen, hoff, hin, hnode, hstart, hrest⟩ := h
    have hle := hrest.le
    have hc := load_eq_stored wf (v := ⟨c.node, c.off.toNat, c.len.toNat⟩) hnode (by
      simp only
      omega)
    have hoffset : ba.baseSize * c.node + c.off.toNat = p.toNat := by
      have hcast : ((ba.baseSize * c.node : ℕ) : ℤ) = ba.baseSize * c.node := Nat.cast_mul _ _
      omega
    have hnext : (p + c.len).toNat = p.toNat + c.len.toNat := by omega
    have hlast : c.len.toNat + (q - (p + c.len)).toNat = (q - p).toNat := by omega
    rw [List.flatMap_cons, Chunk.load, hc, ih (by omega) hrest]
    simp only
    rw [hoffset, hnext, stored_append, hlast]

/-! ## The loop -/

section Loop

variable {b idx : ℕ} {n : Node} {R : ℤ} {chunks : List Chunk}

@[simp] theorem fileLoop_zero (b : ℕ) (ns : List Node) (idx : ℕ) (pos : ℤ) :
    fileLoop b ns idx pos 0 = some [] := by
  cases ns <;> rfl

/-- One turn, with the offset in the node as the source has it. -/
theorem fileLoop_cons (hR : 0 < R) {off : ℤ} (hoff : (p % b).bmod (2 ^ 32) = off) :
    fileLoop b (n :: ns) idx p R =
      (fileLoop b ns (idx + 1) (p + (min R b - off)) (R - (min R b - off))).map
        (⟨idx, off, min R b - off⟩ :: ·) := by
  have hmin : (if (b : ℤ) < R then (b : ℤ) else R) = min R b := by
    split_ifs <;> omega
  simp only [fileLoop, if_pos hR, hoff, hmin]

theorem bmod_eq_self_iff {d : ℤ} (hd : 0 ≤ d) : d.bmod (2 ^ 32) = d ↔ d < 2 ^ 31 := by
  constructor
  · intro h
    have hlt := Int.bmod_lt (x := d) (m := 2 ^ 32) (by decide)
    omega
  · intro h
    apply Int.bmod_eq_of_le <;> omega

/-- From the start of a node on. -/
theorem fileLoop_aligned (hb : 0 < b) (hbase : ba.baseSize = b)
    (hroot : ba.root.length = idx + ns.length) (hR : 0 ≤ R) (hle : R ≤ b * ns.length) :
    ∃ chunks, fileLoop b ns idx (b * idx : ℤ) R = some chunks ∧
      Covers ba (b * idx) chunks (b * idx + R) := by
  induction ns generalizing idx R with
  | nil =>
    obtain rfl : R = 0 := by
      rw [List.length_nil] at hle
      omega
    exact ⟨[], fileLoop_zero .., (add_zero _).symm⟩
  | cons n ns ih =>
    rw [List.length_cons] at hroot hle
    rcases hR.eq_or_lt with rfl | hpos
    · exact ⟨[], fileLoop_zero .., (add_zero _).symm⟩
    · have hoff : ((b * idx : ℤ) % b).bmod (2 ^ 32) = 0 := by
        rw [Int.mul_emod_right]
        rfl
      rw [fileLoop_cons hpos hoff, sub_zero]
      have hnext : (b * idx + b : ℤ) = b * (idx + 1 : ℕ) := by
        rw [Nat.cast_succ, mul_add, mul_one]
      have hrest : (b * (ns.length + 1 : ℕ) : ℤ) = b * ns.length + b := by
        rw [Nat.cast_succ, mul_add, mul_one]
      rcases le_or_gt R b with hfit | hmore
      · -- the stretch ends in this node
        rw [min_eq_left hfit, sub_self, fileLoop_zero]
        exact ⟨_, rfl, .cons hpos le_rfl (by omega) (by omega) (by rw [hbase, add_zero]) rfl⟩
      · rw [min_eq_right hmore.le, hnext]
        obtain ⟨chunks, hrun, hcovers⟩ := @ih (idx + 1) (R - b) (by omega) (by omega) (by omega)
        rw [hrun]
        refine ⟨_, rfl, .cons (by omega) le_rfl (by omega) (by omega) (by rw [hbase, add_zero]) ?_⟩
        rw [hnext, show (b * idx + R : ℤ) = b * (idx + 1 : ℕ) + (R - b) by rw [← hnext]; ring]
        exact hcovers

/-- **The loop covers the stretch** from `off` in the node on exactly if the offset is 0, or an
`int` and a whole node's length is left. -/
theorem fileLoop_covers_iff (hb : 0 < b) (hbase : ba.baseSize = b)
    (hroot : ba.root.length = idx + (ns.length + 1)) {off : ℤ} (hoff : 0 ≤ off) (hlt : off < b)
    (hR : 0 < R) (hle : off + R ≤ b * (ns.length + 1 : ℕ)) :
    (∃ chunks, fileLoop b (n :: ns) idx (b * idx + off : ℤ) R = some chunks ∧
      Covers ba (b * idx + off) chunks (b * idx + off + R)) ↔
      off = 0 ∨ b ≤ R ∧ off < 2 ^ 31 := by
  have hmod : (b * idx + off : ℤ) % b = off := by
    rw [Int.mul_add_emod_self_left]
    exact Int.emod_eq_of_lt hoff hlt
  have hnext : (b * idx + b : ℤ) = b * (idx + 1 : ℕ) := by
    rw [Nat.cast_succ, mul_add, mul_one]
  have hrest : (b * (ns.length + 1 : ℕ) : ℤ) = b * ns.length + b := by
    rw [Nat.cast_succ, mul_add, mul_one]
  constructor
  · rintro ⟨chunks, hrun, hcovers⟩
    generalize hdiff : off.bmod (2 ^ 32) = diff
    rw [fileLoop_cons hR ((congrArg (Int.bmod · _) hmod).trans hdiff)] at hrun
    obtain ⟨rest, hturn, rfl⟩ := Option.map_eq_some_iff.mp hrun
    obtain ⟨hlen, -, -, -, hstart, hrest'⟩ := hcovers
    simp only [hbase] at hlen hstart hrest'
    obtain rfl : diff = off := by omega
    rw [bmod_eq_self_iff hoff] at hdiff
    by_contra hbad
    have hshort : R < b := by omega
    have hpos : 0 < diff := by omega
    rw [min_eq_left hshort.le] at hlen hturn hrest'
    -- what the first chunk falls short by is left for the next node, in front of its start
    cases ns with
    | nil =>
      rw [fileLoop, if_pos (by omega)] at hturn
      cases hturn
    | cons m ns =>
      rw [fileLoop_cons (by omega) rfl] at hturn
      obtain ⟨rest', -, rfl⟩ := Option.map_eq_some_iff.mp hturn
      obtain ⟨-, hoff', -, -, hstart', -⟩ := hrest'
      simp only [hbase, ← hnext] at hoff' hstart'
      omega
  · intro hcond
    rcases hcond with rfl | ⟨hnode, hint⟩
    · rw [add_zero]
      exact fileLoop_aligned hb hbase hroot hR.le (by rw [List.length_cons]; omega)
    · have hoffset := (congrArg (Int.bmod · (2 ^ 32)) hmod).trans ((bmod_eq_self_iff hoff).mpr hint)
      rw [fileLoop_cons hR hoffset, min_eq_right hnode]
      obtain ⟨chunks, hrun, hcovers⟩ :
          ∃ chunks, fileLoop b ns (idx + 1) (b * (idx + 1 : ℕ) : ℤ) (R - (b - off)) =
            some chunks ∧ _ :=
        fileLoop_aligned hb hbase (by omega) (by omega) (by omega)
      have hpos : (b * idx + off + (b - off) : ℤ) = b * (idx + 1 : ℕ) := by
        rw [← hnext]
        ring
      rw [hpos, hrun]
      refine ⟨_, rfl, .cons (by omega) hoff (by omega) (by omega) (by rw [hbase]) ?_⟩
      rw [hpos, show (b * idx + off + R : ℤ) = b * (idx + 1 : ℕ) + (R - (b - off)) by
        rw [← hnext]; ring]
      exact hcovers

end Loop

/-! ## Loading a file -/

/-- A sequence of writes writes one after the other. -/
theorem writes_ok (bufs : List (List UInt8)) (wf : ba.Wf) (h : bufs.forM write ba = .ok () ba') :
    ba'.Wf ∧ Wrote ba ba' bufs.flatten := by
  induction bufs generalizing ba with
  | nil =>
    obtain rfl : ba = ba' := by simpa using h
    exact ⟨wf, .refl wf⟩
  | cons buf bufs ih =>
    rw [List.forM_eq_forM, List.forM_cons] at h
    cases hbuf : write buf ba with
    | ok u t =>
      rw [bind_ok hbuf] at h
      obtain ⟨wft, hw⟩ := write_ok wf hbuf
      obtain ⟨wf', hws⟩ := ih wft h
      exact ⟨wf', hw.trans hws⟩
    | error e t =>
      rw [bind_error hbuf] at h
      cases h

/-- The first chunks of a file are its front. -/
theorem flatten_fileChunks (baseSize : ℕ) (file : List UInt8) (k : ℕ) :
    ((List.range k).map (fileChunk baseSize file)).flatten = file.take (baseSize * k) := by
  induction k with
  | zero => simp
  | succ k ih =>
    rw [List.range_succ, List.map_append, List.flatten_append, ih, List.map_singleton,
      List.flatten_singleton, fileChunk, ← List.take_add, Nat.mul_succ]

/-- **Loading into a new byte array** writes the file: the nodes are full or empty between the
chunks, so the chain never runs out. -/
theorem load_file {base_size : ℕ} (hb : 1 ≤ base_size) (heap : ℕ → UInt8) (file : List UInt8) :
    ∃ ba, readFromFile (some file) (new base_size heap) = .ok true ba ∧ ba.Wf ∧
      Wrote (new base_size heap) ba file := by
  have wf := Wf.new base_size hb heap
  have hdiv := Nat.div_add_mod file.length base_size
  have hcap : (new base_size heap).getCapacity = base_size := Nat.sub_zero _
  set k := file.length / base_size with hk
  have hfull := full_chunks ((List.range k).map (fileChunk base_size file)) wf
    fun buf hbuf => fullChunks_length hbuf
  have hbase : (new base_size heap).baseSize = base_size := rfl
  rw [hcap, hbase, Nat.mod_self, if_pos fun _ => by omega, List.length_map, List.length_range]
    at hfull
  obtain ⟨ba₁, hchunks, wf₁, hbase₁, hleft⟩ := hfull
  obtain ⟨-, hw₁⟩ := writes_ok _ wf hchunks
  rw [flatten_fileChunks] at hw₁
  -- the last chunk, behind full nodes
  have hlast := length_fileChunk_last file (Nat.lt_of_lt_of_le Nat.zero_lt_one hb)
  have hmod := Nat.mod_lt file.length (Nat.lt_of_lt_of_le Nat.zero_lt_one hb)
  have hadequate : ba₁.Adequate (fileChunk base_size file k).length := by
    rw [Adequate, hleft, hbase₁, hk, hlast, ← hk, leftAfter, Nat.div_self hb, Nat.mod_self]
    split_ifs with hle
    · rcases Nat.le_one_iff_eq_zero_or_eq_one.mp hle with hz | hone
      · rw [hz]
        omega
      · rw [hone, Nat.mul_one, Nat.sub_self, Nat.sub_zero, Nat.mod_mod]
        omega
    · rw [Nat.sub_zero, Nat.mod_mod]
      omega
  obtain ⟨ba, hwrite, wf', -⟩ := write_adequate wf₁ hadequate
  obtain ⟨-, hw⟩ := write_ok wf₁ hwrite
  refine ⟨ba, ?_, wf', ?_⟩
  · rw [readFromFile_some, hbase, ← hk, bind_ok ((bind_ok hchunks).trans hwrite)]
    rfl
  · have hfile : file.take (base_size * k) ++ fileChunk base_size file k = file := by
      rw [fileChunk, ← List.take_add, List.take_of_length_le]
      omega
    rw [← hfile]
    exact hw₁.trans hw

theorem toString_unread (wf : ba.Wf) : toString ba = .ok ba.unread ba := toString_eq wf

/-! ## Dump and load -/

/-- **What is written is what is unread**, in chunks that are not empty and lie in their nodes, and
it loads into a new byte array of the given base size. -/
def DumpsAndLoads (ba : ByteArray) (base_size : ℕ) : Prop :=
  ∃ chunks s, writeToFile true ba = .ok (true, chunks) ba ∧
    Covers ba ba.position chunks ba.size ∧ toString ba = .ok s ba ∧
    chunks.flatMap (Chunk.load ba) = s ∧
    ∀ heap, ∃ ba₁ ba₂, readFromFile (some s) (new base_size heap) = .ok true ba₁ ∧
      setPosition 0 ba₁ = .ok () ba₂ ∧ toString ba₂ = .ok s ba₂

/-- The dump starts with a node, is empty, or fills at least a node and starts at an `int` offset in
its first one. -/
def Dumpable (ba : ByteArray) : Prop :=
  ba.position % ba.baseSize = 0 ∨ ba.getReadSize = 0 ∨
    ba.baseSize ≤ ba.getReadSize ∧ ba.position % ba.baseSize < 2 ^ 31

instance (ba : ByteArray) : Decidable ba.Dumpable := by
  unfold Dumpable
  infer_instance

theorem writeToFile_covers_iff (wf : ba.Wf) :
    (∃ chunks, writeToFile true ba = .ok (true, chunks) ba ∧
      Covers ba ba.position chunks ba.size) ↔ Dumpable ba := by
  have hpos := wf.position_le
  have hsize := wf.size_le
  have hdiv := Nat.div_add_mod ba.position ba.baseSize
  have hmod := Nat.mod_lt ba.position wf.base_pos
  have hrun : ∀ chunks, writeToFile true ba = .ok (true, chunks) ba ↔
      fileLoop ba.baseSize (ba.chain ba.cur) (ba.cur.getD 0) ba.position ba.getReadSize =
        some chunks := by
    intro chunks
    simp only [writeToFile, not_true_eq_false, if_false, get_bind_apply]
    cases fileLoop ba.baseSize (ba.chain ba.cur) (ba.cur.getD 0) ba.position ba.getReadSize with
    | none => simp
    | some rest => simp
  simp only [hrun]
  rcases Nat.eq_zero_or_pos ba.getReadSize with hzero | hread
  · refine iff_of_true ⟨[], ?_, ?_⟩ (.inr (.inl hzero))
    · rw [hzero]
      exact fileLoop_zero ..
    · rw [getReadSize] at hzero
      exact congrArg Nat.cast (show ba.position = ba.size by omega)
  · have hlt : ba.position < ba.capacity := by
      rw [getReadSize] at hread
      omega
    have hidx : ba.position / ba.baseSize < ba.root.length := by
      rw [Nat.div_lt_iff_lt_mul wf.base_pos, Nat.mul_comm, ← wf.capacity_eq]
      exact hlt
    have hcons := List.drop_eq_getElem_cons hidx
    have hlen := congrArg List.length hcons
    rw [List.length_drop, List.length_cons] at hlen
    have hcap : ba.baseSize * (ba.position / ba.baseSize) + ba.baseSize *
        ((ba.root.drop (ba.position / ba.baseSize + 1)).length + 1) = ba.capacity := by
      rw [← Nat.mul_add, wf.capacity_eq]
      congr 1
      omega
    have hcast : ((ba.position : ℕ) : ℤ) =
        ba.baseSize * (ba.position / ba.baseSize : ℕ) + (ba.position % ba.baseSize : ℕ) := by
      rw [← Nat.cast_mul, ← Nat.cast_add, hdiv]
    have hend : (ba.size : ℤ) = ba.position + ba.getReadSize := by
      rw [getReadSize]
      omega
    have hloop := @fileLoop_covers_iff ba (ba.root.drop (ba.position / ba.baseSize + 1))
      ba.baseSize (ba.position / ba.baseSize) (ba.root[ba.position / ba.baseSize])
      ba.getReadSize wf.base_pos rfl (by omega) (ba.position % ba.baseSize : ℕ)
      (Int.natCast_nonneg _) (by omega) (by omega) (by
        rw [getReadSize] at hread ⊢
        rw [← Nat.cast_mul]
        omega)
    rw [← hcast, ← hend, ← hcons] at hloop
    rw [wf.chain_cur, wf.cur_of_lt hlt, Option.getD_some, hloop, Dumpable]
    have hne : ¬ ba.getReadSize = 0 := by omega
    simp only [hne, false_or, Nat.cast_eq_zero, Nat.cast_le]
    norm_cast

/-- **Dump and load**: in every reachable state, at any position, and for every base size of the
byte array that is loaded, exactly the `Dumpable` byte arrays are written as they are. -/
theorem file_round_trip_iff {base_size base_size' : ℕ} (hb : 1 ≤ base_size) (hb' : 1 ≤ base_size')
    (h : Reachable byteOrder base_size ba) : DumpsAndLoads ba base_size' ↔ Dumpable ba := by
  have wf := h.wf hb
  rw [← writeToFile_covers_iff wf]
  constructor
  · rintro ⟨chunks, s, hwrite, hcovers, -⟩
    exact ⟨chunks, hwrite, hcovers⟩
  · rintro ⟨chunks, hwrite, hcovers⟩
    refine ⟨chunks, ba.unread, hwrite, hcovers, toString_unread wf, ?_, fun heap => ?_⟩
    · have hlen : ((ba.size : ℤ) - ba.position).toNat = ba.getReadSize := by
        rw [getReadSize]
        omega
      rw [hcovers.load wf (Int.natCast_nonneg _), hlen, Int.toNat_natCast]
      rfl
    · obtain ⟨ba₁, hload, wf₁, hw⟩ := load_file hb' heap ba.unread
      have hmoved : (ba₁.moveTo 0).Wf := wf₁.moveTo (Nat.zero_le _)
      refine ⟨ba₁, ba₁.moveTo 0, hload, hw.setPosition (Wf.new base_size' hb' heap) wf₁, ?_⟩
      rw [toString_unread hmoved, hw.unread_back]

/-- Three bytes in nodes of two, from the second one on. -/
theorem file_round_trip_iff_two : ∃ ba : ByteArray, ba.position = 1 ∧ ba.unread = [8, 9] ∧
    (DumpsAndLoads ba 3 ↔ Dumpable ba) := by
  have hreach : (machine .little).Reaches (new 2 fun _ => 0) _ :=
    .snoc (.setPosition 1)
      (.snoc (.write [9]) (.snoc (.write [7, 8]) .refl trivial rfl) trivial rfl) trivial rfl
  exact ⟨_, rfl, rfl, file_round_trip_iff (by decide) (by decide)
    (⟨_, hreach⟩ : Reachable .little 2 _)⟩

/-- Three bytes in a node of four, from the second one on: of the two that are left one is written,
and the other is looked for behind the last node. -/
theorem short_dump : ∃ ba, Reachable .little 4 ba ∧ ba.unread = [8, 9] ∧
    Faults (writeToFile true) ba ∧ ¬ DumpsAndLoads ba 4 := by
  have hreach : (machine .little).Reaches (new 4 fun _ => 0) _ :=
    .snoc (.setPosition 1) (.snoc (.write [7, 8, 9]) .refl trivial rfl) trivial rfl
  have hreachable : Reachable .little 4 _ := ⟨_, hreach⟩
  refine ⟨_, hreachable, rfl, ⟨_, rfl⟩, fun hdump => ?_⟩
  obtain ⟨chunks, s, hwrite, hcovers, -⟩ := hdump
  exact absurd ((writeToFile_covers_iff (hreachable.wf (by decide))).mp ⟨chunks, hwrite, hcovers⟩)
    (by decide)

end ByteArray

end Sylar

import Sylar.ByteArray.Typed

/-!
# Typed values read back

A typed value has a wire form that depends on `m_endian` only, not on the machine's byte order.
A member that writes a value writes its wire form; a member that reads one consumes a wire form of
its type and yields the value. The wire forms are self-delimiting, so a sequence of mixed values
reads back as a sequence.

## Main definitions

* `wire endian v`: the bytes of a value
* `Ahead ba d`: the bytes `d` are the next ones to read

## Main results

* `varintLoop_isSome`: five bytes hold 32 bits, and ten bytes hold 64
* `writeValue_eq`, `readValue_spec`: one value
* `values_round_trip`: a sequence of values, from any reachable state
-/

namespace Sylar

open Foundation

theorem Endian.length_store (e : Endian) (k v : ℕ) : (e.store k v).length = k := by
  cases e <;> simp [Endian.store]

theorem Endian.load_store (e : Endian) {k v : ℕ} (h : v < 256 ^ k) : e.load (e.store k v) = v := by
  cases e <;> simp [Endian.store, Endian.load, ofLeBytes_leBytes h]

/-- Swapping before storing stores in the other byte order. -/
theorem Endian.store_swapBytes {e e' : Endian} (h : e ≠ e') (k v : ℕ) :
    e'.store k (swapBytes k v) = e.store k v := by
  cases e <;> cases e' <;> simp_all [Endian.store, leBytes_swapBytes]

theorem Endian.swapBytes_load {e e' : Endian} (h : e ≠ e') {k v : ℕ} (hv : v < 256 ^ k) :
    swapBytes k (e'.load (e.store k v)) = v := by
  rw [← Endian.store_swapBytes h, Endian.load_store e' (swapBytes_lt k v), swapBytes_swapBytes hv]

namespace ByteArray

variable {byteOrder : Endian} {ba ba' : ByteArray} {d rest buf : List UInt8}

/-! ## Variable-length encoders -/

section Varint

variable {w : ℕ}

/-- The encoder stays inside a temporary of `room` bytes when `7 * room` bits hold the number. -/
theorem varintLoop_isSome {room : ℕ} (hroom : 0 < room) {value : BitVec w}
    (h : value.toNat < 2 ^ (7 * room)) : (varintLoop room value).isSome := by
  induction room generalizing value with
  | zero => omega
  | succ room ih =>
    rw [varintLoop]
    split_ifs with hmore
    · have hsmall : (value >>> 7).toNat < 2 ^ (7 * room) := by
        rw [BitVec.toNat_ushiftRight, Nat.shiftRight_eq_div_pow, Nat.div_lt_iff_lt_mul (by decide),
          ← pow_add]
        exact h
      have hpos : 0 < room := by
        by_contra hz
        obtain rfl : room = 0 := by omega
        norm_num at h
        omega
      rw [Option.isSome_map]
      exact ih hpos hsmall
    · rfl

theorem varint32_isSome (value : UInt32) : (varintLoop 5 value.toBitVec).isSome :=
  varintLoop_isSome (by decide) (value.toNat_lt.trans (by decide))

theorem varint64_isSome (value : UInt64) : (varintLoop 10 value.toBitVec).isSome :=
  varintLoop_isSome (by decide) (value.toNat_lt.trans (by decide))

theorem writeVarint_eq {room : ℕ} {value : BitVec w} (h : (varintLoop room value).isSome) :
    writeVarint room value = write ((varintLoop room value).getD []) := by
  obtain ⟨tmp, htmp⟩ := Option.isSome_iff_exists.mp h
  rw [writeVarint, htmp]
  rfl

end Varint

/-! ## Zigzag -/

theorem toBitVec_encodeZigzag32 (v : Int32) : (encodeZigzag32 v).toBitVec = zigzag v.toBitVec := by
  unfold encodeZigzag32 zigzag
  by_cases h : v < 0
  · have hslt : v.toBitVec.slt 0#32 = true := h
    rw [if_pos h, if_pos hslt]
    simp
  · have hslt : ¬ v.toBitVec.slt 0#32 = true := h
    rw [if_neg h, if_neg hslt]
    simp

theorem toBitVec_encodeZigzag64 (v : Int64) : (encodeZigzag64 v).toBitVec = zigzag v.toBitVec := by
  unfold encodeZigzag64 zigzag
  by_cases h : v < 0
  · have hslt : v.toBitVec.slt 0#64 = true := h
    rw [if_pos h, if_pos hslt]
    simp
  · have hslt : ¬ v.toBitVec.slt 0#64 = true := h
    rw [if_neg h, if_neg hslt]
    simp

/-! ## The wire form -/

/-- The bytes of a value. -/
def wire (endian : Endian) : Value → List UInt8
  | .fint8 v => [v.toUInt8]
  | .fuint8 v => [v]
  | .fint16 v => endian.store 2 v.toUInt16.toNat
  | .fuint16 v => endian.store 2 v.toNat
  | .fint32 v => endian.store 4 v.toUInt32.toNat
  | .fuint32 v | .float v => endian.store 4 v.toNat
  | .fint64 v => endian.store 8 v.toUInt64.toNat
  | .fuint64 v | .double v => endian.store 8 v.toNat
  | .int32 v => (varintLoop 5 (encodeZigzag32 v).toBitVec).getD []
  | .uint32 v => (varintLoop 5 v.toBitVec).getD []
  | .int64 v => (varintLoop 10 (encodeZigzag64 v).toBitVec).getD []
  | .uint64 v => (varintLoop 10 v.toBitVec).getD []

theorem writeFixed_eq (k v : ℕ) (ba : ByteArray) :
    writeFixed byteOrder k v ba = write (ba.endian.store k v) ba := by
  simp only [writeFixed, get_bind_apply]
  split_ifs with h
  · rw [Endian.store_swapBytes h]
  · rw [not_not.mp h]

/-- **A member that writes a value writes its wire form.** -/
theorem writeValue_eq (v : Value) (ba : ByteArray) :
    writeValue byteOrder v ba = write (wire ba.endian v) ba := by
  cases v with
  | fint8 | fuint8 => rfl
  | fint16 | fuint16 | fint32 | fuint32 | fint64 | fuint64 | float | double =>
    exact writeFixed_eq _ _ ba
  | int32 v => exact congrFun (writeVarint_eq (varint32_isSome (encodeZigzag32 v))) ba
  | uint32 v => exact congrFun (writeVarint_eq (varint32_isSome v)) ba
  | int64 v => exact congrFun (writeVarint_eq (varint64_isSome (encodeZigzag64 v))) ba
  | uint64 v => exact congrFun (writeVarint_eq (varint64_isSome v)) ba

/-! ## Writing a sequence -/

theorem write_ok (wf : ba.Wf) (h : write buf ba = .ok () ba') : ba'.Wf ∧ Wrote ba ba' buf := by
  by_cases hfit : ba.Fits buf.length
  · obtain ⟨t, ht, wf', hw⟩ := write_spec wf hfit
    obtain rfl : t = ba' := by simpa [ht] using h
    exact ⟨wf', hw⟩
  · obtain ⟨t, ht⟩ := write_fault wf hfit
    simp [ht] at h

theorem Wrote.refl (wf : ba.Wf) : Wrote ba ba [] :=
  (write_ok wf (write_nil ba)).2

/-- Two consecutive writes are one write of both. -/
theorem Wrote.trans {ba₁ ba₂ : ByteArray} (h₁ : Wrote ba ba₁ d)
    (h₂ : Wrote ba₁ ba₂ buf) : Wrote ba ba₂ (d ++ buf) where
  baseSize := h₂.baseSize.trans h₁.baseSize
  endian := h₂.endian.trans h₁.endian
  position := by rw [h₂.position, h₁.position, List.length_append, Nat.add_assoc]
  size := by
    rw [h₂.size, h₁.size, h₁.position, List.length_append]
    omega
  capacity := h₁.capacity.trans h₂.capacity
  bytes := by
    obtain ⟨t₁, hfit₁, ht₁⟩ := h₁.bytes
    obtain ⟨t₂, hfit₂, ht₂⟩ := h₂.bytes
    have hfit : ba.position + d.length ≤ (ba.bytes ++ t₁ ++ t₂).length := by
      rw [List.length_append]
      omega
    refine ⟨t₁ ++ t₂, ?_, ?_⟩
    · rw [ht₁, h₁.position, List.length_append, length_splice hfit₁] at hfit₂
      rw [List.length_append, ← List.append_assoc, List.length_append]
      omega
    · rw [ht₂, ht₁, h₁.position, ← splice_append_left hfit₁, splice_splice hfit,
        List.append_assoc]

theorem writeValues_ok (vs : List Value) (wf : ba.Wf)
    (h : vs.forM (writeValue byteOrder) ba = .ok () ba') :
    ba'.Wf ∧ Wrote ba ba' (vs.flatMap (wire ba.endian)) := by
  induction vs generalizing ba with
  | nil =>
    obtain rfl : ba = ba' := by simpa using h
    exact ⟨wf, .refl wf⟩
  | cons v vs ih =>
    rw [List.forM_eq_forM, List.forM_cons] at h
    cases hv : writeValue byteOrder v ba with
    | ok u t =>
      rw [bind_ok hv] at h
      rw [writeValue_eq] at hv
      obtain ⟨wft, hw⟩ := write_ok wf hv
      obtain ⟨wf', hws⟩ := ih wft h
      rw [hw.endian] at hws
      exact ⟨wf', hw.trans hws⟩
    | error e t =>
      rw [bind_error hv] at h
      cases h

/-! ## Reading a sequence -/

/-- The bytes `d` are the next ones to read. -/
structure Ahead (ba : ByteArray) (d : List UInt8) : Prop where
  le_size : ba.position + d.length ≤ ba.size
  bytes : (ba.bytes.drop ba.position).take d.length = d

/-- The state after the next `d` is consumed. -/
def past (ba : ByteArray) (d : List UInt8) : ByteArray := ba.moveTo (ba.position + d.length)

@[simp] theorem endian_past : (ba.past d).endian = ba.endian := rfl

theorem past_append : (ba.past d).past rest = ba.past (d ++ rest) := by
  simp [past, Nat.add_assoc]

theorem Ahead.wf (h : Ahead ba (d ++ rest)) (wf : ba.Wf) : (ba.past d).Wf := by
  have hle := h.le_size
  rw [List.length_append] at hle
  exact wf.moveTo (by omega)

theorem Ahead.tail (h : Ahead ba (d ++ rest)) : Ahead (ba.past d) rest where
  le_size := by
    have hle := h.le_size
    rw [List.length_append] at hle
    simp only [past, position_moveTo, size_moveTo]
    omega
  bytes := by
    have hd := congrArg (List.drop d.length) h.bytes
    rw [List.length_append, List.drop_left, ← List.take_drop, List.drop_drop] at hd
    exact hd

theorem read_ahead (wf : ba.Wf) (h : Ahead ba (d ++ rest)) (hd : 0 < d.length) :
    read d.length ba = .ok d (ba.past d) := by
  have hle := h.le_size
  rw [List.length_append] at hle
  have hsize := wf.size_le
  rw [read_spec wf (by unfold getReadSize; omega) (by omega)]
  have ht := congrArg (List.take d.length) h.bytes
  rw [List.length_append, List.take_take, min_eq_left (by omega), List.take_left] at ht
  rw [ht]
  rfl

theorem readFixed_ahead (byteOrder : Endian) (wf : ba.Wf) {k v : ℕ} (hk : 0 < k) (hv : v < 256 ^ k)
    (h : Ahead ba (ba.endian.store k v ++ rest)) :
    readFixed byteOrder k ba = .ok v (ba.past (ba.endian.store k v)) := by
  have hlen := ba.endian.length_store k v
  have hread := read_ahead wf h (by omega)
  rw [hlen] at hread
  have hval : (if ba.endian = byteOrder then byteOrder.load (ba.endian.store k v)
      else swapBytes k (byteOrder.load (ba.endian.store k v))) = v := by
    split_ifs with he
    · rw [← he, Endian.load_store _ hv]
    · exact Endian.swapBytes_load he hv
  rw [readFixed, bind_ok hread]
  exact congrArg (EStateM.Result.ok · _) hval

theorem readFuint8_ahead (wf : ba.Wf) {b : UInt8} (h : Ahead ba (b :: rest)) :
    readFuint8 ba = .ok b (ba.past [b]) := by
  have hread := read_ahead (d := [b]) wf h (by simp)
  simp only [List.length_singleton] at hread
  simp only [readFuint8, bind_ok hread, pure_apply, List.headD_cons]

/-- The decoder consumes the groups of a number and adds it to the result. -/
theorem readVarintLoop_ahead {w : ℕ} (hw : 8 ≤ w) {turns : ℕ} {value : BitVec w}
    (htmp : varintLoop turns value = some buf) (wf : ba.Wf) (h : Ahead ba (buf ++ rest))
    (i : ℕ) (result : BitVec w) :
    readVarintLoop turns i result ba = .ok (result ||| value <<< i) (ba.past buf) := by
  induction turns generalizing ba value buf i result with
  | zero => simp [varintLoop] at htmp
  | succ turns ih =>
    rw [varintLoop] at htmp
    split_ifs at htmp with hmore
    · obtain ⟨tmp, hloop, rfl⟩ := Option.map_eq_some_iff.mp htmp
      rw [List.cons_append] at h
      have hb := readFuint8_ahead wf h
      have hge : ¬ moreGroup value < 0x80 := by
        have hle := le_toNat_moreGroup value hw
        rw [UInt8.lt_iff_toNat_lt]
        exact not_lt.mpr hle
      have hrest := ih hloop (Ahead.wf (d := [_]) h wf) (Ahead.tail (d := [_]) h) (i + 7)
        (result ||| (moreGroup value &&& 0x7F).toBitVec.setWidth w <<< i)
      simp only [readVarintLoop, bind_ok hb, if_neg hge, hrest]
      rw [payload_moreGroup value hw, BitVec.or_assoc, shiftLeft_groups, past_append,
        List.singleton_append]
    · obtain rfl : [_] = buf := by simpa using htmp
      have hb := readFuint8_ahead wf h
      have hlt : (⟨value.setWidth 8⟩ : UInt8) < 0x80 := by
        rw [UInt8.lt_iff_toNat_lt]
        show (value.setWidth 8).toNat < 128
        rw [BitVec.toNat_setWidth]
        omega
      have hpay : (value.setWidth 8).setWidth w = value := by
        apply BitVec.eq_of_toNat_eq
        rw [BitVec.toNat_setWidth, BitVec.toNat_setWidth, Nat.mod_eq_of_lt, Nat.mod_eq_of_lt]
        · omega
        · exact (Nat.mod_le _ _).trans_lt value.isLt
      simp only [readVarintLoop, bind_ok hb, if_pos hlt, pure_apply, hpay]

theorem decodeZigzag32_encodeZigzag32 (v : Int32) : decodeZigzag32 (encodeZigzag32 v) = v := by
  have h : (encodeZigzag32 v >>> 1 ^^^ -(encodeZigzag32 v &&& 1)).toBitVec =
      unzigzag (encodeZigzag32 v).toBitVec := rfl
  apply Int32.toBitVec_inj.mp
  rw [decodeZigzag32, UInt32.toBitVec_toInt32, h, toBitVec_encodeZigzag32, unzigzag_zigzag]

theorem decodeZigzag64_encodeZigzag64 (v : Int64) : decodeZigzag64 (encodeZigzag64 v) = v := by
  have h : (encodeZigzag64 v >>> 1 ^^^ -(encodeZigzag64 v &&& 1)).toBitVec =
      unzigzag (encodeZigzag64 v).toBitVec := rfl
  apply Int64.toBitVec_inj.mp
  rw [decodeZigzag64, UInt64.toBitVec_toInt64, h, toBitVec_encodeZigzag64, unzigzag_zigzag]

theorem readUint32_ahead (wf : ba.Wf) {v : UInt32}
    (h : Ahead ba (((varintLoop 5 v.toBitVec).getD []) ++ rest)) :
    readUint32 ba = .ok v (ba.past ((varintLoop 5 v.toBitVec).getD [])) := by
  obtain ⟨tmp, htmp⟩ := Option.isSome_iff_exists.mp (varint32_isSome v)
  rw [htmp, Option.getD_some] at h ⊢
  have hloop := readVarintLoop_ahead (by decide) htmp wf h 0 0#32
  rw [BitVec.shiftLeft_zero, BitVec.zero_or] at hloop
  exact map_eq_ok_iff.mpr ⟨_, hloop, rfl⟩

theorem readUint64_ahead (wf : ba.Wf) {v : UInt64}
    (h : Ahead ba (((varintLoop 10 v.toBitVec).getD []) ++ rest)) :
    readUint64 ba = .ok v (ba.past ((varintLoop 10 v.toBitVec).getD [])) := by
  obtain ⟨tmp, htmp⟩ := Option.isSome_iff_exists.mp (varint64_isSome v)
  rw [htmp, Option.getD_some] at h ⊢
  have hloop := readVarintLoop_ahead (by decide) htmp wf h 0 0#64
  rw [BitVec.shiftLeft_zero, BitVec.zero_or] at hloop
  exact map_eq_ok_iff.mpr ⟨_, hloop, rfl⟩

/-- **A member that reads a type consumes a wire form of that type.** -/
theorem readValue_spec (byteOrder : Endian) (wf : ba.Wf) (v : Value)
    (h : Ahead ba (wire ba.endian v ++ rest)) :
    readValue byteOrder v.kind ba = .ok v (ba.past (wire ba.endian v)) := by
  cases v with
  | fuint8 v => exact map_eq_ok_iff.mpr ⟨_, readFuint8_ahead wf h, rfl⟩
  | fint8 v =>
    have hread := readFuint8_ahead wf h
    exact map_eq_ok_iff.mpr ⟨v, map_eq_ok_iff.mpr ⟨_, hread, Int8.toInt8_toUInt8 v⟩, rfl⟩
  | fuint16 v =>
    have hread := readFixed_ahead byteOrder wf (by decide) v.toNat_lt h
    exact map_eq_ok_iff.mpr ⟨v, map_eq_ok_iff.mpr ⟨_, hread, UInt16.ofNat_toNat⟩, rfl⟩
  | fint16 v =>
    have hread := readFixed_ahead byteOrder wf (by decide) v.toUInt16.toNat_lt h
    exact map_eq_ok_iff.mpr ⟨v, map_eq_ok_iff.mpr
      ⟨_, map_eq_ok_iff.mpr ⟨_, hread, UInt16.ofNat_toNat⟩, Int16.toInt16_toUInt16 v⟩, rfl⟩
  | fuint32 v | float v =>
    have hread := readFixed_ahead byteOrder wf (by decide) v.toNat_lt h
    exact map_eq_ok_iff.mpr ⟨v, map_eq_ok_iff.mpr ⟨_, hread, UInt32.ofNat_toNat⟩, rfl⟩
  | fint32 v =>
    have hread := readFixed_ahead byteOrder wf (by decide) v.toUInt32.toNat_lt h
    exact map_eq_ok_iff.mpr ⟨v, map_eq_ok_iff.mpr
      ⟨_, map_eq_ok_iff.mpr ⟨_, hread, UInt32.ofNat_toNat⟩, Int32.toInt32_toUInt32 v⟩, rfl⟩
  | fuint64 v | double v =>
    have hread := readFixed_ahead byteOrder wf (by decide) v.toNat_lt h
    exact map_eq_ok_iff.mpr ⟨v, map_eq_ok_iff.mpr ⟨_, hread, UInt64.ofNat_toNat⟩, rfl⟩
  | fint64 v =>
    have hread := readFixed_ahead byteOrder wf (by decide) v.toUInt64.toNat_lt h
    exact map_eq_ok_iff.mpr ⟨v, map_eq_ok_iff.mpr
      ⟨_, map_eq_ok_iff.mpr ⟨_, hread, UInt64.ofNat_toNat⟩, Int64.toInt64_toUInt64 v⟩, rfl⟩
  | uint32 v => exact map_eq_ok_iff.mpr ⟨v, readUint32_ahead wf h, rfl⟩
  | int32 v =>
    exact map_eq_ok_iff.mpr ⟨v, map_eq_ok_iff.mpr
      ⟨_, readUint32_ahead wf h, decodeZigzag32_encodeZigzag32 v⟩, rfl⟩
  | uint64 v => exact map_eq_ok_iff.mpr ⟨v, readUint64_ahead wf h, rfl⟩
  | int64 v =>
    exact map_eq_ok_iff.mpr ⟨v, map_eq_ok_iff.mpr
      ⟨_, readUint64_ahead wf h, decodeZigzag64_encodeZigzag64 v⟩, rfl⟩

theorem readValues_ahead (vs : List Value) (wf : ba.Wf)
    (h : Ahead ba (vs.flatMap (wire ba.endian))) :
    (vs.map Value.kind).mapM (readValue byteOrder) ba =
      .ok vs (ba.past (vs.flatMap (wire ba.endian))) := by
  induction vs generalizing ba with
  | nil =>
    rw [List.flatMap_nil, past, List.length_nil, Nat.add_zero, wf.moveTo_position]
    rfl
  | cons v vs ih =>
    rw [List.flatMap_cons] at h ⊢
    have hv := readValue_spec byteOrder wf v h
    have hvs := ih (h.wf wf) h.tail
    rw [endian_past, past_append] at hvs
    rw [List.map_cons, List.mapM_cons, bind_ok hv, bind_ok hvs]
    rfl

/-! ## Round trip -/

/-- What was just written is ahead once the position is back. -/
theorem Wrote.ahead (hw : Wrote ba ba' d) : Ahead (ba'.moveTo ba.position) d where
  le_size := by
    rw [position_moveTo, size_moveTo, hw.size]
    exact le_max_right _ _
  bytes := by
    obtain ⟨t, hle, ht⟩ := hw.bytes
    rw [bytes_moveTo, position_moveTo, ht]
    exact take_drop_splice (by omega)

/-- Moving back to where a write started. -/
theorem Wrote.setPosition (wf : ba.Wf) (wf' : ba'.Wf) (hw : Wrote ba ba' d) :
    ByteArray.setPosition ba.position ba' = .ok () (ba'.moveTo ba.position) := by
  have hle := wf.position_le
  have hcap := wf'.size_le
  rw [hw.size] at hcap
  have hmax : max ba'.size ba.position = ba'.size := by
    rw [hw.size]
    omega
  rw [setPosition_spec wf' (by omega), hmax]

/-- The only way a `write` stops is a null pointer. -/
theorem write_error {e : Error} (h : write buf ba = .error e ba') : e = .nullNode := by
  rcases Nat.eq_zero_or_pos buf.length with hz | hbuf
  · obtain rfl : buf = [] := List.length_eq_zero_iff.mp hz
    simp [write_nil] at h
  · rw [write_eq hbuf] at h
    split at h
    · injection h with he _
      exact he.symm
    · cases h

/-- **Typed round trip**: in every reachable state and in either byte order, a sequence of mixed
values that is written completely reads back from where the writing started, as the same values
and up to where the writing ended; no encoder ever stores past the end of its temporary. -/
theorem values_round_trip {base_size : ℕ} (hb : 1 ≤ base_size)
    (h : Reachable byteOrder base_size ba) {vs : List Value}
    (hwrite : vs.forM (writeValue byteOrder) ba = .ok () ba') :
    (∃ ba'', (setPosition ba.position >>= fun _ =>
        (vs.map Value.kind).mapM (readValue byteOrder)) ba' = .ok vs ba'' ∧
      ba''.position = ba'.position) ∧
    ∀ v s s', writeValue byteOrder v s ≠ .error .overrun s' := by
  have wf := h.wf hb
  obtain ⟨wf', hw⟩ := writeValues_ok vs wf hwrite
  refine ⟨⟨(ba'.moveTo ba.position).past (vs.flatMap (wire (ba'.moveTo ba.position).endian)), ?_,
    ?_⟩, fun v s s' herr => ?_⟩
  · have hahead := hw.ahead
    have hmoved : (ba'.moveTo ba.position).Wf :=
      wf'.moveTo (wf.position_le.trans (by rw [hw.size]; exact le_max_left _ _))
    rw [← hw.endian, ← endian_moveTo ba' ba.position] at hahead
    rw [bind_ok (hw.setPosition wf wf')]
    exact readValues_ahead vs hmoved hahead
  · rw [past, position_moveTo, position_moveTo, endian_moveTo, hw.endian, hw.position]
  · rw [writeValue_eq] at herr
    cases write_error herr

/-- The least 32-bit number and a fixed-width number across nodes of one byte. -/
theorem values_round_trip_mixed : ∃ ba' ba'' : ByteArray,
    (setPosition 0 >>= fun _ => ([.int32, .fuint16] : List Kind).mapM (readValue .little)) ba' =
      .ok [.int32 (-2147483648), .fuint16 513] ba'' ∧ ba''.position = ba'.position := by
  have hrun : ∃ ba', ([.int32 (-2147483648), .fuint16 513] : List Value).forM
      (writeValue .little) (new 1 fun _ => 0) = .ok () ba' := by
    cases hr : ([.int32 (-2147483648), .fuint16 513] : List Value).forM
      (writeValue .little) (new 1 fun _ => 0) with
    | ok _ t => exact ⟨t, rfl⟩
    | error e t =>
      have hsome : (settle (fun _ => true) (([.int32 (-2147483648), .fuint16 513] :
        List Value).forM (writeValue .little) (new 1 fun _ => 0))).isSome := by decide +kernel
      rw [hr] at hsome
      cases hsome
  obtain ⟨ba', hwrite⟩ := hrun
  obtain ⟨⟨ba'', hread, hpos⟩, -⟩ := values_round_trip (le_refl 1)
    (⟨fun _ => 0, .refl⟩ : Reachable .little 1 _) hwrite
  exact ⟨ba', ba'', hread, hpos⟩

end ByteArray

end Sylar

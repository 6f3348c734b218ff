import Sylar.ByteArray.Capacity
import Sylar.ByteArray.RoundTrip

/-!
# Strings behind a length

A string is written behind its length, narrowed to the width of the length field; it reads back
when the length fits. What is left is the empty string: reading no bytes looks at the current node
all the same, and there is none behind the end of the capacity.

## Main definitions

* `StringFormat.limit`, `lengthField`: the numbers a length field holds, and its bytes
* `RoundTrips`: a written string reads back, up to where the writing ended

## Main results

* `writeString_eq`, `readString_ahead`: the members in terms of the length field
* `string_round_trip_iff`: which strings read back
-/

namespace Sylar

open Foundation

namespace ByteArray

variable {byteOrder : Endian} {ba ba' : ByteArray} {f : StringFormat} {s rest : List UInt8}

/-- The lengths that the field of a format can hold are those below. -/
def StringFormat.limit : StringFormat → ℕ
  | f16 => 2 ^ 16
  | f32 => 2 ^ 32
  | f64 | vint => 2 ^ 64

/-- The bytes of the length field for a length `n`. -/
def lengthField (endian : Endian) (f : StringFormat) (n : ℕ) : List UInt8 :=
  match f with
  | .f16 => wire endian (.fuint16 (UInt16.ofNat n))
  | .f32 => wire endian (.fuint32 (UInt32.ofNat n))
  | .f64 => wire endian (.fuint64 (UInt64.ofNat n))
  | .vint => wire endian (.uint64 (UInt64.ofNat n))

/-- The member that reads the length field of a format. -/
def readLength (byteOrder : Endian) : StringFormat → Op ℕ
  | .f16 => UInt16.toNat <$> readFuint16 byteOrder
  | .f32 => UInt32.toNat <$> readFuint32 byteOrder
  | .f64 => UInt64.toNat <$> readFuint64 byteOrder
  | .vint => UInt64.toNat <$> readUint64

/-! ## Writing -/

/-- A string is its length field and its bytes. -/
theorem writeString_eq (f : StringFormat) (s : List UInt8) (ba : ByteArray) :
    writeString byteOrder f s ba =
      (write (lengthField ba.endian f s.length) >>= fun _ => write s) ba := by
  have hbind : ∀ v : Value, (writeValue byteOrder v >>= fun _ => write s) ba =
      (write (wire ba.endian v) >>= fun _ => write s) ba := by
    intro v
    simp only [bind, EStateM.bind, writeValue_eq]
  cases f with
  | f16 => exact hbind (.fuint16 (UInt16.ofNat s.length))
  | f32 => exact hbind (.fuint32 (UInt32.ofNat s.length))
  | f64 => exact hbind (.fuint64 (UInt64.ofNat s.length))
  | vint => exact hbind (.uint64 (UInt64.ofNat s.length))

theorem writeString_ok (wf : ba.Wf) (h : writeString byteOrder f s ba = .ok () ba') :
    ba'.Wf ∧ Wrote ba ba' (lengthField ba.endian f s.length ++ s) := by
  rw [writeString_eq] at h
  cases hfield : write (lengthField ba.endian f s.length) ba with
  | ok u ba₁ =>
    rw [bind_ok hfield] at h
    obtain ⟨wf₁, hw₁⟩ := write_ok wf hfield
    obtain ⟨wf', hw⟩ := write_ok wf₁ h
    exact ⟨wf', hw₁.trans hw⟩
  | error e ba₁ =>
    rw [bind_error hfield] at h
    cases h

/-! ## Reading -/

theorem readLength_ahead (wf : ba.Wf) (n : ℕ)
    (h : Ahead ba (lengthField ba.endian f n ++ rest)) :
    readLength byteOrder f ba = .ok (n % f.limit) (ba.past (lengthField ba.endian f n)) := by
  cases f with
  | f16 =>
    have hread := readFixed_ahead byteOrder wf (by decide) (UInt16.ofNat n).toNat_lt h
    exact map_eq_ok_iff.mpr ⟨_, map_eq_ok_iff.mpr ⟨_, hread, UInt16.ofNat_toNat⟩,
      UInt16.toNat_ofNat'⟩
  | f32 =>
    have hread := readFixed_ahead byteOrder wf (by decide) (UInt32.ofNat n).toNat_lt h
    exact map_eq_ok_iff.mpr ⟨_, map_eq_ok_iff.mpr ⟨_, hread, UInt32.ofNat_toNat⟩,
      UInt32.toNat_ofNat'⟩
  | f64 =>
    have hread := readFixed_ahead byteOrder wf (by decide) (UInt64.ofNat n).toNat_lt h
    exact map_eq_ok_iff.mpr ⟨_, map_eq_ok_iff.mpr ⟨_, hread, UInt64.ofNat_toNat⟩,
      UInt64.toNat_ofNat'⟩
  | vint => exact map_eq_ok_iff.mpr ⟨_, readUint64_ahead wf h, UInt64.toNat_ofNat'⟩

/-- Reading a string is reading its length and as many bytes. -/
theorem readString_eq (f : StringFormat) (ba : ByteArray) {n : ℕ} {ba₁ : ByteArray}
    (h : readLength byteOrder f ba = .ok n ba₁) : readString byteOrder f ba = read n ba₁ := by
  cases f with
  | f16 | f32 | f64 | vint =>
    obtain ⟨v, hv, rfl⟩ := map_eq_ok_iff.mp h
    exact bind_ok hv

/-- Where the bytes of a string begin, behind its length field. -/
theorem readString_ahead (wf : ba.Wf) (h : Ahead ba (lengthField ba.endian f s.length ++ s)) :
    readString byteOrder f ba =
      read (s.length % f.limit) (ba.past (lengthField ba.endian f s.length)) :=
  readString_eq f ba (readLength_ahead wf s.length h)

/-- As many bytes of a string as its length field says. -/
theorem read_payload (wf : ba.Wf) (h : Ahead ba s) (hs : s ≠ []) {n : ℕ} (hn : n ≤ s.length) :
    read n ba = .ok (s.take n) (ba.moveTo (ba.position + n)) := by
  have hpos := List.length_pos_iff.mpr hs
  have hle := h.le_size
  have hsize := wf.size_le
  rw [read_spec wf (by unfold getReadSize; omega) (by omega), ← h.bytes, List.take_take,
    min_eq_left hn]

/-! ## Round trip -/

/-- **The string reads back**, and up to where the writing ended. -/
def RoundTrips (byteOrder : Endian) (f : StringFormat) (s : List UInt8) (ba ba' : ByteArray) :
    Prop :=
  ∃ ba'', (setPosition ba.position >>= fun _ => readString byteOrder f) ba' = .ok s ba'' ∧
    ba''.position = ba'.position

/-- **What reading gives**: as many bytes as the length field says, and no bytes only where there
is a node to look at. -/
theorem roundTrips_iff (wf : ba.Wf) (wf' : ba'.Wf)
    (hw : Wrote ba ba' (lengthField ba.endian f s.length ++ s)) :
    RoundTrips byteOrder f s ba ba' ↔
      s.length < f.limit ∧ (s = [] → ba'.position ≠ ba'.capacity) := by
  set field := lengthField ba.endian f s.length with hfield
  have hmoved : (ba'.moveTo ba.position).Wf :=
    wf'.moveTo (wf.position_le.trans (by rw [hw.size]; exact le_max_left _ _))
  have hahead := hw.ahead
  have hend : (ba'.moveTo ba.position).endian = ba.endian := hw.endian
  have hread : (setPosition ba.position >>= fun _ => readString byteOrder f) ba' =
      read (s.length % f.limit) ((ba'.moveTo ba.position).past field) := by
    rw [bind_ok (hw.setPosition wf wf'), readString_ahead hmoved (by rw [hend]; exact hahead), hend]
  have hposition :
      ((ba'.moveTo ba.position).past field).position = ba.position + field.length := rfl
  have hpos' : ba'.position = ba.position + field.length + s.length := by
    rw [hw.position, List.length_append, Nat.add_assoc]
  have hlimit : 0 < f.limit := by cases f <;> decide
  unfold RoundTrips
  rw [hread]
  -- an empty string is read at the end, where there may be no node
  rcases eq_or_ne s [] with rfl | hs
  · rw [List.length_nil, Nat.add_zero] at hpos'
    have hatend : (ba'.moveTo ba.position).past field = ba'.moveTo ba'.position := by
      rw [past, moveTo_moveTo, hpos']
      rfl
    rw [List.length_nil, Nat.zero_mod, hatend, wf'.moveTo_position]
    constructor
    · rintro ⟨ba'', hr, -⟩
      refine ⟨hlimit, fun _ heq => ?_⟩
      rw [read_fault wf' (Nat.zero_le _) heq] at hr
      cases hr
    · rintro ⟨-, hne⟩
      have hlt := lt_of_le_of_ne wf'.position_le_capacity (hne rfl)
      refine ⟨_, read_spec wf' (Nat.zero_le _) hlt, ?_⟩
      rfl
  · have hpayload := read_payload (hahead.wf hmoved) hahead.tail hs (Nat.mod_le s.length f.limit)
    rw [hpayload]
    constructor
    · rintro ⟨ba'', hr, -⟩
      refine ⟨?_, fun h => absurd h hs⟩
      injection hr with htake _
      -- what is read back has the length that the field could say
      have hlen := congrArg List.length htake
      rw [List.length_take, min_eq_left (Nat.mod_le _ _)] at hlen
      rw [← hlen]
      exact Nat.mod_lt _ hlimit
    · rintro ⟨hlt, -⟩
      rw [Nat.mod_eq_of_lt hlt, List.take_length]
      refine ⟨_, rfl, ?_⟩
      rw [position_moveTo, hposition, hpos']

/-- A string is written whole when there is capacity for it. -/
theorem writeString_of_capacity (byteOrder : Endian) (wf : ba.Wf)
    (hcap : (lengthField ba.endian f s.length).length + s.length ≤ ba.getCapacity) :
    ∃ ba', writeString byteOrder f s ba = .ok () ba' := by
  have hp := wf.position_le_capacity
  unfold getCapacity at hcap
  have hfield : ba.Fits (lengthField ba.endian f s.length).length :=
    wf.fits_iff.mpr (by unfold getCapacity; omega)
  obtain ⟨ba₁, h₁, wf₁, hw₁⟩ := write_spec wf hfield
  have hroom : s.length ≤ ba₁.getCapacity := by
    have hmore := hw₁.capacity
    rw [getCapacity, hw₁.position]
    omega
  have hfit : ba₁.Fits s.length := wf₁.fits_iff.mpr (by omega)
  obtain ⟨ba', h', -, -⟩ := write_spec wf₁ hfit
  exact ⟨ba', by rw [writeString_eq, bind_ok h₁, h']⟩

/-- **Strings behind a length**: in every reachable state, a string for which there is capacity is
written whole, and a string that is written whole reads back exactly if its length fits the length
field and, when it is empty, the length field does not end at the end of the capacity. -/
theorem string_round_trip_iff {base_size : ℕ} (hb : 1 ≤ base_size)
    (h : Reachable byteOrder base_size ba) (f : StringFormat) (s : List UInt8) :
    ((lengthField ba.endian f s.length).length + s.length ≤ ba.getCapacity →
      ∃ ba', writeString byteOrder f s ba = .ok () ba') ∧
    ∀ ba', writeString byteOrder f s ba = .ok () ba' →
      (RoundTrips byteOrder f s ba ba' ↔ s.length < f.limit ∧
        (s = [] → ba.position + (lengthField ba.endian f 0).length ≠
          (ba.grow (lengthField ba.endian f 0).length).capacity)) := by
  have wf := h.wf hb
  refine ⟨writeString_of_capacity byteOrder wf, fun ba' hwrite => ?_⟩
  obtain ⟨wf', hw⟩ := writeString_ok wf hwrite
  rw [roundTrips_iff wf wf' hw]
  refine and_congr_right fun _ => imp_congr_right ?_
  rintro rfl
  -- the length field is all that is written of an empty string
  have hfield : write (lengthField ba.endian f 0) ba = .ok () ba' := by
    rw [writeString_eq] at hwrite
    cases hfield : write (lengthField ba.endian f 0) ba with
    | ok u ba₁ =>
      rw [List.length_nil, bind_ok hfield, write_nil] at hwrite
      exact hwrite
    | error e ba₁ =>
      rw [List.length_nil, bind_error hfield] at hwrite
      cases hwrite
  rw [capacity_of_write hfield, hw.position, List.append_nil, List.length_nil]

/-- Three bytes in nodes of one byte. -/
theorem string_round_trip_iff_short :
    ∃ ba', writeString .little .f16 [7, 8, 9] (new 1 fun _ => 0) = .ok () ba' ∧
      (RoundTrips .little .f16 [7, 8, 9] (new 1 fun _ => 0) ba' ↔
        3 < 2 ^ 16 ∧ (([7, 8, 9] : List UInt8) = [] →
          0 + 2 ≠ ((new 1 fun _ => 0).grow 2).capacity)) := by
  have h := string_round_trip_iff (le_refl 1) (⟨fun _ => 0, .refl⟩ : Reachable .little 1 _) .f16
    [7, 8, 9]
  exact ⟨_, rfl, h.2 _ rfl⟩

/-- Two strings that do not read back: an empty one whose length field fills the capacity, where
reading follows a null pointer, and one whose length is 0 in 16 bits. -/
theorem strings_lost :
    (∃ ba', writeString .little .f16 [] (new 2 fun _ => 0) = .ok () ba' ∧
      ∃ t, (setPosition 0 >>= fun _ => readString .little .f16) ba' = .error .nullNode t) ∧
    ∃ ba', writeString .little .f16 (List.replicate 65536 7) (new 70000 fun _ => 0) = .ok () ba' ∧
      ¬ RoundTrips .little .f16 (List.replicate 65536 7) (new 70000 fun _ => 0) ba' := by
  refine ⟨⟨_, rfl, _, rfl⟩, ?_⟩
  have wf : (new 70000 fun _ => 0).Wf := Wf.new 70000 (by decide) _
  obtain ⟨ba', hwrite⟩ := writeString_of_capacity (f := .f16)
    (s := List.replicate 65536 7) .little wf (by
      simp only [lengthField, wire, Endian.length_store, List.length_replicate]
      decide)
  obtain ⟨wf', hw⟩ := writeString_ok wf hwrite
  refine ⟨ba', hwrite, fun h => ?_⟩
  have hlt := ((roundTrips_iff wf wf' hw).mp h).1
  rw [List.length_replicate] at hlt
  exact absurd hlt (by decide)

end ByteArray

end Sylar

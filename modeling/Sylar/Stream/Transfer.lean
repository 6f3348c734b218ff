import Sylar.ByteArray.Scatter
import Sylar.Foundation.Transition
import Sylar.Stream.FixSize

/-!
# Byte arrays over a stream

`writeFixSize` sends bytes of a byte array until none is left, and `readFixSize` at the other end
receives as many into another one. The kernel takes as many bytes of a `send` as it likes, and a
`recv` brings as many as it likes of those on the way, so the calls interleave in any order and cut
the bytes anywhere; the two chains have nodes of different sizes.

Whatever the order, what has come is the front of what is sent, in place in the array at the other
end, and what is on the way is the rest of what has been taken.

## Main definitions

* `socketWrite`: `SocketStream::write` of a byte array
* `Transfer`, `Turn`, `Transfer.step`: the two loops and the bytes on the way
* `Turn.Allowed`: the kernel takes and brings some bytes, of those there are
* `Transfer.Sound`: the invariant

## Main results

* `socketRead_spec`: what a read from a socket does to a byte array
* `Transfer.Sound.step`: a turn of either loop keeps the invariant
* `transfer_delivers`: transfers of bytes
* `values_cross`: typed values, between machines of any byte order
-/

namespace Sylar

open Foundation

namespace ByteArray

variable {byteOrder : Endian} {ba ba' : ByteArray} {n len rt : ℕ} {d : List UInt8}

/-! ## The socket calls -/

/-- `SocketStream::write` of a byte array with `length` bytes asked for, of which `send` takes
`rt`: those it takes. -/
def socketWrite (length rt : ℕ) : Op (List UInt8) := do
  let r ← getReadBuffers length
  let ba ← get
  -- the position moves behind what is taken
  setPosition (ba.position + rt)
  return (gather ba r.1).take rt

/-- The state and the bytes of a write to a socket. -/
theorem socketWrite_spec (wf : ba.Wf) (hrt : rt ≤ min len ba.getReadSize) :
    socketWrite len rt ba =
      .ok (ba.stored ba.position rt) (ba.moveTo (ba.position + rt)) := by
  obtain ⟨iovs, hbuffers, hgather, -⟩ := getReadBuffers_eq wf len
  have hcap := length_unread wf (hrt.trans (Nat.min_le_right _ _))
  have hpos := wf.position_le
  have hin : ba.position + rt ≤ ba.size := by
    have hle := hrt.trans (Nat.min_le_right _ _)
    unfold getReadSize at hle
    omega
  have hmove := setPosition_spec wf hcap
  rw [max_eq_left hin] at hmove
  have htake : (gather ba iovs).take rt = ba.stored ba.position rt := by
    rw [hgather, stored, stored, List.take_take, min_eq_left hrt]
  simp only [socketWrite, bind_ok hbuffers, get_bind_apply, bind_ok hmove, pure_apply, htake]

/-- Room in the chain is room after growing. -/
theorem Wf.fits_of_le (wf : ba.Wf) (h : ba.position + n ≤ ba.capacity) : ba.Fits n := by
  rw [wf.fits_iff, getCapacity]
  omega

/-- **A read from a socket** writes what has come, and the chain has room for what was asked. -/
theorem socketRead_spec (wf : ba.Wf) (hlen : 0 < len) (hd : d.length ≤ len) (hfit : ba.Fits len) :
    ∃ ba', socketRead len d ba = .ok () ba' ∧ ba'.Wf ∧ Wrote ba ba' d ∧
      ba.position + len ≤ ba'.capacity := by
  obtain ⟨wf₁, hg⟩ := wf.grow len
  have hroom : (ba.grow len).position + len ≤ (ba.grow len).capacity := by
    have hle := wf₁.position_le_capacity
    unfold Fits getCapacity at hfit
    omega
  obtain ⟨iovs, root, hiovs, hscatter, wf₂, hroot⟩ := wf₁.scatter hlen hroom hd
  have hread := socketRead_eq (getWriteBuffers_eq hlen hiovs) wf₂ hscatter (by omega)
  obtain ⟨t, ht⟩ := hg.bytes
  refine ⟨_, hread, wf₂.setPosition (v := (ba.grow len).position + d.length)
    (show _ ≤ (ba.grow len).capacity by omega), ⟨hg.baseSize, hg.endian, ?_, ?_, ?_, t, ?_, ?_⟩,
    hg.position ▸ hroom⟩
  · rw [← hg.position]
    rfl
  · rw [← hg.position, ← hg.size]
    rfl
  · change ba.capacity ≤ (ba.grow len).capacity
    rw [hg.capacity]
    omega
  · rw [← ht, wf₁.length_bytes, ← hg.position]
    omega
  · rw [← ht, ← hg.position]
    exact hroot

end ByteArray

namespace Streams

open Sylar.ByteArray

/-! ## The two loops -/

/-- A `writeFixSize` and a `readFixSize` at the two ends of a stream: their byte arrays, what is
left of the length in each loop, and the bytes on the way. -/
structure Transfer where
  src : ByteArray
  toWrite : ℕ
  inFlight : List UInt8
  dst : ByteArray
  toRead : ℕ

/-- A turn of one of the loops, with the result of its call of `write` or `read`. -/
inductive Turn
  | write (rt : ℕ)
  | read (rt : ℕ)
  deriving DecidableEq, Repr

/-- The results of the calls of `write`. -/
def Turn.written : Turn → Option ℤ
  | .write rt => some rt
  | .read _ => none

/-- The results of the calls of `read`. -/
def Turn.received : Turn → Option ℤ
  | .write _ => none
  | .read rt => some rt

namespace Transfer

/-- A turn of `writeFixSize(ba, length)` or of `readFixSize(ba, length)`. -/
def step (s : Transfer) : Turn → Option Transfer
  | .write rt =>
    if 0 < s.toWrite then
      match socketWrite s.toWrite rt s.src with
      | .ok sent src =>
        some { s with src := src, toWrite := s.toWrite - rt, inFlight := s.inFlight ++ sent }
      | .error _ _ => none
    else none
  | .read rt =>
    if 0 < s.toRead then
      match socketRead s.toRead (s.inFlight.take rt) s.dst with
      | .ok _ dst =>
        some { s with dst := dst, toRead := s.toRead - rt, inFlight := s.inFlight.drop rt }
      | .error _ _ => none
    else none

/-- The two loops, turn by turn. -/
def machine : Machine Transfer Turn := ⟨step⟩

/-- Both loops before their first turn. -/
def start (src dst : ByteArray) (length : ℕ) : Transfer := ⟨src, length, [], dst, length⟩

/-- The kernel takes some of the bytes that a `write` offers, and brings some of those on the way
that a `read` asks for; the result is an `int`. So `left -= len` stays above 0. -/
def Allowed (s : Transfer) : Turn → Prop
  | .write rt => 1 ≤ rt ∧ rt ≤ min s.toWrite s.src.getReadSize ∧ rt < 2 ^ 31
  | .read rt => 1 ≤ rt ∧ rt ≤ min s.toRead s.inFlight.length ∧ rt < 2 ^ 31

instance (s : Transfer) (turn : Turn) : Decidable (s.Allowed turn) := by
  cases turn <;> unfold Allowed <;> infer_instance

/-! ## The invariant -/

/-- **The invariant** of a transfer of `d` from `A` to `B`: what is taken and what has come are
fronts of `d`, the rest of the one behind the other is on the way, and there is room for what is
still to come. -/
structure Sound (A B : ByteArray) (d : List UInt8) (s : Transfer) : Prop where
  toWrite_le : s.toWrite ≤ s.toRead
  toRead_le : s.toRead ≤ d.length
  src : s.src = A.moveTo (A.position + (d.length - s.toWrite))
  inFlight : s.inFlight = (d.take (d.length - s.toWrite)).drop (d.length - s.toRead)
  wf : s.dst.Wf
  wrote : Wrote B s.dst (d.take (d.length - s.toRead))
  fits : s.dst.Fits s.toRead

variable {byteOrder byteOrder' : Endian} {base_size base_size' : ℕ} {A B : ByteArray}
  {d : List UInt8} {s t : Transfer} {turn : Turn} {turns : List Turn}

theorem Sound.start (wfA : A.Wf) (wfB : B.Wf) (hfit : B.Fits d.length) :
    Sound A B d (start A B d.length) where
  toWrite_le := le_refl _
  toRead_le := le_refl _
  src := by
    rw [Transfer.start, Nat.sub_self, Nat.add_zero, wfA.moveTo_position]
  inFlight := by simp [Transfer.start]
  wf := wfB
  wrote := by
    rw [Transfer.start, Nat.sub_self, List.take_zero]
    exact .refl wfB
  fits := hfit

/-- What is ahead, from an offset on. -/
theorem stored_ahead (hd : Ahead A d) {k n : ℕ} (h : k + n ≤ d.length) :
    A.stored (A.position + k) n = (d.drop k).take n := by
  conv_rhs => rw [← hd.bytes]
  rw [stored, List.drop_take, List.drop_drop, List.take_take, min_eq_left (by omega)]

/-- **A turn of `writeFixSize`** puts the bytes it takes behind those on the way. -/
theorem Sound.step_write {rt : ℕ} (wfA : A.Wf) (hd : Ahead A d) (h : Sound A B d s)
    (hok : s.Allowed (.write rt)) : ∃ t, s.step (.write rt) = some t ∧ Sound A B d t := by
  obtain ⟨hpos, hrt, -⟩ := hok
  have hle := hd.le_size
  have hto := h.toWrite_le
  have hlen := h.toRead_le
  have hwrite : rt ≤ s.toWrite := hrt.trans (Nat.min_le_left _ _)
  have hwf : s.src.Wf := by
    rw [h.src]
    exact wfA.moveTo (by omega)
  have hsent : s.src.stored s.src.position rt = (d.drop (d.length - s.toWrite)).take rt := by
    rw [h.src, position_moveTo]
    exact stored_ahead hd (by omega)
  have hnext : d.length - (s.toWrite - rt) = d.length - s.toWrite + rt := by omega
  have hstep : s.step (.write rt) = some { s with
      src := s.src.moveTo (s.src.position + rt)
      toWrite := s.toWrite - rt
      inFlight := s.inFlight ++ (d.drop (d.length - s.toWrite)).take rt } := by
    rw [Transfer.step, if_pos (by omega), socketWrite_spec hwf hrt, hsent]
  refine ⟨_, hstep, by simp only; omega, hlen, ?_, ?_, h.wf, h.wrote, h.fits⟩
  · rw [hnext, h.src, position_moveTo, ← Nat.add_assoc]
    rfl
  · have hwithin : d.length - s.toRead ≤ (d.take (d.length - s.toWrite)).length := by
      rw [List.length_take]
      omega
    rw [hnext, h.inFlight, List.take_add]
    exact (List.drop_append_of_le_length hwithin).symm

/-- **A turn of `readFixSize`** writes the bytes that come behind those that have come. -/
theorem Sound.step_read {rt : ℕ} (h : Sound A B d s) (hok : s.Allowed (.read rt)) :
    ∃ t, s.step (.read rt) = some t ∧ Sound A B d t := by
  obtain ⟨hpos, hrt, -⟩ := hok
  have hto := h.toWrite_le
  have hlen := h.toRead_le
  have hread : rt ≤ s.toRead := hrt.trans (Nat.min_le_left _ _)
  have hwire : rt ≤ s.inFlight.length := hrt.trans (Nat.min_le_right _ _)
  have hcome : (s.inFlight.take rt).length = rt := List.length_take_of_le hwire
  obtain ⟨dst, hdst, wf, hwrote, hroom⟩ :=
    socketRead_spec h.wf (d := s.inFlight.take rt) (by omega) (by omega) h.fits
  have hnext : d.length - (s.toRead - rt) = d.length - s.toRead + rt := by omega
  have hstep : s.step (.read rt) =
      some { s with dst := dst, toRead := s.toRead - rt, inFlight := s.inFlight.drop rt } := by
    rw [Transfer.step, if_pos (by omega), hdst]
  refine ⟨_, hstep, ?_, (Nat.sub_le _ _).trans hlen, h.src, ?_, wf, ?_, ?_⟩
  · -- no more comes than is on the way
    rw [h.inFlight, List.length_drop, List.length_take] at hwire
    simp only
    omega
  · rw [hnext, h.inFlight, List.drop_drop]
  · have hfront : s.inFlight.take rt = (d.drop (d.length - s.toRead)).take rt := by
      rw [h.inFlight, List.length_drop, List.length_take] at hwire
      rw [h.inFlight, List.drop_take, List.take_take, min_eq_left (by omega)]
    rw [hnext, List.take_add, ← hfront]
    exact h.wrote.trans hwrote
  · have hposition := hwrote.position
    rw [hcome] at hposition
    exact wf.fits_of_le (show dst.position + (s.toRead - rt) ≤ dst.capacity by omega)

/-- **A turn of either loop** succeeds and keeps the invariant. -/
theorem Sound.step (wfA : A.Wf) (hd : Ahead A d) (h : Sound A B d s) (hok : s.Allowed turn) :
    ∃ t, s.step turn = some t ∧ Sound A B d t := by
  cases turn with
  | write rt => exact h.step_write wfA hd hok
  | read rt => exact h.step_read hok

/-- **Allowed turns** run, and keep the invariant. -/
theorem Sound.run (wfA : A.Wf) (hd : Ahead A d) (h : Sound A B d s)
    (hok : machine.Meets Allowed s turns) : ∃ t, machine.run s turns = some t ∧ Sound A B d t :=
  Machine.exists_run_of_meets (fun _ _ hs hturn => hs.step wfA hd hturn) h hok

/-! ## The end of a transfer -/

/-- The bytes the loops have still to move. -/
def left (s : Transfer) : ℕ := s.toWrite + s.toRead

/-- What a turn of `writeFixSize` leaves of the two lengths. -/
theorem step_write {rt : ℕ} (h : s.step (.write rt) = some t) :
    t.toWrite = s.toWrite - rt ∧ t.toRead = s.toRead := by
  simp only [Transfer.step, Option.ite_none_right_eq_some] at h
  obtain ⟨-, h⟩ := h
  split at h
  · obtain rfl := Option.some.inj h
    exact ⟨rfl, rfl⟩
  · cases h

/-- What a turn of `readFixSize` leaves of the two lengths. -/
theorem step_read {rt : ℕ} (h : s.step (.read rt) = some t) :
    t.toWrite = s.toWrite ∧ t.toRead = s.toRead - rt := by
  simp only [Transfer.step, Option.ite_none_right_eq_some] at h
  obtain ⟨-, h⟩ := h
  split at h
  · obtain rfl := Option.some.inj h
    exact ⟨rfl, rfl⟩
  · cases h

/-- A turn that is allowed moves at least a byte. -/
theorem left_step (hok : s.Allowed turn) (hstep : s.step turn = some t) : t.left + 1 ≤ s.left := by
  unfold left
  cases turn with
  | write rt =>
    obtain ⟨hpos, hrt, -⟩ := hok
    have hle := hrt.trans (Nat.min_le_left _ _)
    have hnext := step_write hstep
    omega
  | read rt =>
    obtain ⟨hpos, hrt, -⟩ := hok
    have hle := hrt.trans (Nat.min_le_left _ _)
    have hnext := step_read hstep
    omega

/-- A run has no more turns than bytes to move. -/
theorem length_le_left (hok : machine.Meets Allowed s turns)
    (hrun : machine.run s turns = some t) : turns.length + t.left ≤ s.left := by
  induction turns generalizing s with
  | nil =>
    obtain rfl : s = t := by simpa using hrun
    simp
  | cons turn turns ih =>
    rw [Machine.run_cons, Option.bind_eq_some_iff] at hrun
    obtain ⟨u, hu, hrun⟩ := hrun
    have hmoved := left_step hok.1 hu
    have hrest := ih (hok.2 u hu) hrun
    rw [List.length_cons]
    omega

/-- **No transfer gets stuck**: while a byte is missing, one of the loops can take a turn. -/
theorem Sound.exists_allowed (hd : Ahead A d) (h : Sound A B d s) (hleft : 0 < s.toRead) :
    ∃ turn, s.Allowed turn := by
  have hle := hd.le_size
  have hto := h.toWrite_le
  have hlen := h.toRead_le
  rcases Nat.eq_zero_or_pos s.inFlight.length with hwire | hwire
  · -- nothing is on the way, so something is left to send
    rw [h.inFlight, List.length_drop, List.length_take] at hwire
    refine ⟨.write 1, le_refl _, le_min (by omega) ?_, by decide⟩
    rw [h.src, getReadSize, size_moveTo, position_moveTo]
    omega
  · exact ⟨.read 1, le_refl _, le_min hleft hwire, by decide⟩

/-- The state of a transfer of `length` bytes from `A` to `B`. -/
structure Delivers (A B : ByteArray) (length : ℕ) (t : Transfer) : Prop where
  come : Wrote B t.dst ((A.stored A.position length).take (length - t.toRead))
  goes_on : 0 < t.toRead → ∃ turn, t.Allowed turn
  ends : t.toRead = 0 → t.toWrite = 0 ∧ t.inFlight = [] ∧ t.src = A.moveTo (A.position + length) ∧
    ∃ ba', write (A.stored A.position length) B = .ok () ba' ∧ Agree t.dst ba'

/-- **Values cross**: what is written as a sequence of mixed values in one byte array, from any
reachable state, and is sent from where the writing started to another one, of the same endianness
and on a machine of any byte order, reads back there as the same values, and nothing is left. -/
theorem values_cross (hb : 1 ≤ base_size) (hb' : 1 ≤ base_size')
    (hA : Reachable byteOrder base_size A) (hB : Reachable byteOrder' base_size' B)
    (hendian : A.endian = B.endian) {vs : List Value} {A' src : ByteArray}
    (hwrite : vs.forM (writeValue byteOrder) A = .ok () A')
    (hsrc : setPosition A.position A' = .ok () src)
    (hfit : B.Fits (A'.position - A.position))
    (hturns : machine.Meets Allowed (start src B (A'.position - A.position)) turns) :
    ∃ t, machine.run (start src B (A'.position - A.position)) turns = some t ∧
      turns.length + t.left ≤ 2 * (A'.position - A.position) ∧
      (0 < t.toRead → ∃ turn, t.Allowed turn) ∧
      (t.toRead = 0 → ∃ ba, (setPosition B.position >>= fun _ =>
          (vs.map Value.kind).mapM (readValue byteOrder')) t.dst = .ok vs ba ∧
        ba.position = t.dst.position) := by
  have wfA := hA.wf hb
  have wfB := hB.wf hb'
  obtain ⟨wfA', hwrote⟩ := writeValues_ok vs wfA hwrite
  obtain rfl : A'.moveTo A.position = src := by
    have hmove := hwrote.setPosition wfA wfA'
    rw [hsrc] at hmove
    injection hmove with _ hsrc
    exact hsrc.symm
  have hahead := hwrote.ahead
  have hlen : A'.position - A.position = (vs.flatMap (wire A.endian)).length := by
    rw [hwrote.position]
    omega
  rw [hlen] at hfit hturns ⊢
  have wfsrc : (A'.moveTo A.position).Wf :=
    wfA'.moveTo (wfA.position_le.trans (by rw [hwrote.size]; exact le_max_left _ _))
  obtain ⟨t, hrun, hsound⟩ := (Sound.start wfsrc wfB hfit).run wfsrc hahead hturns
  have hmoved := length_le_left hturns hrun
  have hleft : (start (A'.moveTo A.position) B (vs.flatMap (wire A.endian)).length).left =
      2 * (vs.flatMap (wire A.endian)).length := (Nat.two_mul _).symm
  refine ⟨t, hrun, by omega, hsound.exists_allowed hahead, fun hend => ?_⟩
  -- all bytes have come, and the position moves back to where they start
  have hcome := hsound.wrote
  rw [hend, Nat.sub_zero, List.take_length] at hcome
  have hback := hcome.ahead
  have wft : (t.dst.moveTo B.position).Wf :=
    hsound.wf.moveTo (wfB.position_le.trans (by rw [hcome.size]; exact le_max_left _ _))
  have hsame : A.endian = (t.dst.moveTo B.position).endian := by
    rw [endian_moveTo, hcome.endian, hendian]
  rw [hsame] at hback
  refine ⟨(t.dst.moveTo B.position).past (vs.flatMap (wire (t.dst.moveTo B.position).endian)),
    ?_, ?_⟩
  · rw [bind_ok (hcome.setPosition wfB hsound.wf)]
    exact readValues_ahead vs wft hback
  · rw [past, position_moveTo, position_moveTo, ← hsame, hcome.position]

/-- Two numbers from a little-endian machine to a big-endian one, until the last byte is on the
way. -/
theorem values_cross_two : ∃ t,
    machine.run (start ⟨1, 0, 3, 3, .big, [⟨[2]⟩, ⟨[1]⟩, ⟨[255]⟩], some 0, fun _ => 0⟩
        (new 4 fun _ => 0) 3) [.write 2, .read 1, .read 1, .write 1] = some t ∧
      4 + t.left ≤ 2 * 3 ∧ (0 < t.toRead → ∃ turn, t.Allowed turn) ∧
      (t.toRead = 0 → ∃ ba, (setPosition 0 >>= fun _ =>
          ([.fuint16, .fint8] : List Kind).mapM (readValue .big)) t.dst =
            .ok [.fuint16 513, .fint8 (-1)] ba ∧
        ba.position = t.dst.position) := by
  have hnumber : writeValue .little (.fuint16 513) (new 1 fun _ => 0) =
      .ok () ⟨1, 2, 2, 2, .big, [⟨[2]⟩, ⟨[1]⟩], none, fun _ => 0⟩ := by
    have hwire : wire .big (.fuint16 513) = [2, 1] := by decide
    rw [writeValue_eq]
    exact (congrArg (write · _) hwire).trans rfl
  have hbyte : writeValue .little (.fint8 (-1))
      ⟨1, 2, 2, 2, .big, [⟨[2]⟩, ⟨[1]⟩], none, fun _ => 0⟩ =
      .ok () ⟨1, 3, 3, 3, .big, [⟨[2]⟩, ⟨[1]⟩, ⟨[255]⟩], none, fun _ => 0⟩ := by
    have hwire : wire .big (.fint8 (-1)) = [255] := by decide
    rw [writeValue_eq]
    exact (congrArg (write · _) hwire).trans rfl
  have hwrite : ([.fuint16 513, .fint8 (-1)] : List Value).forM (writeValue .little)
      (new 1 fun _ => 0) =
        .ok () ⟨1, 3, 3, 3, .big, [⟨[2]⟩, ⟨[1]⟩, ⟨[255]⟩], none, fun _ => 0⟩ := by
    rw [List.forM_eq_forM, List.forM_cons, bind_ok hnumber, List.forM_cons, bind_ok hbyte]
    rfl
  exact values_cross (by decide) (by decide) (reachable_new .little 1 fun _ => 0)
    (reachable_new .big 4 fun _ => 0) rfl hwrite rfl (by unfold Fits; decide) (by decide)

end Transfer

end Streams

end Sylar

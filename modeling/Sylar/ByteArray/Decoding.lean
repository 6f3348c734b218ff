import Sylar.ByteArray.Strings
import Sylar.ByteArray.Views
import Sylar.Foundation.Varint

/-!
# Reading what may not be there

The typed members read byte by byte or field by field, and each of these reads moves the position.
A number in groups of seven bits that is cut short, and a string that is cut short behind its
length, are consumed although the member throws. The loops of `readUint32` and `readUint64` stop
after as many bytes as a word has groups, whatever the last of them says, and what does not fit in
the word is shifted out.

## Main definitions

* `unread`: the bytes between the position and the size
* `KeepsOnThrow`: a member that throws leaves the position, the node and the size
* `StringFormat.parse`: the length field in front of some bytes
* `AcceptsVarints`: a member returns exactly on numbers that fit in a word

## Main results

* `readVarintLoop_unread`, `readFixed_unread`: the members on the unread bytes
* `failed_read_keeps_iff`: which failed reads consume nothing
* `varint_decoders_iff`: on which bytes the decoders are exact
-/

namespace Sylar

open Foundation

/-- The bytes of an integer are those it was loaded from. -/
theorem Endian.store_load (e : Endian) (bs : List UInt8) : e.store bs.length (e.load bs) = bs := by
  cases e with
  | little => exact leBytes_ofLeBytes bs
  | big =>
    have h := leBytes_ofLeBytes bs.reverse
    rw [List.length_reverse] at h
    rw [Endian.store, Endian.load, h, List.reverse_reverse]

theorem Endian.load_lt (e : Endian) (bs : List UInt8) : e.load bs < 256 ^ bs.length := by
  cases e with
  | little => exact ofLeBytes_lt bs
  | big => simpa [Endian.load] using ofLeBytes_lt bs.reverse

namespace ByteArray

variable {byteOrder : Endian} {ba ba' : ByteArray} {u d rest : List UInt8} {w : ℕ}

/-! ## The unread bytes -/

/-- The bytes between the position and the size. -/
def unread (ba : ByteArray) : List UInt8 := ba.stored ba.position ba.getReadSize

theorem Wf.unread_length (wf : ba.Wf) : ba.unread.length = ba.getReadSize :=
  wf.length_stored (length_unread wf le_rfl)

theorem Wf.ahead_unread (wf : ba.Wf) : Ahead ba ba.unread where
  le_size := by
    have hpos := wf.position_le
    rw [wf.unread_length, getReadSize]
    omega
  bytes := by
    rw [wf.unread_length]
    rfl

theorem unread_past (h : ba.unread = d ++ rest) : (ba.past d).unread = rest := by
  have hdrop := congrArg (List.drop d.length) h
  rw [List.drop_left] at hdrop
  rw [← hdrop, unread, unread, stored, stored, List.drop_take, List.drop_drop]
  congr 1
  simp only [getReadSize, past, size_moveTo, position_moveTo]
  omega

theorem Wf.past_nil (wf : ba.Wf) : ba.past [] = ba := wf.moveTo_position

theorem Wf.past (wf : ba.Wf) (h : ba.unread = d ++ rest) : (ba.past d).Wf := by
  have hahead := wf.ahead_unread
  rw [h] at hahead
  exact hahead.wf wf

/-- Nothing but the position and the current node has moved. -/
theorem past_inj {d' : List UInt8} (h : ba.past d = ba.past d') : d.length = d'.length := by
  have hpos := congrArg ByteArray.position h
  simp only [past, position_moveTo] at hpos
  omega

/-- Behind a write of `d` into a new byte array, back at the start, `d` is unread. -/
theorem Wrote.unread_back {base_size : ℕ} {heap : ℕ → UInt8} {d : List UInt8}
    (hw : Wrote (new base_size heap) ba d) : (ba.moveTo 0).unread = d := by
  have hsize : (ba.moveTo 0).getReadSize = d.length := by
    rw [getReadSize, size_moveTo, position_moveTo, hw.size]
    simp only [new]
    omega
  rw [unread, stored, hsize]
  exact hw.ahead.bytes

/-- Every sequence of bytes is the unread bytes of a reachable state: written, and gone back. -/
theorem exists_unread (byteOrder : Endian) {n : ℕ} (hn : 1 ≤ n) (hd : d.length ≤ n) :
    ∃ ba, Reachable byteOrder n ba ∧ ba.endian = .big ∧ ba.unread = d := by
  have wf := Wf.new n hn fun _ => 0
  have hfit : (new n fun _ => 0).Fits d.length := wf.fits_iff.mpr (Nat.le_add_right_of_le hd)
  obtain ⟨ba, hwrite, wf', hw⟩ := write_spec wf hfit
  have hback := hw.setPosition wf wf'
  have hstep : (machine byteOrder).step (new n fun _ => 0) (.write d) = some ba := by
    simp only [machine, Call.exec, hwrite, settle]
  have hstep' : (machine byteOrder).step ba (.setPosition (new n fun _ => 0).position) =
      some (ba.moveTo (new n fun _ => 0).position) := by
    simp only [machine, Call.exec, hback, settle]
  refine ⟨_, ⟨fun _ => 0, .snoc _ (.snoc _ .refl trivial hstep) trivial hstep'⟩, hw.endian,
    hw.unread_back⟩

/-! ## Members on the unread bytes -/

theorem readFuint8_unread (wf : ba.Wf) {b : UInt8} (h : ba.unread = b :: rest) :
    readFuint8 ba = .ok b (ba.past [b]) := by
  have hahead := wf.ahead_unread
  rw [h] at hahead
  exact readFuint8_ahead wf hahead

theorem readFuint8_nil (wf : ba.Wf) (h : ba.unread = []) :
    readFuint8 ba = .error (.outOfRange "not enough len") ba := by
  have hlen := wf.unread_length
  rw [h, List.length_nil] at hlen
  exact bind_error (read_short (by omega))

/-- **A fixed-width member** reads its bytes or nothing. -/
theorem readFixed_unread (wf : ba.Wf) {k : ℕ} (hk : 0 < k) :
    readFixed byteOrder k ba =
      if ba.unread.length < k then .error (.outOfRange "not enough len") ba
      else .ok (ba.endian.load (ba.unread.take k)) (ba.past (ba.unread.take k)) := by
  split_ifs with hshort
  · rw [wf.unread_length] at hshort
    exact bind_error (read_short hshort)
  · have hlen : (ba.unread.take k).length = k := by
      rw [List.length_take]
      omega
    have hahead := wf.ahead_unread
    rw [← List.take_append_drop k ba.unread] at hahead
    have hstore := ba.endian.store_load (ba.unread.take k)
    have hlt := ba.endian.load_lt (ba.unread.take k)
    rw [hlen] at hstore hlt
    rw [← hstore] at hahead
    have hread := readFixed_ahead byteOrder wf hk hlt hahead
    rw [hstore] at hread
    exact hread

/-- **The loop of the decoders** adds up the groups at which it looks, or runs out of bytes and has
consumed them all. -/
theorem readVarintLoop_unread (turns : ℕ) (wf : ba.Wf) (h : ba.unread = u) (i : ℕ)
    (result : BitVec w) :
    readVarintLoop turns i result ba =
      if RunsOut turns u then .error (.outOfRange "not enough len") (ba.past u)
      else .ok (result ||| BitVec.ofNat w (ofGroups (scan turns u)) <<< i)
        (ba.past (scan turns u)) := by
  induction turns generalizing ba u i result with
  | zero =>
    simp only [RunsOut, scan, ofGroups, readVarintLoop, pure_apply, wf.past_nil, if_false,
      BitVec.zero_shiftLeft, BitVec.or_zero]
  | succ turns ih =>
    cases u with
    | nil =>
      simp only [RunsOut, if_true, wf.past_nil, readVarintLoop, bind_error (readFuint8_nil wf h)]
    | cons b bs =>
      have hrest : ba.unread = [b] ++ bs := h
      have hturn := ih (wf.past hrest) (unread_past hrest) (i + 7)
        (result ||| (b &&& 0x7F).toBitVec.setWidth w <<< i)
      simp only [readVarintLoop, bind_ok (readFuint8_unread wf h), scan, RunsOut]
      by_cases hb : b < 0x80
      · simp only [hb, not_true_eq_false, false_and, if_true, if_false, pure_apply,
          setWidth_last w hb]
      · simp only [hb, not_false_eq_true, true_and, if_false, hturn, past_append,
          List.singleton_append, or_shiftLeft_ofGroups]

/-- The decoders start with an empty result. -/
theorem readVarint_unread (wf : ba.Wf) (turns w : ℕ) :
    readVarintLoop turns 0 (0 : BitVec w) ba =
      if RunsOut turns ba.unread then .error (.outOfRange "not enough len") (ba.past ba.unread)
      else .ok (BitVec.ofNat w (ofGroups (scan turns ba.unread)))
        (ba.past (scan turns ba.unread)) := by
  rw [readVarintLoop_unread turns wf rfl]
  simp only [BitVec.ofNat_eq_ofNat, BitVec.shiftLeft_zero, BitVec.zero_or]

/-! ## Failed reads -/

/-- A member that throws leaves the position, the current node and the size as they were. -/
def KeepsOnThrow {α : Type} (x : Op α) (ba : ByteArray) : Prop :=
  ∀ what ba', x ba = .error (.outOfRange what) ba' →
    ba'.position = ba.position ∧ ba'.cur = ba.cur ∧ ba'.size = ba.size

/-- The number of bytes that a member for a scalar type reads one by one. -/
def Kind.turns : Kind → ℕ
  | int32 | uint32 => 5
  | int64 | uint64 => 10
  | _ => 0

/-- The length field in front of some bytes, if they do not end before it does: its number of bytes
and the number in it. -/
def StringFormat.parse (endian : Endian) (f : StringFormat) (u : List UInt8) : Option (ℕ × ℕ) :=
  let fixed (k : ℕ) := if u.length < k then none else some (k, endian.load (u.take k))
  match f with
  | f16 => fixed 2
  | f32 => fixed 4
  | f64 => fixed 8
  | vint =>
    if RunsOut 10 u then none
    else some ((scan 10 u).length, ofGroups (scan 10 u) % 2 ^ 64)

theorem keepsOnThrow_map_iff {α β : Type} {x : Op α} {g : α → β} :
    KeepsOnThrow (g <$> x) ba ↔ KeepsOnThrow x ba := by
  simp only [KeepsOnThrow, map_eq_error_iff]

theorem keepsOnThrow_of_error {α : Type} {x : Op α} {e : Error} (h : x ba = .error e ba) :
    KeepsOnThrow x ba := by
  intro what ba' herr
  rw [h] at herr
  injection herr with _ hba
  rw [← hba]
  exact ⟨rfl, rfl, rfl⟩

theorem keepsOnThrow_of_ok {α : Type} {x : Op α} {a : α} (h : x ba = .ok a ba') :
    KeepsOnThrow x ba := by
  intro what t herr
  rw [h] at herr
  cases herr

/-- A member that throws behind some bytes has consumed them. -/
theorem keepsOnThrow_past_iff (wf : ba.Wf) {α : Type} {x : Op α} {what : String}
    (h : x ba = .error (.outOfRange what) (ba.past d)) : KeepsOnThrow x ba ↔ d = [] := by
  constructor
  · intro hkeep
    have hpos := (hkeep what _ h).1
    simp only [past, position_moveTo] at hpos
    exact List.length_eq_zero_iff.mp (by omega)
  · rintro rfl
    rw [wf.past_nil] at h
    exact keepsOnThrow_of_error h

theorem keepsOnThrow_readFixed (wf : ba.Wf) {k : ℕ} (hk : 0 < k) :
    KeepsOnThrow (readFixed byteOrder k) ba := by
  have h : readFixed byteOrder k ba = _ := readFixed_unread wf hk
  split_ifs at h
  · exact keepsOnThrow_of_error h
  · exact keepsOnThrow_of_ok h

theorem keepsOnThrow_readFuint8 (wf : ba.Wf) : KeepsOnThrow readFuint8 ba := by
  cases h : ba.unread with
  | nil => exact keepsOnThrow_of_error (readFuint8_nil wf h)
  | cons b bs => exact keepsOnThrow_of_ok (readFuint8_unread wf h)

theorem keepsOnThrow_readVarint_iff (wf : ba.Wf) (turns w : ℕ) :
    KeepsOnThrow (readVarintLoop turns 0 (0 : BitVec w)) ba ↔
      ba.unread = [] ∨ ¬ RunsOut turns ba.unread := by
  have h := readVarint_unread wf turns w
  split_ifs at h with hrun
  · rw [keepsOnThrow_past_iff wf h]
    exact (or_iff_left (not_not.mpr hrun)).symm
  · exact iff_of_true (keepsOnThrow_of_ok h) (.inr hrun)

theorem keepsOnThrow_readValue_iff (wf : ba.Wf) (k : Kind) :
    KeepsOnThrow (readValue byteOrder k) ba ↔ ba.unread = [] ∨ ¬ RunsOut k.turns ba.unread := by
  cases k with
  | fint8 | fuint8 =>
    refine iff_of_true ?_ (.inr id)
    simp only [readValue, readFint8, keepsOnThrow_map_iff]
    exact keepsOnThrow_readFuint8 wf
  | fint16 | fuint16 | fint32 | fuint32 | fint64 | fuint64 | float | double =>
    refine iff_of_true ?_ (.inr id)
    simp only [readValue, readFint16, readFuint16, readFint32, readFuint32, readFint64, readFuint64,
      readFloat, readDouble, keepsOnThrow_map_iff]
    exact keepsOnThrow_readFixed wf (by decide)
  | int32 | uint32 | int64 | uint64 =>
    simp only [readValue, readInt32, readUint32, readInt64, readUint64, keepsOnThrow_map_iff]
    exact keepsOnThrow_readVarint_iff wf _ _

/-! ## Strings -/

/-- A fixed-width length field, narrowed to its width. -/
theorem readLength_fixed (byteOrder : Endian) (wf : ba.Wf) {k : ℕ} (hk : 0 < k) {x : Op ℕ}
    (herr : ∀ e t, readFixed byteOrder k ba = .error e t → x ba = .error e t)
    (hok : ∀ v < 256 ^ k, ∀ t, readFixed byteOrder k ba = .ok v t → x ba = .ok v t) :
    if ba.unread.length < k then x ba = .error (.outOfRange "not enough len") ba
    else x ba = .ok (ba.endian.load (ba.unread.take k)) (ba.past (ba.unread.take k)) := by
  have h : readFixed byteOrder k ba = _ := readFixed_unread wf hk
  split_ifs at h ⊢ with hshort
  · exact herr _ _ h
  · refine hok _ ?_ _ h
    have hlt := ba.endian.load_lt (ba.unread.take k)
    rwa [List.length_take, min_eq_left (not_lt.mp hshort)] at hlt

/-- The number of bytes of a fixed-width length field. -/
def StringFormat.width : StringFormat → ℕ
  | f16 => 2
  | f32 => 4
  | f64 => 8
  | vint => 0

theorem readLength_unread_fixed (wf : ba.Wf) {f : StringFormat} (hf : f ≠ .vint) :
    if ba.unread.length < f.width then
      readLength byteOrder f ba = .error (.outOfRange "not enough len") ba
    else
      readLength byteOrder f ba =
        .ok (ba.endian.load (ba.unread.take f.width)) (ba.past (ba.unread.take f.width)) := by
  cases f with
  | f16 =>
    refine readLength_fixed byteOrder wf (by decide) (fun e t h => ?_) fun v hv t h => ?_
    · exact map_eq_error_iff.mpr (map_eq_error_iff.mpr h)
    · exact map_eq_ok_iff.mpr ⟨_, map_eq_ok_iff.mpr ⟨_, h, rfl⟩, UInt16.toNat_ofNat_of_lt' hv⟩
  | f32 =>
    refine readLength_fixed byteOrder wf (by decide) (fun e t h => ?_) fun v hv t h => ?_
    · exact map_eq_error_iff.mpr (map_eq_error_iff.mpr h)
    · exact map_eq_ok_iff.mpr ⟨_, map_eq_ok_iff.mpr ⟨_, h, rfl⟩, UInt32.toNat_ofNat_of_lt' hv⟩
  | f64 =>
    refine readLength_fixed byteOrder wf (by decide) (fun e t h => ?_) fun v hv t h => ?_
    · exact map_eq_error_iff.mpr (map_eq_error_iff.mpr h)
    · exact map_eq_ok_iff.mpr ⟨_, map_eq_ok_iff.mpr ⟨_, h, rfl⟩, UInt64.toNat_ofNat_of_lt' hv⟩
  | vint => exact absurd rfl hf

theorem readUint64_unread (wf : ba.Wf) :
    (UInt64.toNat <$> readUint64) ba =
      if RunsOut 10 ba.unread then .error (.outOfRange "not enough len") (ba.past ba.unread)
      else .ok (ofGroups (scan 10 ba.unread) % 2 ^ 64) (ba.past (scan 10 ba.unread)) := by
  have h := readVarint_unread wf 10 64
  split_ifs at h ⊢ with hrun
  · exact map_eq_error_iff.mpr (map_eq_error_iff.mpr h)
  · exact map_eq_ok_iff.mpr ⟨_, map_eq_ok_iff.mpr ⟨_, h, rfl⟩, BitVec.toNat_ofNat _ _⟩

/-- A member for strings stops where its length field does. -/
theorem readString_error {e : Error} {f : StringFormat}
    (h : readLength byteOrder f ba = .error e ba') : readString byteOrder f ba = .error e ba' := by
  cases f with
  | f16 | f32 | f64 | vint => exact bind_error (map_eq_error_iff.mp h)

/-- A string behind a length field that has been read. -/
theorem keepsOnThrow_readString_iff (wf : ba.Wf) {f : StringFormat} {n : ℕ}
    (h : ba.unread = d ++ rest) (hd : 0 < d.length)
    (hlength : readLength byteOrder f ba = .ok n (ba.past d)) :
    KeepsOnThrow (readString byteOrder f) ba ↔ n ≤ rest.length := by
  have wf' := wf.past h
  have hrest := wf'.unread_length
  rw [unread_past h] at hrest
  have hread := readString_eq f ba hlength
  constructor
  · intro hkeep
    by_contra hlt
    rw [read_short (by omega)] at hread
    obtain rfl := (keepsOnThrow_past_iff wf hread).mp hkeep
    exact absurd hd (Nat.lt_irrefl 0)
  · intro hle what ba' herr
    rw [hread] at herr
    -- nothing is missing, so the only way to stop is a null pointer
    rcases wf'.position_le_capacity.lt_or_eq with hlt | heq
    · rw [read_spec wf' (by omega) hlt] at herr
      cases herr
    · rw [read_fault wf' (by omega) heq] at herr
      cases herr

/-- What has to be there for a failed read of a string to consume nothing: of a length field in
groups of seven bits all bytes or none, and behind a whole length field the string. -/
def StringFormat.Safe (endian : Endian) (f : StringFormat) (u : List UInt8) : Prop :=
  match f.parse endian u with
  | none => f = .vint → u = []
  | some (k, n) => k + n ≤ u.length

instance (endian : Endian) (f : StringFormat) (u : List UInt8) : Decidable (f.Safe endian u) := by
  unfold StringFormat.Safe
  split <;> infer_instance

theorem keepsOnThrow_string_iff (wf : ba.Wf) (f : StringFormat) :
    KeepsOnThrow (readString byteOrder f) ba ↔ f.Safe ba.endian ba.unread := by
  by_cases hf : f = .vint
  · subst hf
    have h : readLength byteOrder .vint ba = _ := readUint64_unread wf
    unfold StringFormat.Safe StringFormat.parse
    by_cases hrun : RunsOut 10 ba.unread
    · rw [if_pos hrun] at h
      simp only [if_pos hrun, true_imp_iff]
      exact keepsOnThrow_past_iff wf (readString_error h)
    · rw [if_neg hrun] at h
      simp only [if_neg hrun]
      obtain ⟨rest, hrest⟩ := scan_isInitial 10 ba.unread
      rw [keepsOnThrow_readString_iff wf hrest.symm (length_scan_pos hrun) h]
      have hlen := congrArg List.length hrest
      rw [List.length_append] at hlen
      omega
  · have h := @readLength_unread_fixed byteOrder ba wf f hf
    have hparse : f.parse ba.endian ba.unread =
        if ba.unread.length < f.width then none
        else some (f.width, ba.endian.load (ba.unread.take f.width)) := by
      cases f with
      | f16 | f32 | f64 => rfl
      | vint => exact absurd rfl hf
    have hwidth : 0 < f.width := by
      cases f with
      | f16 | f32 | f64 => exact Nat.succ_pos _
      | vint => exact absurd rfl hf
    unfold StringFormat.Safe
    rw [hparse]
    by_cases hshort : ba.unread.length < f.width
    · rw [if_pos hshort] at h ⊢
      exact iff_of_true (keepsOnThrow_of_error (readString_error h)) fun hvint => absurd hvint hf
    · rw [if_neg hshort] at h ⊢
      have htake : (ba.unread.take f.width).length = f.width := by
        rw [List.length_take, min_eq_left (not_lt.mp hshort)]
      rw [keepsOnThrow_readString_iff wf (List.take_append_drop f.width ba.unread).symm (by omega)
          h,
        List.length_drop]
      simp only
      omega

/-- **Failed reads**: in every reachable state, a typed member that throws has consumed nothing
exactly if the unread bytes are not some, but fewer than it looks at, and all with the continuation
bit; a member for strings exactly under `StringFormat.Safe`. -/
theorem failed_read_keeps_iff {base_size : ℕ} (hb : 1 ≤ base_size)
    (h : Reachable byteOrder base_size ba) :
    (∀ k : Kind, KeepsOnThrow (readValue byteOrder k) ba ↔
      ba.unread = [] ∨ ¬ RunsOut k.turns ba.unread) ∧
    ∀ f : StringFormat, KeepsOnThrow (readString byteOrder f) ba ↔
      f.Safe ba.endian ba.unread := by
  have wf := h.wf hb
  exact ⟨keepsOnThrow_readValue_iff wf, keepsOnThrow_string_iff wf⟩

theorem failed_read_keeps_iff_groups : ∃ ba, ba.unread = [0x80, 0x80] ∧
    (∀ k : Kind, KeepsOnThrow (readValue .little k) ba ↔
      ba.unread = [] ∨ ¬ RunsOut k.turns ba.unread) ∧
    ∀ f : StringFormat, KeepsOnThrow (readString .little f) ba ↔ f.Safe ba.endian ba.unread := by
  obtain ⟨ba, hba, -, hunread⟩ := exists_unread .little (n := 4) (d := [0x80, 0x80]) (by decide)
    (by decide)
  exact ⟨ba, hunread, failed_read_keeps_iff (by decide) hba⟩

/-- Two groups of a number without the last one are consumed by `readUint32`, and a length field
without its string by `readStringF16`. -/
theorem cut_short_consumed :
    (∃ ba, Reachable .little 4 ba ∧ ba.unread = [0x80, 0x80] ∧
      ¬ KeepsOnThrow (readValue .little .uint32) ba) ∧
    ∃ ba, Reachable .little 4 ba ∧ ba.unread = [0, 3, 7] ∧
      ¬ KeepsOnThrow (readString .little .f16) ba := by
  obtain ⟨ba, hba, -, hvarint⟩ := exists_unread .little (n := 4) (d := [0x80, 0x80]) (by decide)
    (by decide)
  obtain ⟨ba', hba', hend, hstring⟩ := exists_unread .little (n := 4) (d := [0, 3, 7]) (by decide)
    (by decide)
  refine ⟨⟨ba, hba, hvarint, ?_⟩, ⟨ba', hba', hstring, ?_⟩⟩
  · rw [keepsOnThrow_readValue_iff (hba.wf (by decide)), hvarint]
    decide
  · rw [keepsOnThrow_string_iff (hba'.wf (by decide)), hstring, hend]
    decide

/-! ## Decoders -/

variable {turns : ℕ}

/-- The bytes `pre` are a number of at most `turns` bytes that fits in `w` bits. -/
def Decodable (turns w : ℕ) (pre : List UInt8) : Prop :=
  IsVarint pre ∧ pre.length ≤ turns ∧ ofGroups pre < 2 ^ w

/-- A member returns exactly on the numbers in front of the unread bytes, with the number, behind
it; on all other bytes it throws. -/
def AcceptsVarints (turns w : ℕ) (x : Op ℕ) (ba : ByteArray) : Prop :=
  (∀ v ba', x ba = .ok v ba' ↔
    ∃ pre, pre <+: ba.unread ∧ Decodable turns w pre ∧ v = ofGroups pre ∧ ba' = ba.past pre) ∧
  ((¬ ∃ pre, pre <+: ba.unread ∧ Decodable turns w pre) →
    ∃ what ba', x ba = .error (.outOfRange what) ba')

/-- No number is longer than the decoder looks, and none that it sees is too large. -/
def Regular (turns w : ℕ) (u : List UInt8) : Prop :=
  (∀ pre, pre <+: u → pre.length = turns → ∃ b ∈ pre, b < 0x80) ∧
  ∀ pre, pre <+: u → IsVarint pre → pre.length ≤ turns → ofGroups pre < 2 ^ w

theorem past_scan_inj {pre : List UInt8} (hpre : pre <+: ba.unread)
    (h : ba.past (scan turns ba.unread) = ba.past pre) : scan turns ba.unread = pre :=
  have hpast := past_inj h
  (List.prefix_of_prefix_length_le (scan_isInitial turns ba.unread) hpre hpast.le).eq_of_length
    hpast

/-- A decoder that behaves as the loop does, on the number it adds up. -/
theorem acceptsVarints_iff {x : Op ℕ} (h : x ba =
    if RunsOut turns ba.unread then .error (.outOfRange "not enough len") (ba.past ba.unread)
    else .ok (ofGroups (scan turns ba.unread) % 2 ^ w) (ba.past (scan turns ba.unread))) :
    AcceptsVarints turns w x ba ↔ Regular turns w ba.unread := by
  constructor
  · rintro ⟨hok, -⟩
    -- what the loop has looked at is a number, if the decoder is exact
    have hexact : ¬ RunsOut turns ba.unread → Decodable turns w (scan turns ba.unread) := by
      intro hrun
      rw [if_neg hrun] at h
      obtain ⟨pre, hpre, hdec, -, hpast⟩ := (hok _ _).mp h
      rwa [past_scan_inj hpre hpast]
    refine ⟨fun pre hpre hlen => ?_, fun pre hpre hvar hle => ?_⟩
    · obtain ⟨rest, hrest⟩ := hpre
      by_contra hmore
      obtain ⟨hscan, hrun, hvar⟩ : scan turns (pre ++ rest) = pre ∧ _ ∧ _ :=
        scan_of_overlong hlen fun b hb hlt => hmore ⟨b, hb, hlt⟩
      rw [hrest] at hscan hrun
      rw [← hscan] at hvar
      exact hvar (hexact hrun).1
    · obtain ⟨rest, hrest⟩ := hpre
      obtain ⟨hscan, hrun⟩ : scan turns (pre ++ rest) = pre ∧ _ := scan_of_isVarint hvar hle
      rw [hrest] at hscan hrun
      rw [← hscan]
      exact (hexact hrun).2.2
  · rintro ⟨hlong, hlarge⟩
    refine ⟨fun v ba' => ⟨fun hv => ?_, ?_⟩, fun hnone => ?_⟩
    · rw [h] at hv
      split_ifs at hv with hrun
      injection hv with hv hba
      have hpre := scan_isInitial turns ba.unread
      have hvar : IsVarint (scan turns ba.unread) := by
        rcases scan_cases hrun with hvar | ⟨hlen, hmore⟩
        · exact hvar
        · obtain ⟨b, hb, hlt⟩ := hlong _ hpre hlen
          exact absurd hlt (hmore b hb)
      have hle := length_scan_le turns ba.unread
      have hfit := hlarge _ hpre hvar hle
      rw [Nat.mod_eq_of_lt hfit] at hv
      exact ⟨_, hpre, ⟨hvar, hle, hfit⟩, hv.symm, hba.symm⟩
    · rintro ⟨pre, ⟨rest, hrest⟩, ⟨hvar, hle, hfit⟩, rfl, rfl⟩
      obtain ⟨hscan, hrun⟩ : scan turns (pre ++ rest) = pre ∧ _ := scan_of_isVarint hvar hle
      rw [hrest] at hscan hrun
      rw [h, if_neg hrun, hscan, Nat.mod_eq_of_lt hfit]
    · by_cases hrun : RunsOut turns ba.unread
      · rw [if_pos hrun] at h
        exact ⟨_, _, h⟩
      · -- the loop stops only on a number, or on more groups than it looks at
        exfalso
        have hpre := scan_isInitial turns ba.unread
        rcases scan_cases hrun with hvar | ⟨hlen, hmore⟩
        · have hle := length_scan_le turns ba.unread
          exact hnone ⟨_, hpre, hvar, hle, hlarge _ hpre hvar hle⟩
        · obtain ⟨b, hb, hlt⟩ := hlong _ hpre hlen
          exact hmore b hb hlt

theorem readUint32_unread (wf : ba.Wf) :
    (UInt32.toNat <$> readUint32) ba =
      if RunsOut 5 ba.unread then .error (.outOfRange "not enough len") (ba.past ba.unread)
      else .ok (ofGroups (scan 5 ba.unread) % 2 ^ 32) (ba.past (scan 5 ba.unread)) := by
  have h := readVarint_unread wf 5 32
  split_ifs at h ⊢ with hrun
  · exact map_eq_error_iff.mpr (map_eq_error_iff.mpr h)
  · exact map_eq_ok_iff.mpr ⟨_, map_eq_ok_iff.mpr ⟨_, h, rfl⟩, BitVec.toNat_ofNat _ _⟩

/-- **The decoders** are exact on the regular bytes and on no others. -/
theorem varint_decoders_iff {base_size : ℕ} (hb : 1 ≤ base_size)
    (h : Reachable byteOrder base_size ba) :
    (AcceptsVarints 5 32 (UInt32.toNat <$> readUint32) ba ↔ Regular 5 32 ba.unread) ∧
      (AcceptsVarints 10 64 (UInt64.toNat <$> readUint64) ba ↔ Regular 10 64 ba.unread) :=
  ⟨acceptsVarints_iff (readUint32_unread (h.wf hb)),
    acceptsVarints_iff (readUint64_unread (h.wf hb))⟩

theorem varint_decoders_iff_short : ∃ ba, ba.unread = [0xAC, 0x02] ∧
    (AcceptsVarints 5 32 (UInt32.toNat <$> readUint32) ba ↔ Regular 5 32 ba.unread) ∧
      (AcceptsVarints 10 64 (UInt64.toNat <$> readUint64) ba ↔ Regular 10 64 ba.unread) := by
  obtain ⟨ba, hba, -, hunread⟩ := exists_unread .little (n := 4) (d := [0xAC, 0x02]) (by decide)
    (by decide)
  exact ⟨ba, hunread, varint_decoders_iff (by decide) hba⟩

/-- Five groups with the continuation bit are read as 0, with the sixth left unread; a number of 35
bits is read without its high bits, and one of 70 bits by `readUint64`. -/
theorem malformed_accepted :
    (∃ ba, Reachable .little 8 ba ∧ ba.unread = [0x80, 0x80, 0x80, 0x80, 0x80, 0] ∧
      (UInt32.toNat <$> readUint32) ba = .ok 0 (ba.past [0x80, 0x80, 0x80, 0x80, 0x80]) ∧
      ¬ AcceptsVarints 5 32 (UInt32.toNat <$> readUint32) ba) ∧
    (∃ ba, Reachable .little 8 ba ∧ ba.unread = [0x80, 0x80, 0x80, 0x80, 0x70] ∧
      (UInt32.toNat <$> readUint32) ba = .ok 0 (ba.past [0x80, 0x80, 0x80, 0x80, 0x70])) ∧
    ∃ ba, Reachable .little 16 ba ∧ ba.unread = List.replicate 9 0x80 ++ [0x7E] ∧
      (UInt64.toNat <$> readUint64) ba = .ok 0 (ba.past (List.replicate 9 0x80 ++ [0x7E])) := by
  obtain ⟨ba₁, h₁, -, hu₁⟩ := exists_unread .little (n := 8)
    (d := [0x80, 0x80, 0x80, 0x80, 0x80, 0]) (by decide) (by decide)
  obtain ⟨ba₂, h₂, -, hu₂⟩ := exists_unread .little (n := 8)
    (d := [0x80, 0x80, 0x80, 0x80, 0x70]) (by decide) (by decide)
  obtain ⟨ba₃, h₃, -, hu₃⟩ := exists_unread .little (n := 16)
    (d := List.replicate 9 0x80 ++ [0x7E]) (by decide) (by decide)
  have hread₁ := readUint32_unread (h₁.wf (by decide))
  have hread₂ := readUint32_unread (h₂.wf (by decide))
  have hread₃ := readUint64_unread (h₃.wf (by decide))
  rw [hu₁, if_neg (by decide)] at hread₁
  rw [hu₂, if_neg (by decide)] at hread₂
  rw [hu₃, if_neg (by decide)] at hread₃
  refine ⟨⟨ba₁, h₁, hu₁, hread₁, ?_⟩, ⟨ba₂, h₂, hu₂, hread₂⟩, ⟨ba₃, h₃, hu₃, hread₃⟩⟩
  rw [acceptsVarints_iff (readUint32_unread (h₁.wf (by decide))), hu₁]
  rintro ⟨hlong, -⟩
  obtain ⟨b, hb, hlt⟩ := hlong [0x80, 0x80, 0x80, 0x80, 0x80] ⟨[0], rfl⟩ rfl
  have hhigh : ∀ b ∈ ([0x80, 0x80, 0x80, 0x80, 0x80] : List UInt8), ¬ b < 0x80 := by
    decide +kernel
  exact hhigh b hb hlt

end ByteArray

end Sylar

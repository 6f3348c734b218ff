import Sylar.ByteArray.Invariant
import Sylar.Foundation.Codec
import Sylar.Foundation.Transition

/-!
# The typed members of the byte array

Fixed-width integers in the byte order `m_endian`, variable-length integers in groups of seven
bits, floating-point numbers as their bit patterns, and strings behind a length. `byteOrder` is
`SYLAR_BYTE_ORDER`, the byte order of the machine: it decides both how `memcpy` lays an integer
out and when its bytes are swapped.

## Main definitions

* `writeFixed`, `readFixed`: the fixed-width members
* `encodeZigzag32`, `varintLoop`, `readVarintLoop`: the variable-length members
* `Call`, `machine`: the public members as the actions of a machine
* `Reachable`: the states some sequence of public members reaches from a new byte array

## Main results

* `Reachable.wf`: every reachable state has the invariant
-/

namespace Sylar

open Foundation

/-- The bytes of a `k`-byte integer in memory. -/
def Endian.store : Endian → ℕ → ℕ → List UInt8
  | .little, k, v => leBytes k v
  | .big, k, v => (leBytes k v).reverse

/-- The integer with the given bytes in memory. -/
def Endian.load : Endian → List UInt8 → ℕ
  | .little, bs => ofLeBytes bs
  | .big, bs => ofLeBytes bs.reverse

namespace ByteArray

section Typed

variable (byteOrder : Endian)

/-! ## Fixed width -/

/-- The `k`-byte members of `writeFint16` to `writeFuint64`. -/
def writeFixed (k value : ℕ) : Op Unit := do
  let ba ← get
  write (byteOrder.store k (if ba.endian ≠ byteOrder then swapBytes k value else value))

/-- The `k`-byte members of `readFint16` to `readFuint64`. -/
def readFixed (k : ℕ) : Op ℕ := do
  let buf ← read k
  let ba ← get
  let v := byteOrder.load buf
  return if ba.endian = byteOrder then v else swapBytes k v

def writeFint8 (value : Int8) : Op Unit := write [value.toUInt8]

def writeFuint8 (value : UInt8) : Op Unit := write [value]

def writeFint16 (value : Int16) : Op Unit := writeFixed byteOrder 2 value.toUInt16.toNat

def writeFuint16 (value : UInt16) : Op Unit := writeFixed byteOrder 2 value.toNat

def writeFint32 (value : Int32) : Op Unit := writeFixed byteOrder 4 value.toUInt32.toNat

def writeFuint32 (value : UInt32) : Op Unit := writeFixed byteOrder 4 value.toNat

def writeFint64 (value : Int64) : Op Unit := writeFixed byteOrder 8 value.toUInt64.toNat

def writeFuint64 (value : UInt64) : Op Unit := writeFixed byteOrder 8 value.toNat

def readFuint8 : Op UInt8 := do
  let buf ← read 1
  return buf.headD 0

def readFint8 : Op Int8 := UInt8.toInt8 <$> readFuint8

def readFuint16 : Op UInt16 := UInt16.ofNat <$> readFixed byteOrder 2

def readFint16 : Op Int16 := UInt16.toInt16 <$> readFuint16 byteOrder

def readFuint32 : Op UInt32 := UInt32.ofNat <$> readFixed byteOrder 4

def readFint32 : Op Int32 := UInt32.toInt32 <$> readFuint32 byteOrder

def readFuint64 : Op UInt64 := UInt64.ofNat <$> readFixed byteOrder 8

def readFint64 : Op Int64 := UInt64.toInt64 <$> readFuint64 byteOrder

/-! ## Variable length -/

/-- `EncodeZigzag32`, with two's-complement wraparound. -/
def encodeZigzag32 (v : Int32) : UInt32 := if v < 0 then (-v).toUInt32 * 2 - 1 else (v * 2).toUInt32

def encodeZigzag64 (v : Int64) : UInt64 := if v < 0 then (-v).toUInt64 * 2 - 1 else (v * 2).toUInt64

def decodeZigzag32 (v : UInt32) : Int32 := (v >>> 1 ^^^ -(v &&& 1)).toInt32

def decodeZigzag64 (v : UInt64) : Int64 := (v >>> 1 ^^^ -(v &&& 1)).toInt64

/-- The loop that fills `tmp`, of which `room` bytes are left: nothing when it stores past the
end of `tmp`. -/
def varintLoop {w : ℕ} : ℕ → BitVec w → Option (List UInt8)
  -- the array is full
  | 0, _ => none
  | room + 1, value =>
    if 0x80 ≤ value.toNat then
      (varintLoop room (value >>> 7)).map (moreGroup value :: ·)
    else
      some [⟨value.setWidth 8⟩]

/-- `writeUint32` and `writeUint64`, on a `tmp` of `room` bytes. -/
def writeVarint {w : ℕ} (room : ℕ) (value : BitVec w) : Op Unit :=
  match varintLoop room value with
  | none => throw .overrun
  | some tmp => write tmp

def writeUint32 (value : UInt32) : Op Unit := writeVarint 5 value.toBitVec

def writeInt32 (value : Int32) : Op Unit := writeUint32 (encodeZigzag32 value)

def writeUint64 (value : UInt64) : Op Unit := writeVarint 10 value.toBitVec

def writeInt64 (value : Int64) : Op Unit := writeUint64 (encodeZigzag64 value)

/-- The loop of `readUint32` and `readUint64` from the shift `i` on, for at most `turns` bytes. -/
def readVarintLoop {w : ℕ} : ℕ → ℕ → BitVec w → Op (BitVec w)
  -- the shift has reached the width: the loop ends without a last byte
  | 0, _, result => return result
  | turns + 1, i, result => do
    let b ← readFuint8
    if b < 0x80 then
      return result ||| b.toBitVec.setWidth w <<< i
    else
      readVarintLoop turns (i + 7) (result ||| (b &&& 0x7F).toBitVec.setWidth w <<< i)

/-- The shifts 0, 7, 14, 21 and 28 are below 32. -/
def readUint32 : Op UInt32 := UInt32.ofBitVec <$> readVarintLoop 5 0 0

def readInt32 : Op Int32 := decodeZigzag32 <$> readUint32

/-- The shifts 0, 7, …, 63 are below 64. -/
def readUint64 : Op UInt64 := UInt64.ofBitVec <$> readVarintLoop 10 0 0

def readInt64 : Op Int64 := decodeZigzag64 <$> readUint64

/-! ## Floating point -/

/-- `writeFloat`, on the bit pattern. -/
def writeFloat (value : UInt32) : Op Unit := writeFuint32 byteOrder value

/-- `writeDouble`, on the bit pattern. -/
def writeDouble (value : UInt64) : Op Unit := writeFuint64 byteOrder value

def readFloat : Op UInt32 := readFuint32 byteOrder

def readDouble : Op UInt64 := readFuint64 byteOrder

/-! ## Strings -/

def writeStringF16 (value : List UInt8) : Op Unit := do
  writeFuint16 byteOrder (UInt16.ofNat value.length)
  write value

def writeStringF32 (value : List UInt8) : Op Unit := do
  writeFuint32 byteOrder (UInt32.ofNat value.length)
  write value

def writeStringF64 (value : List UInt8) : Op Unit := do
  writeFuint64 byteOrder (UInt64.ofNat value.length)
  write value

def writeStringVint (value : List UInt8) : Op Unit := do
  writeUint64 (UInt64.ofNat value.length)
  write value

def writeStringWithoutLength (value : List UInt8) : Op Unit := write value

def readStringF16 : Op (List UInt8) := do
  let len ← readFuint16 byteOrder
  read len.toNat

def readStringF32 : Op (List UInt8) := do
  let len ← readFuint32 byteOrder
  read len.toNat

def readStringF64 : Op (List UInt8) := do
  let len ← readFuint64 byteOrder
  read len.toNat

def readStringVint : Op (List UInt8) := do
  let len ← readUint64
  read len.toNat

/-! ## Runs of public members -/

/-- The scalar types of the typed members. -/
inductive Kind
  | fint8 | fuint8 | fint16 | fuint16 | fint32 | fuint32 | fint64 | fuint64
  | int32 | uint32 | int64 | uint64
  | float | double
  deriving DecidableEq, Repr

/-- A value of a scalar type; a floating-point number is its bit pattern. -/
inductive Value
  | fint8 (v : Int8) | fuint8 (v : UInt8)
  | fint16 (v : Int16) | fuint16 (v : UInt16)
  | fint32 (v : Int32) | fuint32 (v : UInt32)
  | fint64 (v : Int64) | fuint64 (v : UInt64)
  | int32 (v : Int32) | uint32 (v : UInt32)
  | int64 (v : Int64) | uint64 (v : UInt64)
  | float (v : UInt32) | double (v : UInt64)
  deriving DecidableEq

def Value.kind : Value → Kind
  | fint8 _ => .fint8
  | fuint8 _ => .fuint8
  | fint16 _ => .fint16
  | fuint16 _ => .fuint16
  | fint32 _ => .fint32
  | fuint32 _ => .fuint32
  | fint64 _ => .fint64
  | fuint64 _ => .fuint64
  | int32 _ => .int32
  | uint32 _ => .uint32
  | int64 _ => .int64
  | uint64 _ => .uint64
  | float _ => .float
  | double _ => .double

/-- The member that writes a value. -/
def writeValue : Value → Op Unit
  | .fint8 v => writeFint8 v
  | .fuint8 v => writeFuint8 v
  | .fint16 v => writeFint16 byteOrder v
  | .fuint16 v => writeFuint16 byteOrder v
  | .fint32 v => writeFint32 byteOrder v
  | .fuint32 v => writeFuint32 byteOrder v
  | .fint64 v => writeFint64 byteOrder v
  | .fuint64 v => writeFuint64 byteOrder v
  | .int32 v => writeInt32 v
  | .uint32 v => writeUint32 v
  | .int64 v => writeInt64 v
  | .uint64 v => writeUint64 v
  | .float v => writeFloat byteOrder v
  | .double v => writeDouble byteOrder v

/-- The member that reads a value of a type. -/
def readValue : Kind → Op Value
  | .fint8 => .fint8 <$> readFint8
  | .fuint8 => .fuint8 <$> readFuint8
  | .fint16 => .fint16 <$> readFint16 byteOrder
  | .fuint16 => .fuint16 <$> readFuint16 byteOrder
  | .fint32 => .fint32 <$> readFint32 byteOrder
  | .fuint32 => .fuint32 <$> readFuint32 byteOrder
  | .fint64 => .fint64 <$> readFint64 byteOrder
  | .fuint64 => .fuint64 <$> readFuint64 byteOrder
  | .int32 => .int32 <$> readInt32
  | .uint32 => .uint32 <$> readUint32
  | .int64 => .int64 <$> readInt64
  | .uint64 => .uint64 <$> readUint64
  | .float => .float <$> readFloat byteOrder
  | .double => .double <$> readDouble byteOrder

/-- The formats of a string. -/
inductive StringFormat
  | f16 | f32 | f64 | vint
  deriving DecidableEq, Repr

/-- The member that writes a string in a format. -/
def writeString : StringFormat → List UInt8 → Op Unit
  | .f16, value => writeStringF16 byteOrder value
  | .f32, value => writeStringF32 byteOrder value
  | .f64, value => writeStringF64 byteOrder value
  | .vint, value => writeStringVint value

/-- The member that reads a string in a format. -/
def readString : StringFormat → Op (List UInt8)
  | .f16 => readStringF16 byteOrder
  | .f32 => readStringF32 byteOrder
  | .f64 => readStringF64 byteOrder
  | .vint => readStringVint

/-- A call of a public member that is not `const`; the others leave the state as it is. -/
inductive Call
  | value (v : Value)
  | readValue (k : Kind)
  | string (f : StringFormat) (value : List UInt8)
  | readString (f : StringFormat)
  | stringWithoutLength (value : List UInt8)
  | clear
  | write (buf : List UInt8)
  | read (size : ℕ)
  | setPosition (v : ℕ)
  | readFromFile (file : Option (List UInt8))
  | setIsLittleEndian (val : Bool)
  | getWriteBuffers (len : ℕ)

/-- What a call does to the state. -/
def Call.exec : Call → Op Unit
  | .value v => writeValue byteOrder v
  | .readValue k => discard (ByteArray.readValue byteOrder k)
  | .string f s => writeString byteOrder f s
  | .readString f => discard (ByteArray.readString byteOrder f)
  | .stringWithoutLength s => writeStringWithoutLength s
  | .clear => ByteArray.clear
  | .write buf => ByteArray.write buf
  | .read size => discard (ByteArray.read size)
  | .setPosition v => ByteArray.setPosition v
  | .readFromFile file => discard (ByteArray.readFromFile file)
  | .setIsLittleEndian val => ByteArray.setIsLittleEndian val
  | .getWriteBuffers len => discard (ByteArray.getWriteBuffers len)

/-- The machine of the public members. A caught exception leaves a state to go on from. -/
def machine : Machine ByteArray Call where
  step ba c := settle Error.fatal (c.exec byteOrder ba)

/-- The states that some sequence of public members reaches from a new byte array. -/
def Reachable (base_size : ℕ) (ba : ByteArray) : Prop :=
  ∃ heap, (machine byteOrder).Reaches (new base_size heap) ba

variable {byteOrder}

/-! ## The invariant of runs -/

theorem sustains_writeFixed (k value : ℕ) :
    Sustains Error.fatal Wf (writeFixed byteOrder k value) :=
  .get_bind fun _ => sustains_write _

theorem sustains_readFixed (k : ℕ) : Sustains Error.fatal Wf (readFixed byteOrder k) :=
  (sustains_read k).bind fun _ => .get_bind fun _ => .pure _

theorem sustains_readFuint8 : Sustains Error.fatal Wf readFuint8 :=
  (sustains_read 1).bind fun _ => .pure _

theorem sustains_writeVarint {w : ℕ} (room : ℕ) (value : BitVec w) :
    Sustains Error.fatal Wf (writeVarint room value) := by
  unfold writeVarint
  split
  · exact .throw _
  · exact sustains_write _

theorem sustains_readVarintLoop {w : ℕ} (turns i : ℕ) (result : BitVec w) :
    Sustains Error.fatal Wf (readVarintLoop turns i result) := by
  induction turns generalizing i result with
  | zero => exact .pure _
  | succ turns ih => exact sustains_readFuint8.bind fun b => .ite (.pure _) (ih _ _)

theorem sustains_writeValue (v : Value) : Sustains Error.fatal Wf (writeValue byteOrder v) := by
  cases v with
  | fint8 v => exact sustains_write [v.toUInt8]
  | fuint8 v => exact sustains_write [v]
  | fint16 | fuint16 | fint32 | fuint32 | fint64 | fuint64 | float | double =>
    exact sustains_writeFixed _ _
  | int32 | uint32 | int64 | uint64 => exact sustains_writeVarint _ _

theorem sustains_readUint64 : Sustains Error.fatal Wf readUint64 :=
  (sustains_readVarintLoop _ _ _).map _

theorem sustains_readValue (k : Kind) : Sustains Error.fatal Wf (readValue byteOrder k) := by
  cases k with
  | fint8 => exact (sustains_readFuint8.map _).map _
  | fuint8 => exact sustains_readFuint8.map _
  | fint16 | fint32 | fint64 => exact (((sustains_readFixed _).map _).map _).map _
  | fuint16 | fuint32 | fuint64 | float | double => exact ((sustains_readFixed _).map _).map _
  | int32 | int64 => exact (((sustains_readVarintLoop _ _ _).map _).map _).map _
  | uint32 | uint64 => exact ((sustains_readVarintLoop _ _ _).map _).map _

theorem sustains_writeString (f : StringFormat) (value : List UInt8) :
    Sustains Error.fatal Wf (writeString byteOrder f value) := by
  cases f with
  | f16 | f32 | f64 => exact (sustains_writeFixed _ _).bind fun _ => sustains_write _
  | vint => exact (sustains_writeVarint _ _).bind fun _ => sustains_write _

theorem sustains_readString (f : StringFormat) :
    Sustains Error.fatal Wf (readString byteOrder f) := by
  cases f with
  | f16 | f32 | f64 => exact ((sustains_readFixed _).map _).bind fun _ => sustains_read _
  | vint => exact sustains_readUint64.bind fun _ => sustains_read _

theorem sustains_exec (c : Call) : Sustains Error.fatal Wf (c.exec byteOrder) := by
  cases c with
  | value v => exact sustains_writeValue v
  | readValue k => exact (sustains_readValue k).map _
  | string f value => exact sustains_writeString f value
  | readString f => exact (sustains_readString f).map _
  | stringWithoutLength value => exact sustains_write value
  | clear => exact sustains_clear
  | write buf => exact sustains_write buf
  | read size => exact (sustains_read size).map _
  | setPosition v => exact sustains_setPosition v
  | readFromFile file => exact (sustains_readFromFile file).map _
  | setIsLittleEndian val => exact sustains_setIsLittleEndian val
  | getWriteBuffers len => exact (sustains_getWriteBuffers len).map _

/-- **Every reachable state has the invariant.** -/
theorem Reachable.wf {base_size : ℕ} {ba : ByteArray} (h : Reachable byteOrder base_size ba)
    (hb : 0 < base_size) : ba.Wf := by
  obtain ⟨heap, hreach⟩ := h
  exact hreach.invariant (Wf.new base_size hb heap) fun s c t wf _ hstep =>
    sustains_exec c s wf t hstep

end Typed

end ByteArray

end Sylar

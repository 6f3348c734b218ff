import Sylar.Foundation.Bits

/-!
# IP addresses

An address is stored as the kernel has it, in network byte order: four bytes that are read as one
word, or an array of sixteen bytes. The subnet functions build a host mask, with the bits behind
the prefix set, and combine it with the address.

The machine is little-endian. A shift of an `int` by its width, a difference that is no `int`, and
a byte past the end of an array have no behaviour: such a call leads nowhere.

## Main definitions

* `createMask`: the host mask, in the arithmetic of `int`
* `IPv4Address`, `IPv6Address`: the addresses, with `broadcastAddress`, `networkAddress` and
  `subnetMask`
-/

namespace Sylar

open Foundation

namespace Address

/-! ## Masks -/

/-- `byteswapOnLittleEndian`, on a word of four bytes. -/
def byteswapOnLittleEndian (t : BitVec 32) : BitVec 32 := bswap32 t

/-- `1 << count`, as an `int`. -/
def intShl (count : ℕ) : Option Int :=
  if count < 32 then some ((2 ^ count : Int).bmod (2 ^ 32)) else none

/-- `n - 1`, as an `int`. -/
def intPred (n : Int) : Option Int := if -2 ^ 31 < n then some (n - 1) else none

/-- `CreateMask<T>(bits)`, for a type `T` of `w` bits. The shift count is a `size_t`. -/
def createMask (w : ℕ) (bits : UInt32) : Option (BitVec w) :=
  let count := UInt64.ofNat w - bits.toUInt64
  ((intShl count.toNat).bind intPred).map (BitVec.ofInt w)

/-! ## IPv4 -/

/-- `IPv4Address`: `s_addr` and `sin_port` are in network byte order. -/
structure IPv4Address where
  s_addr : BitVec 32
  sin_port : BitVec 16
  deriving DecidableEq, Repr

namespace IPv4Address

/-- `broadcastAddress`, or a null pointer. -/
def broadcastAddress (a : IPv4Address) (prefix_len : UInt32) : Option (Option IPv4Address) :=
  if 32 < prefix_len then some none
  else (createMask 32 prefix_len).map fun mask =>
    some { a with s_addr := a.s_addr ||| byteswapOnLittleEndian mask }

/-- `networkAddress`, or a null pointer. -/
def networkAddress (a : IPv4Address) (prefix_len : UInt32) : Option (Option IPv4Address) :=
  if 32 < prefix_len then some none
  else (createMask 32 prefix_len).map fun mask =>
    some { a with s_addr := a.s_addr &&& byteswapOnLittleEndian mask }

/-- `subnetMask`; the length is not checked. -/
def subnetMask (prefix_len : UInt32) : Option (Option IPv4Address) :=
  (createMask 32 prefix_len).map fun mask =>
    some { s_addr := ~~~byteswapOnLittleEndian mask, sin_port := 0 }

end IPv4Address

/-! ## IPv6 -/

/-- The bytes of an IPv6 address. -/
abbrev Bytes16 := Vector (BitVec 8) 16

/-- `IPv6Address`: `sin6_port` is in network byte order. -/
structure IPv6Address where
  s6_addr : Bytes16
  sin6_port : BitVec 16
  deriving DecidableEq, Repr

/-- `s6_addr[i] = v`. -/
def store (s6_addr : Bytes16) (i : ℕ) (v : BitVec 8) : Option Bytes16 :=
  if h : i < 16 then some (s6_addr.set i v) else none

namespace IPv6Address

/-- A byte of an address. -/
def byte (b : Bytes16) (i : ℕ) : BitVec 8 := b[i]?.getD 0

/-- The byte at `prefix_len / 8`, changed by `f` with the host mask of this byte. -/
def maskByte (s6_addr : Bytes16) (prefix_len : UInt32) (f : BitVec 8 → BitVec 8 → BitVec 8) :
    Option Bytes16 :=
  let k := (prefix_len / 8).toNat
  (createMask 8 (prefix_len % 8)).bind fun mask =>
    store s6_addr k (f (s6_addr[k]?.getD 0) mask)

def broadcastAddress (a : IPv6Address) (prefix_len : UInt32) : Option IPv6Address :=
  let k := (prefix_len / 8).toNat
  (maskByte a.s6_addr prefix_len (· ||| ·)).bind fun s6_addr =>
    -- `for(int i = prefix_len / 8 + 1; i < 16; ++i)`
    ((List.range' (k + 1) (15 - k)).foldlM (fun b i => store b i 0xff) s6_addr).map fun s6_addr =>
      { a with s6_addr := s6_addr }

def networkAddress (a : IPv6Address) (prefix_len : UInt32) : Option IPv6Address :=
  (maskByte a.s6_addr prefix_len (· &&& ·)).map fun s6_addr => { a with s6_addr := s6_addr }

/-- The loop of `subnetMask`, `for(uint32_t i = 0; i < n; --i)`, from `i` on. -/
def fill (n i : UInt32) (s6_addr : Bytes16) : Option Bytes16 :=
  if i < n then (store s6_addr i.toNat 0xff).bind (fill n (i - 1)) else some s6_addr
termination_by if i < n then i.toNat + 1 else 0
decreasing_by
  rename_i hlt
  rw [if_pos hlt]
  -- the counter wraps around to the largest value, which ends the loop
  by_cases hzero : i = 0
  · subst hzero
    have hmax : ¬ (0 - 1 : UInt32) < n := by
      rw [UInt32.lt_iff_toNat_lt, Nat.not_lt]
      exact Nat.le_of_lt_succ n.toNat_lt
    rw [if_neg hmax]
    exact Nat.succ_pos _
  · have hpos : 1 ≤ i.toNat := by
      refine Nat.one_le_iff_ne_zero.mpr fun h => hzero ?_
      exact UInt32.toNat_inj.mp h
    have hpred : (i - 1).toNat = i.toNat - 1 := UInt32.toNat_sub_of_le i 1 hpos
    split_ifs
    · omega
    · omega

def subnetMask (prefix_len : UInt32) : Option IPv6Address :=
  (maskByte (Vector.replicate 16 0) prefix_len fun _ mask => ~~~mask).bind fun s6_addr =>
    (fill (prefix_len / 8) 0 s6_addr).map fun s6_addr => { s6_addr := s6_addr, sin6_port := 0 }

end IPv6Address

end Address

end Sylar

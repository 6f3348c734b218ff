import Sylar.Address.Subnet

/-!
# The addresses of the interfaces

`GetInterfaceAddresses` goes through the list of `getifaddrs` and takes the addresses of a family,
each with the number of ones in its netmask. The count starts at 0 for an IPv4 netmask. That of an
IPv6 netmask is added, byte by byte, to the value that `prefix_len` starts with, which is the
largest one: the sum wraps around, to one less than the number of ones.

An interface without an address leads nowhere; one with an address has a netmask.

## Main definitions

* `countBytes`: the loop that clears the lowest one
* `Ifaddrs`, `getInterfaceAddresses`: the list of the interfaces, and what is taken of it
* `netmaskOnes`, `expected`: how many ones a netmask has, and what is to be reported

## Main results

* `toNat_countBytes`: the loop counts the ones
* `prefix_lens_iff`: the prefix lengths are right exactly without an IPv6 address
-/

namespace Sylar

open Foundation

namespace Address

/-! ## The code -/

/-- The loop of `CountBytes`, from a result on. -/
def countOnes {w : ℕ} (value : BitVec w) (result : UInt32) : UInt32 :=
  if value = 0#w then result else countOnes (value &&& (value - 1#w)) (result + 1)
termination_by ones value
decreasing_by
  have hround := ones_clearLowest ‹_›
  exact Nat.lt_of_succ_le (Nat.le_of_eq hround)

/-- `CountBytes<T>(value)`, for a type `T` of `w` bits. -/
def countBytes {w : ℕ} (value : BitVec w) : UInt32 := countOnes value 0

/-- What `ifa_addr` and `ifa_netmask` point to, by the family of the address. -/
inductive InterfaceAddress
  | inet (addr : IPv4Address) (netmask : BitVec 32)
  | inet6 (addr : IPv6Address) (netmask : Bytes16)
  | other (sa_family : UInt16)
  deriving DecidableEq

/-- An element of the list of `getifaddrs`. -/
structure Ifaddrs where
  ifa_name : List UInt8
  ifa_addr : Option InterfaceAddress
  deriving DecidableEq

/-- An address of either family. -/
inductive IPAddress
  | ipv4 (addr : IPv4Address)
  | ipv6 (addr : IPv6Address)
  deriving DecidableEq

namespace InterfaceAddress

/-- `sa_family`, where `AF_INET` is 2 and `AF_INET6` is 10. -/
def sa_family : InterfaceAddress → Int
  | inet .. => 2
  | inet6 .. => 10
  | other sa_family => sa_family.toNat

/-- The address and its `prefix_len`, if the family is one of the two. -/
def report : InterfaceAddress → Option (IPAddress × UInt32)
  | inet addr netmask => some (.ipv4 addr, countBytes netmask)
  | inet6 addr netmask =>
    -- `prefix_len` has been initialised with `~0u`
    some (.ipv6 addr, (List.range 16).foldl
      (fun prefix_len i => prefix_len + countBytes (IPv6Address.byte netmask i)) (~~~0))
  | other _ => none

/-- Whether the address is asked for; `AF_UNSPEC` is 0. -/
def selected (family : Int) (a : InterfaceAddress) : Bool :=
  !(family ≠ 0 && family ≠ a.sa_family)

end InterfaceAddress

/-- `GetInterfaceAddresses(result, family)`, on the list of the interfaces: the elements of the
result in the order in which they are inserted. -/
def getInterfaceAddresses (family : Int) :
    List Ifaddrs → Option (List (List UInt8 × IPAddress × UInt32))
  | [] => some []
  | next :: results =>
    -- `ifa_addr` may be null, and is not tested
    next.ifa_addr.bind fun a =>
      (getInterfaceAddresses family results).map fun result =>
        if a.selected family then
          match a.report with
          | some r => (next.ifa_name, r) :: result
          | none => result
        else result

/-! ## The count -/

theorem countOnes_eq {w : ℕ} (value : BitVec w) (result : UInt32) :
    countOnes value result = result + .ofNat (ones value) := by
  fun_induction countOnes value result with
  | case1 result =>
    rw [ones_eq_zero_iff.mpr rfl]
    exact (UInt32.add_zero result).symm
  | case2 value result hne ih =>
    have hround : ones (value &&& (value - 1#w)) + 1 = ones value := ones_clearLowest hne
    rw [ih, ← hround, UInt32.ofNat_add, UInt32.add_assoc, UInt32.add_comm 1]
    rfl

theorem countBytes_eq {w : ℕ} (value : BitVec w) : countBytes value = .ofNat (ones value) := by
  rw [countBytes, countOnes_eq, UInt32.zero_add]

/-- **The loop counts the ones** of a word of up to 32 bits. -/
theorem toNat_countBytes {w : ℕ} (hw : w ≤ 32) (value : BitVec w) :
    (countBytes value).toNat = ones value := by
  have hle : ones value ≤ w := ones_le
  rw [countBytes_eq, UInt32.toNat_ofNat_of_lt' (Nat.lt_of_le_of_lt (hle.trans hw) (by decide))]

/-! ## The netmask as a whole -/

namespace InterfaceAddress

/-- How many bits of the netmask are one. -/
def netmaskOnes : InterfaceAddress → ℕ
  | inet _ netmask => ones netmask
  | inet6 _ netmask => Nat.count (fun i => IPv6Address.bit netmask i = true) 128
  | other _ => 0

/-- The netmask has its first `p` bits set, and no others. -/
def LeadingOnes (p : ℕ) : InterfaceAddress → Prop
  | inet _ netmask => p ≤ 32 ∧ ∀ i < 32, (bswap32 netmask).getMsbD i = decide (i < p)
  | inet6 _ netmask => p ≤ 128 ∧ ∀ i < 128, IPv6Address.bit netmask i = decide (i < p)
  | other _ => False

def isInet6 : InterfaceAddress → Bool
  | inet6 .. => true
  | _ => false

/-- What is to be reported. -/
def expected : InterfaceAddress → Option (IPAddress × UInt32)
  | inet addr netmask => some (.ipv4 addr, .ofNat (inet addr netmask).netmaskOnes)
  | inet6 addr netmask => some (.ipv6 addr, .ofNat (inet6 addr netmask).netmaskOnes)
  | other _ => none

/-- The ones of the first bytes. -/
theorem count_bit (b : Bytes16) (k : ℕ) :
    Nat.count (fun i => IPv6Address.bit b i = true) (8 * k) =
      ((List.range k).map fun i => ones (IPv6Address.byte b i)).sum := by
  induction k with
  | zero => rfl
  | succ k ih =>
    have hbyte : Nat.count (fun i => IPv6Address.bit b (8 * k + i) = true) 8 =
        ones (IPv6Address.byte b k) := by
      rw [← count_getMsbD]
      refine count_congr fun i hi => ?_
      rw [IPv6Address.bit, Nat.mul_add_div (by decide), Nat.div_eq_of_lt hi, Nat.add_zero,
        Nat.mul_add_mod, Nat.mod_eq_of_lt hi]
    rw [Nat.mul_succ, Nat.count_add, ih, hbyte, List.range_succ, List.map_append, List.sum_append]
    simp

/-- The sum over the bytes, from its first value on. -/
theorem foldl_countBytes (b : Bytes16) (n : UInt32) (l : List ℕ) :
    l.foldl (fun prefix_len i => prefix_len + countBytes (IPv6Address.byte b i)) n =
      n + .ofNat (l.map fun i => ones (IPv6Address.byte b i)).sum := by
  induction l generalizing n with
  | nil => exact (UInt32.add_zero n).symm
  | cons i l ih =>
    rw [List.foldl_cons, ih, countBytes_eq, List.map_cons, List.sum_cons, UInt32.ofNat_add,
      UInt32.add_assoc]

theorem report_inet (addr : IPv4Address) (netmask : BitVec 32) :
    (inet addr netmask).report = (inet addr netmask).expected := by
  rw [report, expected, countBytes_eq, netmaskOnes]

/-- **One less than the number of ones** is reported of an IPv6 netmask. -/
theorem report_inet6 (addr : IPv6Address) (netmask : Bytes16) :
    (inet6 addr netmask).report =
      some (.ipv6 addr, ~~~0 + .ofNat (inet6 addr netmask).netmaskOnes) := by
  rw [report, foldl_countBytes, netmaskOnes, ← count_bit]

theorem report_eq_expected_iff (a : InterfaceAddress) :
    a.report = a.expected ↔ a.isInet6 = false := by
  cases a with
  | inet addr netmask => exact iff_of_true (report_inet addr netmask) rfl
  | other sa_family => exact iff_of_true rfl rfl
  | inet6 addr netmask =>
    refine iff_of_false (fun h => ?_) (by rintro ⟨⟩)
    rw [report_inet6, expected] at h
    have hsum := (Prod.mk.inj (Option.some.inj h)).2
    have hzero : (~~~0 : UInt32) = 0 := by simpa using hsum
    exact absurd hzero (by decide)

/-- A netmask with so many leading ones has no others. -/
theorem netmaskOnes_of_leadingOnes {a : InterfaceAddress} {p : ℕ} (h : a.LeadingOnes p) :
    a.netmaskOnes = p := by
  cases a with
  | inet addr netmask =>
    obtain ⟨hle, hbits⟩ := h
    rw [netmaskOnes, ← ones_bswap32, ← count_getMsbD,
      count_congr fun i hi => by rw [hbits i hi, decide_eq_true_iff], count_lt,
      Nat.min_eq_right hle]
  | inet6 addr netmask =>
    obtain ⟨hle, hbits⟩ := h
    rw [netmaskOnes, count_congr fun i hi => by rw [hbits i hi, decide_eq_true_iff], count_lt,
      Nat.min_eq_right hle]
  | other sa_family => cases h

end InterfaceAddress

/-! ## The list of the interfaces -/

/-- What is to be inserted for an interface. -/
def Ifaddrs.expected (family : Int) (next : Ifaddrs) : Option (List UInt8 × IPAddress × UInt32) :=
  next.ifa_addr.bind fun a =>
    if a.selected family then a.expected.map fun r => (next.ifa_name, r) else none

variable {family : Int} {results : List Ifaddrs}
  {reported : List (List UInt8 × IPAddress × UInt32)}

/-- What a call inserts is right exactly if all that it selects is right. -/
theorem reported_eq_expected_iff (h : getInterfaceAddresses family results = some reported) :
    reported = results.filterMap (Ifaddrs.expected family) ↔
      ∀ next ∈ results, ∀ a ∈ next.ifa_addr, a.selected family = true → a.isInet6 = false := by
  induction results generalizing reported with
  | nil =>
    obtain rfl := Option.some.inj h
    exact iff_of_true rfl fun next hnext => absurd hnext List.not_mem_nil
  | cons next results ih =>
    obtain ⟨a, ha, hrest⟩ := Option.bind_eq_some_iff.mp h
    obtain ⟨result, hresult, rfl⟩ := Option.map_eq_some_iff.mp hrest
    have hothers := ih hresult
    have hhead : (∀ b ∈ next.ifa_addr, b.selected family = true → b.isInet6 = false) ↔
        (a.selected family = true → a.isInet6 = false) := by
      simp [ha]
    rw [List.forall_mem_cons, hhead, ← hothers, List.filterMap_cons, Ifaddrs.expected, ha,
      Option.bind_some]
    by_cases hselected : a.selected family = true
    · rw [if_pos hselected, if_pos hselected, imp_iff_right hselected,
        ← InterfaceAddress.report_eq_expected_iff]
      -- both insert something, or neither does
      cases a with
      | inet addr netmask =>
        rw [InterfaceAddress.report_inet]
        simp [InterfaceAddress.expected]
      | inet6 addr netmask => simp [InterfaceAddress.report, InterfaceAddress.expected]
      | other sa_family => simp [InterfaceAddress.report, InterfaceAddress.expected]
    · rw [if_neg hselected, if_neg hselected]
      exact ⟨fun heq => ⟨fun hs => absurd hs hselected, heq⟩, And.right⟩

/-- **The prefix lengths** are the numbers of ones in the netmasks exactly if no IPv6 address is
among those that are selected. The loop ends after as many rounds as there are ones, and counts
them; leading ones are the number of ones. -/
theorem prefix_lens_iff (h : getInterfaceAddresses family results = some reported) :
    (∀ value : BitVec 32, (countBytes value).toNat = ones value ∧
      ∀ n, clearLowest^[n] value = 0#32 ↔ ones value ≤ n) ∧
    (∀ value : BitVec 8, (countBytes value).toNat = ones value ∧
      ∀ n, clearLowest^[n] value = 0#8 ↔ ones value ≤ n) ∧
    (∀ (a : InterfaceAddress) (p : ℕ), a.LeadingOnes p → a.netmaskOnes = p) ∧
    (reported = results.filterMap (Ifaddrs.expected family) ↔
      ∀ next ∈ results, ∀ a ∈ next.ifa_addr, a.selected family = true → a.isInet6 = false) :=
  ⟨fun value => ⟨toNat_countBytes (Nat.le_refl 32) value, fun _ => iterate_clearLowest_eq_zero_iff⟩,
    fun value => ⟨toNat_countBytes (by decide) value, fun _ => iterate_clearLowest_eq_zero_iff⟩,
    fun _ _ => InterfaceAddress.netmaskOnes_of_leadingOnes, reported_eq_expected_iff h⟩

/-- The interface `lo` with 127.0.0.1 and the netmask 255.0.0.0, and with ::1 and the netmask of 128
ones. -/
def loopback : List Ifaddrs :=
  [⟨[108, 111], some (.inet ⟨0x0100007f#32, 0⟩ 0x000000ff#32)⟩,
    ⟨[108, 111], some (.inet6 ⟨(Vector.replicate 16 0).set 15 1, 0⟩ (Vector.replicate 16 0xff))⟩]

theorem prefix_lens_iff_loopback : ∃ reported, getInterfaceAddresses 2 loopback = some reported ∧
    (reported = loopback.filterMap (Ifaddrs.expected 2) ↔
      ∀ next ∈ loopback, ∀ a ∈ next.ifa_addr, a.selected 2 = true → a.isInet6 = false) := by
  have hreport : ∃ reported, getInterfaceAddresses 2 loopback = some reported := ⟨_, rfl⟩
  obtain ⟨reported, h⟩ := hreport
  exact ⟨reported, h, (prefix_lens_iff h).2.2.2⟩

/-- The 128 ones of the netmask of ::1 are reported as 127. -/
theorem inet6_one_less : ∃ reported, getInterfaceAddresses 10 loopback = some reported ∧
    reported.map (fun r => r.2.2) = [127] ∧
    reported ≠ loopback.filterMap (Ifaddrs.expected 10) := by
  have hreport : getInterfaceAddresses 10 loopback = some [([108, 111],
      .ipv6 ⟨(Vector.replicate 16 0).set 15 1, 0⟩, ~~~0 + .ofNat 128)] := by
    have hones : (InterfaceAddress.inet6 ⟨(Vector.replicate 16 0).set 15 1, 0⟩
        (Vector.replicate 16 0xff)).netmaskOnes = 128 :=
      InterfaceAddress.netmaskOnes_of_leadingOnes ⟨Nat.le_refl 128, by decide⟩
    have hsecond := InterfaceAddress.report_inet6 ⟨(Vector.replicate 16 0).set 15 1, 0⟩
      (Vector.replicate 16 0xff)
    rw [hones] at hsecond
    simp only [loopback, getInterfaceAddresses, Option.bind_some, Option.map_some, hsecond]
    rfl
  refine ⟨_, hreport, by decide, ?_⟩
  rw [Ne, reported_eq_expected_iff hreport]
  intro hnone
  have hselected := hnone _ (.tail _ (.head _)) _ rfl (by decide)
  cases hselected

end Address

end Sylar

import Mathlib.Data.List.Lex

/-!
# The order of addresses

`operator<` compares the bytes of the shorter address with as many of the other one, and then the
lengths; `operator==` compares the lengths first. Both are comparisons of one text, the bytes that
`getAddr` and `getAddrLen` give: the first is its lexicographic order, in which a proper prefix
comes first, and the second is equality.

The length of a `UnixAddress` can be set to anything, so its bytes are the memory from `m_addr` on.

## Main definitions

* `memcmp`: the comparison of memory
* `Object`, `less`, `equal`: the classes of addresses and their operators
* `bytes`: the text of an address

## Main results

* `less_iff`, `equal_iff`: the operators on the texts
* `strict_total_order`: the order is a strict total one, and its equality is `operator==`
-/

namespace Sylar

namespace Address

/-! ## The code -/

/-- `memcmp(s1, s2, n)`: the difference of the first two bytes that differ. -/
def memcmp (s1 s2 : ℕ → UInt8) : ℕ → Int
  | 0 => 0
  | n + 1 =>
    if s1 0 = s2 0 then memcmp (fun i => s1 (i + 1)) (fun i => s2 (i + 1)) n
    else (s1 0).toNat - (s2 0).toNat

/-- An object of a class derived from `Address`. -/
inductive Object
  /-- `IPv4Address`, with a `sockaddr_in`. -/
  | ipv4 (m_addr : Vector UInt8 16)
  /-- `IPv6Address`, with a `sockaddr_in6`. -/
  | ipv6 (m_addr : Vector UInt8 28)
  | unix (m_addr : ℕ → UInt8) (m_length : UInt32)
  /-- `UnknownAddress`, with a `sockaddr`. -/
  | unknown (m_addr : Vector UInt8 16)

namespace Object

/-- The memory that `getAddr` points to. -/
def getAddr : Object → ℕ → UInt8
  | ipv4 m_addr, i => m_addr[i]?.getD 0
  | ipv6 m_addr, i => m_addr[i]?.getD 0
  | unix m_addr _, i => m_addr i
  | unknown m_addr, i => m_addr[i]?.getD 0

def getAddrLen : Object → UInt32
  | ipv4 _ => 16
  | ipv6 _ => 28
  | unix _ m_length => m_length
  | unknown _ => 16

/-- `operator<`. -/
def less (a rhs : Object) : Bool :=
  let minlen := min a.getAddrLen.toNat rhs.getAddrLen.toNat
  let result := memcmp a.getAddr rhs.getAddr minlen
  if result < 0 then true
  else if 0 < result then false
  else if a.getAddrLen < rhs.getAddrLen then true
  else false

/-- `operator==`. -/
def equal (a rhs : Object) : Bool :=
  a.getAddrLen = rhs.getAddrLen && memcmp a.getAddr rhs.getAddr a.getAddrLen.toNat = 0

/-- `operator!=`. -/
def notEqual (a rhs : Object) : Bool := !a.equal rhs

end Object

/-! ## Memory as a text -/

/-- The first `n` bytes of a memory, as numbers. -/
def text (s : ℕ → UInt8) (n : ℕ) : List ℕ := (List.range n).map fun i => (s i).toNat

theorem text_succ (s : ℕ → UInt8) (n : ℕ) :
    text s (n + 1) = (s 0).toNat :: text (fun i => s (i + 1)) n := by
  rw [text, List.range_succ_eq_map, List.map_cons, List.map_map]
  rfl

theorem length_text (s : ℕ → UInt8) (n : ℕ) : (text s n).length = n := by
  rw [text, List.length_map, List.length_range]

theorem memcmp_eq_zero_iff (s1 s2 : ℕ → UInt8) (n : ℕ) :
    memcmp s1 s2 n = 0 ↔ text s1 n = text s2 n := by
  induction n generalizing s1 s2 with
  | zero => exact iff_of_true rfl rfl
  | succ n ih =>
    rw [memcmp, text_succ, text_succ, List.cons.injEq]
    split_ifs with heq
    · rw [ih, heq, eq_self, true_and]
    · have hne : (s1 0).toNat ≠ (s2 0).toNat := fun h => heq (UInt8.toNat_inj.mp h)
      constructor
      · intro h
        omega
      · intro h
        exact absurd h.1 hne

/-- **The comparison of the common length, then of the lengths**, is the lexicographic order. -/
theorem text_lt_text_iff (s1 s2 : ℕ → UInt8) (n m : ℕ) :
    text s1 n < text s2 m ↔
      memcmp s1 s2 (min n m) < 0 ∨ memcmp s1 s2 (min n m) = 0 ∧ n < m := by
  induction n generalizing s1 s2 m with
  | zero =>
    rw [Nat.zero_min]
    cases m with
    | zero => exact iff_of_false (List.not_lt_nil _) (by simp [memcmp])
    | succ m =>
      refine iff_of_true ?_ (.inr ⟨rfl, Nat.succ_pos m⟩)
      rw [text_succ s2]
      exact List.nil_lt_cons ..
  | succ n ih =>
    cases m with
    | zero => exact iff_of_false (List.not_lt_nil _) (by simp [memcmp])
    | succ m =>
      rw [text_succ, text_succ, List.cons_lt_cons_iff, Nat.succ_min_succ, memcmp]
      split_ifs with heq
      · rw [ih, heq]
        simp
      · -- the first bytes decide
        have hne : (s1 0).toNat ≠ (s2 0).toNat := fun h => heq (UInt8.toNat_inj.mp h)
        omega

namespace Object

/-- The bytes of an address. -/
def bytes (a : Object) : List ℕ := text a.getAddr a.getAddrLen.toNat

theorem length_bytes (a : Object) : a.bytes.length = a.getAddrLen.toNat := length_text ..

theorem less_iff (a b : Object) : a.less b = true ↔ a.bytes < b.bytes := by
  rw [bytes, bytes, text_lt_text_iff, less]
  simp only [UInt32.lt_iff_toNat_lt]
  split_ifs with hneg hpos hlen
  · exact iff_of_true rfl (.inl hneg)
  · exact iff_of_false not_false (by omega)
  · exact iff_of_true rfl (.inr ⟨by omega, hlen⟩)
  · exact iff_of_false not_false (by omega)

theorem equal_iff (a b : Object) : a.equal b = true ↔ a.bytes = b.bytes := by
  rw [equal, Bool.and_eq_true, decide_eq_true_iff, decide_eq_true_iff, memcmp_eq_zero_iff]
  constructor
  · rintro ⟨hlen, htext⟩
    rw [bytes, htext, hlen, bytes]
  · intro h
    have hlen : a.getAddrLen = b.getAddrLen := by
      rw [← UInt32.toNat_inj, ← length_bytes, h, length_bytes]
    rw [bytes, bytes, ← hlen] at h
    exact ⟨hlen, h⟩

/-- **The operators order the addresses** strictly and totally: no address is less than itself, the
order is transitive, and of two addresses one is less, or they are equal, and only one of these. -/
theorem strict_total_order :
    (∀ a : Object, a.less a = false) ∧
    (∀ a b c : Object, a.less b = true → b.less c = true → a.less c = true) ∧
    (∀ a b : Object,
      (a.less b = true ∧ a.equal b = false ∧ b.less a = false) ∨
      (a.less b = false ∧ a.equal b = true ∧ b.less a = false) ∨
      (a.less b = false ∧ a.equal b = false ∧ b.less a = true)) ∧
    ∀ a b : Object, a.notEqual b = !a.equal b := by
  refine ⟨fun a => ?_, fun a b c hab hbc => ?_, fun a b => ?_, fun _ _ => rfl⟩
  · rw [Bool.eq_false_iff, Ne, less_iff]
    exact lt_irrefl _
  · rw [less_iff] at hab hbc ⊢
    exact hab.trans hbc
  · simp only [Bool.eq_false_iff, Ne, less_iff, equal_iff]
    rcases lt_trichotomy a.bytes b.bytes with hlt | heq | hgt
    · exact .inl ⟨hlt, hlt.ne, hlt.asymm⟩
    · exact .inr (.inl ⟨heq.not_lt, heq, heq.not_gt⟩)
    · exact .inr (.inr ⟨hgt.asymm, hgt.ne', hgt⟩)

/-- An abstract path, its prefix, and an address of another class. -/
example :
    let path : Object := .unix (fun i => if i = 0 then 1 else 0) 9
    path.less (.unix (fun i => if i = 0 then 1 else 0) 8) = false ∧
      (Object.unix (fun i => if i = 0 then 1 else 0) 8).less path = true ∧
      path.equal (.ipv4 (Vector.replicate 16 0)) = false := by
  decide

end Object

end Address

end Sylar

import Sylar.Address.Model

/-!
# Subnets

A prefix of an address is kept by the mask with its leading bits set. The host mask of the code is
the complement of this mask; `networkAddress` combines it with the address as it is, so that it
keeps the host and not the network.

## Main definitions

* `IPv4Address.SubnetLaws`, `IPv6Address.SubnetLaws`: the algebra of prefixes

## Main results

* `IPv4Address.ipv4_laws_iff`, `IPv6Address.ipv6_laws_iff`: where the functions obey the laws
-/

namespace Sylar

open Foundation

namespace Address

variable {p : UInt32}

/-! ## The host mask -/

/-- A shift of `1` that leaves room for the sign, and the difference. -/
theorem intPred_intShl :
    ∀ k < 31, (intShl k).bind intPred = some ((2 ^ k - 1 : ℕ) : Int) := by
  decide

theorem createMask_eq {w : ℕ} (hw : w ≤ 32) (hp : p.toNat ≤ w) :
    createMask w p = if w - p.toNat < 31 then some (~~~leading w p.toNat) else none := by
  have hsize : w < UInt64.size := Nat.lt_of_le_of_lt hw (by decide)
  have hcount : (UInt64.ofNat w - p.toUInt64).toNat = w - p.toNat := by
    rw [UInt64.toNat_sub_of_le, UInt64.toNat_ofNat_of_lt' hsize, UInt32.toNat_toUInt64]
    rw [UInt64.le_iff_toNat_le, UInt64.toNat_ofNat_of_lt' hsize, UInt32.toNat_toUInt64]
    exact hp
  rw [createMask, hcount]
  by_cases hlt : w - p.toNat < 31
  · rw [if_pos hlt, intPred_intShl _ hlt, Option.map_some, compl_leading, BitVec.ofInt_natCast]
  · rw [if_neg hlt]
    rcases Nat.lt_or_ge (w - p.toNat) 32 with hwidth | hwidth
    · rw [show w - p.toNat = 31 by omega, show (intShl 31).bind intPred = none by decide]
      rfl
    · rw [intShl, if_neg (Nat.not_lt.mpr hwidth)]
      rfl

/-- A prefix longer than the word makes the shift count wrap around. -/
theorem createMask_eq_none (hp : 32 < p) : createMask 32 p = none := by
  have hlt := UInt32.lt_iff_toNat_lt.mp hp
  have hcount : 32 ≤ (UInt64.ofNat 32 - p.toUInt64).toNat := by
    have hle := p.toNat_lt
    have hwidth : (UInt64.ofNat 32).toNat = 32 := rfl
    have hlong : (32 : UInt32).toNat = 32 := rfl
    rw [UInt64.toNat_sub, UInt32.toNat_toUInt64, hwidth]
    omega
  rw [createMask, intShl, if_neg (Nat.not_lt.mpr hcount)]
  rfl

/-! ## IPv4 -/

namespace IPv4Address

variable {a : IPv4Address}

/-- The address as a number, the first byte in front. -/
def number (a : IPv4Address) : BitVec 32 := bswap32 a.s_addr

/-- No shift by the width and no overflow. -/
def MaskDefined (p : UInt32) : Prop := p ≤ 32 → (createMask 32 p).isSome = true

/-- The mask has exactly its leading bits set. -/
def MaskLaw (p : UInt32) : Prop :=
  p ≤ 32 → ∃ m, subnetMask p = some (some m) ∧
    ∀ i < 32, m.number.getMsbD i = decide (i < p.toNat)

/-- The network address is the address under the mask. -/
def NetworkLaw (a : IPv4Address) (p : UInt32) : Prop :=
  p ≤ 32 → ∃ m n, subnetMask p = some (some m) ∧ a.networkAddress p = some (some n) ∧
    n.number = a.number &&& m.number

/-- The broadcast address has the other bits set. -/
def BroadcastLaw (a : IPv4Address) (p : UInt32) : Prop :=
  p ≤ 32 → ∃ m b, subnetMask p = some (some m) ∧ a.broadcastAddress p = some (some b) ∧
    b.number = a.number ||| ~~~m.number

/-- A network address is its own network address. -/
def IdempotentLaw (a : IPv4Address) (p : UInt32) : Prop :=
  p ≤ 32 → ∃ n, a.networkAddress p = some (some n) ∧ n.networkAddress p = some (some n)

/-- A prefix longer than an address is refused. -/
def RefusalLaw (a : IPv4Address) (p : UInt32) : Prop :=
  32 < p → subnetMask p = some none ∧ a.networkAddress p = some none ∧
    a.broadcastAddress p = some none

/-- The algebra of prefixes. -/
structure SubnetLaws (a : IPv4Address) (p : UInt32) : Prop where
  defined : MaskDefined p
  mask : MaskLaw p
  network : NetworkLaw a p
  broadcast : BroadcastLaw a p
  idempotent : IdempotentLaw a p
  refusal : RefusalLaw a p

theorem createMask_of_le (hp : p ≤ 32) :
    createMask 32 p = if 2 ≤ p then some (~~~leading 32 p.toNat) else none := by
  have hle : p.toNat ≤ 32 := UInt32.le_iff_toNat_le.mp hp
  have htwo : 2 ≤ p ↔ 2 ≤ p.toNat := UInt32.le_iff_toNat_le
  rw [createMask_eq (Nat.le_refl 32) hle]
  exact if_congr (by rw [htwo]; omega) rfl rfl

theorem not_lt_of_le (hp : p ≤ 32) : ¬ 32 < p := UInt32.not_lt.mpr hp

/-- What the functions return, where the host mask is defined. -/
theorem results (a : IPv4Address) (h : 2 ≤ p) (hp : p ≤ 32) :
    subnetMask p = some (some ⟨bswap32 (leading 32 p.toNat), 0⟩) ∧
    a.networkAddress p =
      some (some { a with s_addr := a.s_addr &&& bswap32 (~~~leading 32 p.toNat) }) ∧
    a.broadcastAddress p =
      some (some { a with s_addr := a.s_addr ||| bswap32 (~~~leading 32 p.toNat) }) := by
  have hmask := (createMask_of_le hp).trans (if_pos h)
  refine ⟨?_, ?_, ?_⟩
  · rw [subnetMask, hmask, Option.map_some, byteswapOnLittleEndian, bswap32_not, BitVec.not_not]
  · rw [networkAddress, if_neg (not_lt_of_le hp), hmask]
    rfl
  · rw [broadcastAddress, if_neg (not_lt_of_le hp), hmask]
    rfl

/-- Below two the functions have no result. -/
theorem no_result (h : ¬ 2 ≤ p) :
    subnetMask p = none ∧ a.networkAddress p = none ∧ a.broadcastAddress p = none := by
  have hp : p ≤ 32 := UInt32.le_trans (UInt32.le_of_lt (UInt32.not_le.mp h)) (by decide)
  have hmask := (createMask_of_le hp).trans (if_neg h)
  refine ⟨?_, ?_, ?_⟩
  · rw [subnetMask, hmask]
    rfl
  · rw [networkAddress, if_neg (not_lt_of_le hp), hmask]
    rfl
  · rw [broadcastAddress, if_neg (not_lt_of_le hp), hmask]
    rfl

theorem maskDefined_iff : MaskDefined p ↔ 2 ≤ p := by
  by_cases h : 2 ≤ p
  · refine iff_of_true (fun hp => ?_) h
    rw [createMask_of_le hp, if_pos h]
    rfl
  · refine iff_of_false (fun hdef => ?_) h
    have hp : p ≤ 32 := UInt32.le_trans (UInt32.le_of_lt (UInt32.not_le.mp h)) (by decide)
    have hsome := hdef hp
    rw [createMask_of_le hp, if_neg h] at hsome
    cases hsome

/-- A law about results holds where there are results and they obey it. -/
theorem law_iff {P : Prop} (hresult : P → p ≤ 32 → 2 ≤ p) :
    (p ≤ 32 → P) ↔ 2 ≤ p ∧ (p ≤ 32 → P) := by
  refine ⟨fun h => ⟨?_, h⟩, And.right⟩
  rcases UInt32.le_total p 32 with hp | hp
  · exact hresult (h hp) hp
  · exact UInt32.le_trans (by decide) hp

theorem two_le_of_subnetMask {m : Option IPv4Address} (h : subnetMask p = some m) : 2 ≤ p := by
  by_contra hp
  rw [(no_result (a := ⟨0, 0⟩) hp).1] at h
  cases h

theorem two_le_of_networkAddress {n : Option IPv4Address} (h : a.networkAddress p = some n) :
    2 ≤ p := by
  by_contra hp
  rw [(no_result hp).2.1] at h
  cases h

theorem maskLaw_iff : MaskLaw p ↔ 2 ≤ p := by
  rw [MaskLaw, law_iff fun ⟨m, hm, _⟩ _ => two_le_of_subnetMask hm]
  refine and_iff_left_of_imp fun h hp => ⟨_, (results ⟨0, 0⟩ h hp).1, fun i hi => ?_⟩
  rw [number, bswap32_bswap32, getMsbD_leading hi]

/-- The host mask keeps what the mask does not, so that the address has to be zero. -/
theorem networkLaw_iff : NetworkLaw a p ↔ 2 ≤ p ∧ (p ≤ 32 → a.s_addr = 0) := by
  rw [NetworkLaw, law_iff fun ⟨m, _, hm, _⟩ _ => two_le_of_subnetMask hm]
  refine and_congr_right fun h => forall_congr' fun hp => ?_
  obtain ⟨hmask, hnetwork, -⟩ := results a h hp
  rw [hmask, hnetwork]
  have hzero : a.s_addr = 0 ↔ a.number = 0#32 := by
    refine ⟨fun h => by rw [number, h]; rfl, fun h => bswap32_inj ?_⟩
    exact h.trans rfl
  rw [hzero, ← and_compl_eq_and_iff a.number (leading 32 p.toNat)]
  simp only [Option.some.injEq]
  constructor
  · rintro ⟨_, _, rfl, rfl, heq⟩
    simpa only [number, bswap32_and, bswap32_bswap32] using heq
  · intro heq
    refine ⟨_, _, rfl, rfl, ?_⟩
    simpa only [number, bswap32_and, bswap32_bswap32] using heq

theorem broadcastLaw_iff : BroadcastLaw a p ↔ 2 ≤ p := by
  rw [BroadcastLaw, law_iff fun ⟨m, _, hm, _⟩ _ => two_le_of_subnetMask hm]
  refine and_iff_left_of_imp fun h hp => ?_
  obtain ⟨hmask, -, hbroadcast⟩ := results a h hp
  refine ⟨_, _, hmask, hbroadcast, ?_⟩
  simp only [number, bswap32_or, bswap32_bswap32]

theorem idempotentLaw_iff : IdempotentLaw a p ↔ 2 ≤ p := by
  rw [IdempotentLaw, law_iff fun ⟨n, hn, _⟩ _ => two_le_of_networkAddress hn]
  refine and_iff_left_of_imp fun h hp => ⟨_, (results a h hp).2.1, ?_⟩
  rw [(results _ h hp).2.1, BitVec.and_assoc, BitVec.and_self]

theorem refusalLaw_iff : RefusalLaw a p ↔ p ≤ 32 := by
  refine ⟨fun h => UInt32.not_lt.mp fun hp => ?_, fun h hp => absurd hp (not_lt_of_le h)⟩
  obtain ⟨hmask, -⟩ := h hp
  rw [subnetMask, createMask_eq_none hp] at hmask
  cases hmask

/-- **Where the functions obey the laws**: below two the host mask is undefined, beyond 32 the mask
is; the host mask is right otherwise, and `networkAddress` takes it for the mask. -/
theorem ipv4_laws_iff (a : IPv4Address) (p : UInt32) :
    (MaskDefined p ↔ 2 ≤ p) ∧ (MaskLaw p ↔ 2 ≤ p) ∧
    (NetworkLaw a p ↔ 2 ≤ p ∧ (p ≤ 32 → a.s_addr = 0)) ∧ (BroadcastLaw a p ↔ 2 ≤ p) ∧
    (IdempotentLaw a p ↔ 2 ≤ p) ∧ (RefusalLaw a p ↔ p ≤ 32) ∧
    (SubnetLaws a p ↔ 2 ≤ p ∧ p ≤ 32 ∧ a.s_addr = 0) := by
  refine ⟨maskDefined_iff, maskLaw_iff, networkLaw_iff, broadcastLaw_iff, idempotentLaw_iff,
    refusalLaw_iff, fun h => ?_, fun ⟨h, hp, hzero⟩ => ?_⟩
  · have hp := refusalLaw_iff.mp h.refusal
    obtain ⟨htwo, hzero⟩ := networkLaw_iff.mp h.network
    exact ⟨htwo, hp, hzero hp⟩
  · exact ⟨maskDefined_iff.mpr h, maskLaw_iff.mpr h, networkLaw_iff.mpr ⟨h, fun _ => hzero⟩,
      broadcastLaw_iff.mpr h, idempotentLaw_iff.mpr h, refusalLaw_iff.mpr hp⟩

/-- The network of 192.168.1.77/24 comes out as 0.0.0.77. -/
theorem network_keeps_host :
    networkAddress ⟨bswap32 0xC0A8014D, 0⟩ 24 = some (some ⟨bswap32 0x4D, 0⟩) ∧
    subnetMask 24 = some (some ⟨bswap32 0xFFFFFF00, 0⟩) ∧
    ¬ ∀ a p, SubnetLaws a p := by
  refine ⟨by decide, by decide, fun h => ?_⟩
  have hnetwork := (h ⟨bswap32 0xC0A8014D, 0⟩ 24).network
  exact absurd ((networkLaw_iff.mp hnetwork).2 (by decide)) (by decide)

end IPv4Address

/-! ## IPv6 -/

namespace IPv6Address

variable {a : IPv6Address} {b b' : Bytes16} {i j k : ℕ} {v : BitVec 8}

/-- A bit of an address, counted from the front. -/
def bit (b : Bytes16) (i : ℕ) : Bool := (byte b (i / 8)).getMsbD (i % 8)

/-- The bytewise combination of two addresses. -/
def combine (f : BitVec 8 → BitVec 8 → BitVec 8) (b b' : Bytes16) : Bytes16 :=
  Vector.zipWith f b b'

theorem byte_of_lt (h : i < 16) : byte b i = b[i] := by
  rw [byte, Vector.getElem?_eq_getElem h, Option.getD_some]

theorem byte_ext (h : ∀ i < 16, byte b i = byte b' i) : b = b' := by
  refine Vector.ext fun i hi => ?_
  rw [← byte_of_lt hi, ← byte_of_lt hi, h i hi]

theorem byte_combine {f : BitVec 8 → BitVec 8 → BitVec 8} (h : i < 16) :
    byte (combine f b b') i = f (byte b i) (byte b' i) := by
  rw [byte_of_lt h, byte_of_lt h, byte_of_lt h, combine, Vector.getElem_zipWith]

theorem byte_replicate : byte (Vector.replicate 16 0) i = 0 := by
  by_cases h : i < 16
  · rw [byte_of_lt h, Vector.getElem_replicate]
  · rw [byte, Vector.getElem?_eq_none (Nat.not_lt.mp h), Option.getD_none]

theorem store_of_lt (h : i < 16) (b : Bytes16) (v : BitVec 8) :
    ∃ b', store b i v = some b' ∧ ∀ j, byte b' j = if j = i then v else byte b j := by
  refine ⟨b.set i v, dif_pos h, fun j => ?_⟩
  split_ifs with hj
  · subst hj
    rw [byte_of_lt h, Vector.getElem_set_self]
  · rw [byte, byte, Vector.getElem?_set_ne _ (Ne.symm hj)]

theorem store_of_le (h : 16 ≤ i) : store b i v = none := dif_neg (Nat.not_lt.mpr h)

/-- The loop of `broadcastAddress`. -/
theorem foldlM_store {n : ℕ} (h : i + n ≤ 16) (b : Bytes16) :
    ∃ b', (List.range' i n).foldlM (fun b i => store b i 0xff) b = some b' ∧
      ∀ j, byte b' j = if i ≤ j ∧ j < i + n then 0xff else byte b j := by
  induction n generalizing i b with
  | zero => exact ⟨b, rfl, fun j => by rw [if_neg (by omega)]⟩
  | succ n ih =>
    obtain ⟨b₁, h₁, hb₁⟩ := store_of_lt (show i < 16 by omega) b 0xff
    obtain ⟨b₂, h₂, hb₂⟩ := ih (i := i + 1) (by omega) b₁
    refine ⟨b₂, ?_, fun j => ?_⟩
    · rw [List.range'_succ, List.foldlM_cons, h₁]
      exact h₂
    · rw [hb₂, hb₁]
      split_ifs <;> first | rfl | omega

/-- **The loop of `subnetMask`** counts down from zero, and is over at once. -/
theorem fill_zero (n : UInt32) (b : Bytes16) :
    ∃ b', fill n 0 b = some b' ∧ ∀ j, byte b' j = if j = 0 ∧ 0 < n then 0xff else byte b j := by
  by_cases hn : 0 < n
  · obtain ⟨b', hstore, hb'⟩ := store_of_lt (show 0 < 16 by decide) b 0xff
    have hstop : ¬ (0 - 1 : UInt32) < n := by
      rw [UInt32.lt_iff_toNat_lt, Nat.not_lt]
      exact Nat.le_of_lt_succ n.toNat_lt
    refine ⟨b', ?_, fun j => ?_⟩
    · rw [fill, if_pos hn, UInt32.toNat_zero, hstore, Option.bind_some, fill, if_neg hstop]
    · rw [hb']
      exact if_congr (and_iff_left hn).symm rfl rfl
  · refine ⟨b, ?_, fun j => ?_⟩
    · rw [fill, if_neg hn]
    · rw [if_neg fun h => hn h.2]

/-! ### Results -/

/-- The host mask of the byte in which the prefix ends. -/
def hostMask (p : UInt32) : BitVec 8 := ~~~leading 8 (p.toNat % 8)

theorem createMask_byte (p : UInt32) : createMask 8 (p % 8) = some (hostMask p) := by
  have hmod : (p % 8).toNat = p.toNat % 8 := UInt32.toNat_mod p 8
  have hlt := Nat.mod_lt p.toNat (show 8 > 0 by decide)
  rw [createMask_eq (by decide) (by omega), hmod, if_pos (by omega), hostMask]

theorem toNat_index (p : UInt32) : (p / 8).toNat = p.toNat / 8 := UInt32.toNat_div p 8

theorem maskByte_of_lt (hp : p.toNat < 128) (b : Bytes16) (f : BitVec 8 → BitVec 8 → BitVec 8) :
    ∃ b', maskByte b p f = some b' ∧ ∀ j, byte b' j =
      if j = p.toNat / 8 then f (byte b (p.toNat / 8)) (hostMask p) else byte b j := by
  rw [maskByte, createMask_byte, toNat_index]
  exact store_of_lt (by omega) b _

theorem maskByte_of_le (hp : 128 ≤ p.toNat) (b : Bytes16) (f : BitVec 8 → BitVec 8 → BitVec 8) :
    maskByte b p f = none := by
  rw [maskByte, createMask_byte, toNat_index]
  exact store_of_le (by omega)

theorem broadcastAddress_of_lt (hp : p.toNat < 128) (a : IPv6Address) :
    ∃ n, a.broadcastAddress p = some n ∧ ∀ j < 16, byte n.s6_addr j =
      if j < p.toNat / 8 then byte a.s6_addr j
      else if j = p.toNat / 8 then byte a.s6_addr j ||| hostMask p else 0xff := by
  obtain ⟨b₁, h₁, hb₁⟩ := maskByte_of_lt hp a.s6_addr (· ||| ·)
  obtain ⟨b₂, h₂, hb₂⟩ := foldlM_store (i := p.toNat / 8 + 1) (n := 15 - p.toNat / 8) (by omega) b₁
  refine ⟨{ a with s6_addr := b₂ }, ?_, fun j hj => ?_⟩
  · rw [broadcastAddress, h₁, Option.bind_some, toNat_index, h₂, Option.map_some]
  · rw [hb₂, hb₁]
    rcases Nat.lt_trichotomy j (p.toNat / 8) with hlt | hk | hgt
    · rw [if_neg (by omega), if_neg (by omega), if_pos hlt]
    · rw [if_neg (by omega), if_pos hk, if_neg (by omega), if_pos hk, hk]
    · rw [if_pos (by omega), if_neg (by omega), if_neg (by omega)]

theorem networkAddress_of_lt (hp : p.toNat < 128) (a : IPv6Address) :
    ∃ n, a.networkAddress p = some n ∧ ∀ j, byte n.s6_addr j =
      if j = p.toNat / 8 then byte a.s6_addr j &&& hostMask p else byte a.s6_addr j := by
  obtain ⟨b, h, hb⟩ := maskByte_of_lt hp a.s6_addr (· &&& ·)
  refine ⟨{ a with s6_addr := b }, by rw [networkAddress, h, Option.map_some], fun j => ?_⟩
  rw [hb]
  split_ifs with hk
  · rw [hk]
  · rfl

/-- Of the full bytes of the mask only the first is filled. -/
theorem subnetMask_of_lt (hp : p.toNat < 128) :
    ∃ m, subnetMask p = some m ∧ ∀ j, byte m.s6_addr j =
      if j = 0 ∧ 8 ≤ p.toNat then 0xff
      else if j = p.toNat / 8 then leading 8 (p.toNat % 8) else 0 := by
  obtain ⟨b₁, h₁, hb₁⟩ := maskByte_of_lt hp (Vector.replicate 16 0) fun _ mask => ~~~mask
  obtain ⟨b₂, h₂, hb₂⟩ := fill_zero (p / 8) b₁
  have hpos : 0 < p / 8 ↔ 8 ≤ p.toNat := by
    rw [UInt32.lt_iff_toNat_lt, toNat_index, UInt32.toNat_zero]
    omega
  refine ⟨⟨b₂, 0⟩, by rw [subnetMask, h₁, Option.bind_some, h₂, Option.map_some], fun j => ?_⟩
  rw [hb₂, hb₁, byte_replicate, hostMask, BitVec.not_not]
  exact if_congr (and_congr_right fun _ => hpos) rfl rfl

theorem no_results (hp : 128 ≤ p.toNat) (a : IPv6Address) :
    subnetMask p = none ∧ a.networkAddress p = none ∧ a.broadcastAddress p = none := by
  refine ⟨?_, ?_, ?_⟩
  · rw [subnetMask, maskByte_of_le hp]
    rfl
  · rw [networkAddress, maskByte_of_le hp]
    rfl
  · rw [broadcastAddress, maskByte_of_le hp]
    rfl

/-! ### Laws -/

/-- The byte in which the prefix ends is one of the address. -/
def IndexLaw (p : UInt32) : Prop := (p / 8).toNat < 16

/-- The mask has exactly its leading bits set. -/
def MaskLaw (p : UInt32) : Prop :=
  ∃ m, subnetMask p = some m ∧ ∀ i < 128, bit m.s6_addr i = decide (i < p.toNat)

/-- The loop of `subnetMask` ends and has filled every full byte. -/
def LoopLaw (p : UInt32) : Prop :=
  ∃ m, subnetMask p = some m ∧ ∀ i < (p / 8).toNat, byte m.s6_addr i = 0xff

/-- The network address is the address under the mask. -/
def NetworkLaw (a : IPv6Address) (p : UInt32) : Prop :=
  ∃ m n, subnetMask p = some m ∧ a.networkAddress p = some n ∧
    n.s6_addr = combine (fun x y => x &&& y) a.s6_addr m.s6_addr

/-- The broadcast address has the other bits set. -/
def BroadcastLaw (a : IPv6Address) (p : UInt32) : Prop :=
  ∃ m n, subnetMask p = some m ∧ a.broadcastAddress p = some n ∧
    n.s6_addr = combine (fun x y => x ||| ~~~y) a.s6_addr m.s6_addr

/-- The algebra of prefixes. -/
structure SubnetLaws (a : IPv6Address) (p : UInt32) : Prop where
  index : IndexLaw p
  mask : MaskLaw p
  loop : LoopLaw p
  network : NetworkLaw a p
  broadcast : BroadcastLaw a p

theorem indexLaw_iff : IndexLaw p ↔ p.toNat < 128 := by
  rw [IndexLaw, toNat_index]
  omega

theorem lt_of_subnetMask {m : IPv6Address} (h : subnetMask p = some m) : p.toNat < 128 := by
  by_contra hp
  rw [(no_results (Nat.not_lt.mp hp) m).1] at h
  cases h

theorem maskLaw_iff : MaskLaw p ↔ p.toNat < 16 := by
  constructor
  · rintro ⟨m, hm, hbits⟩
    have hp := lt_of_subnetMask hm
    by_contra hlong
    obtain ⟨m', hm', hbytes⟩ := subnetMask_of_lt hp
    obtain rfl : m = m' := Option.some.inj (hm.symm.trans hm')
    -- the second byte of the mask is zero
    have hbit := hbits 8 (by decide)
    rw [bit, hbytes, if_neg (by omega), if_neg (by omega), decide_eq_true (by omega)] at hbit
    exact absurd hbit (by decide)
  · intro hp
    obtain ⟨m, hm, hbytes⟩ := subnetMask_of_lt (p := p) (by omega)
    refine ⟨m, hm, fun i hi => ?_⟩
    have hmod := Nat.mod_lt i (show 8 > 0 by decide)
    rw [bit, hbytes]
    split_ifs with hfull hend
    · rw [show (0xff : BitVec 8) = leading 8 8 by decide, getMsbD_leading hmod, decide_eq_decide]
      omega
    · rw [getMsbD_leading hmod, decide_eq_decide]
      omega
    · rw [show (0 : BitVec 8) = leading 8 0 by decide, getMsbD_leading hmod, decide_eq_decide]
      omega

theorem loopLaw_iff : LoopLaw p ↔ p.toNat < 16 := by
  constructor
  · rintro ⟨m, hm, hfull⟩
    obtain ⟨m', hm', hbytes⟩ := subnetMask_of_lt (lt_of_subnetMask hm)
    obtain rfl : m = m' := Option.some.inj (hm.symm.trans hm')
    by_contra hlong
    have hbyte := hfull 1 (by rw [toNat_index]; omega)
    rw [hbytes, if_neg (by omega), if_neg (by omega)] at hbyte
    exact absurd hbyte (by decide)
  · intro hp
    obtain ⟨m, hm, hbytes⟩ := subnetMask_of_lt (p := p) (by omega)
    refine ⟨m, hm, fun i hi => ?_⟩
    rw [toNat_index] at hi
    rw [hbytes, if_pos (by omega)]

/-- The bytes of a combination, one by one. -/
theorem eq_combine_iff {f : BitVec 8 → BitVec 8 → BitVec 8} {c : Bytes16} :
    c = combine f b b' ↔ ∀ j < 16, byte c j = f (byte b j) (byte b' j) := by
  constructor
  · rintro rfl j hj
    exact byte_combine hj
  · intro h
    exact byte_ext fun j hj => (h j hj).trans (byte_combine hj).symm

theorem networkLaw_iff : NetworkLaw a p ↔
    p.toNat < 128 ∧ ∀ i < 16, (8 ≤ p.toNat → i ≠ 0) → byte a.s6_addr i = 0 := by
  by_cases hp : p.toNat < 128
  · obtain ⟨m, hm, hmask⟩ := subnetMask_of_lt hp
    obtain ⟨n, hn, hnetwork⟩ := networkAddress_of_lt hp a
    rw [NetworkLaw, hm, hn, and_iff_right hp]
    simp only [Option.some.injEq, exists_and_left, exists_eq_left', eq_combine_iff]
    refine forall₂_congr fun j hj => ?_
    rw [hmask, hnetwork]
    by_cases hfirst : j = 0 ∧ 8 ≤ p.toNat
    · rw [if_pos hfirst, if_neg (by omega), show (0xff : BitVec 8) = BitVec.allOnes 8 by decide,
        BitVec.and_allOnes]
      exact iff_of_true rfl fun h => absurd hfirst.1 (h hfirst.2)
    · rw [if_neg hfirst, forall_prop_of_true fun h8 h0 => hfirst ⟨h0, h8⟩]
      by_cases hk : j = p.toNat / 8
      · rw [if_pos hk, if_pos hk, hostMask]
        exact and_compl_eq_and_iff _ _
      · rw [if_neg hk, if_neg hk, BitVec.ofNat_eq_ofNat, BitVec.and_zero]
  · refine iff_of_false (fun ⟨m, _, hm, _⟩ => hp (lt_of_subnetMask hm)) fun h => hp h.1

theorem broadcastLaw_iff : BroadcastLaw a p ↔
    p.toNat < 128 ∧ ∀ i, i ≠ 0 → i < p.toNat / 8 → byte a.s6_addr i = 0xff := by
  by_cases hp : p.toNat < 128
  · obtain ⟨m, hm, hmask⟩ := subnetMask_of_lt hp
    obtain ⟨n, hn, hbroadcast⟩ := broadcastAddress_of_lt hp a
    rw [BroadcastLaw, hm, hn, and_iff_right hp]
    simp only [Option.some.injEq, exists_and_left, exists_eq_left', eq_combine_iff]
    have hones : (0xff : BitVec 8) = BitVec.allOnes 8 := by decide
    have hcompl : ~~~(0 : BitVec 8) = BitVec.allOnes 8 := by decide
    constructor
    · intro h i hi hlt
      have hbyte := h i (by omega)
      rwa [hbroadcast i (by omega), if_pos hlt, hmask, if_neg (by omega), if_neg (by omega), hcompl,
        BitVec.or_allOnes, ← hones] at hbyte
    · intro h j hj
      rw [hbroadcast j hj, hmask]
      rcases Nat.lt_trichotomy j (p.toNat / 8) with hlt | hk | hgt
      · rw [if_pos hlt]
        by_cases hfirst : j = 0
        · rw [if_pos ⟨hfirst, by omega⟩, hones, BitVec.not_allOnes, BitVec.or_zero]
        · rw [if_neg (by omega), if_neg (by omega), hcompl, BitVec.or_allOnes, ← hones]
          exact h j hfirst hlt
      · rw [if_neg (by omega), if_pos hk, if_neg (by omega), if_pos hk, hostMask]
      · rw [if_neg (by omega), if_neg (by omega), if_neg (by omega), if_neg (by omega), hcompl,
          BitVec.or_allOnes, hones]
  · refine iff_of_false (fun ⟨m, _, hm, _⟩ => hp (lt_of_subnetMask hm)) fun h => hp h.1

/-- **Where the functions obey the laws**: the prefix ends in the first two bytes, where the loop of
`subnetMask` has nothing to miss, and the host, which `networkAddress` keeps, is zero. -/
theorem ipv6_laws_iff (a : IPv6Address) (p : UInt32) :
    (IndexLaw p ↔ p.toNat < 128) ∧ (MaskLaw p ↔ p.toNat < 16) ∧ (LoopLaw p ↔ p.toNat < 16) ∧
    (NetworkLaw a p ↔
      p.toNat < 128 ∧ ∀ i < 16, (8 ≤ p.toNat → i ≠ 0) → byte a.s6_addr i = 0) ∧
    (BroadcastLaw a p ↔
      p.toNat < 128 ∧ ∀ i, i ≠ 0 → i < p.toNat / 8 → byte a.s6_addr i = 0xff) ∧
    (SubnetLaws a p ↔ p.toNat < 16 ∧ ∀ i < 16, p.toNat / 8 ≤ i → byte a.s6_addr i = 0) := by
  refine ⟨indexLaw_iff, maskLaw_iff, loopLaw_iff, networkLaw_iff, broadcastLaw_iff, ?_⟩
  constructor
  · intro h
    have hshort := maskLaw_iff.mp h.mask
    obtain ⟨-, hzero⟩ := networkLaw_iff.mp h.network
    exact ⟨hshort, fun i hi hle => hzero i hi fun _ => by omega⟩
  · rintro ⟨hshort, hzero⟩
    refine ⟨indexLaw_iff.mpr (by omega), maskLaw_iff.mpr hshort, loopLaw_iff.mpr hshort,
      networkLaw_iff.mpr ⟨by omega, fun i hi hfirst => hzero i hi ?_⟩,
      broadcastLaw_iff.mpr ⟨by omega, fun i hi hlt => ?_⟩⟩
    · by_cases hlong : 8 ≤ p.toNat
      · have hne := hfirst hlong
        omega
      · omega
    · omega

/-- Of the eight bytes of a mask of length 64 one is filled; the mask of length 128 is written past
the end. -/
theorem mask_fills_one_byte :
    (∃ m, subnetMask 64 = some m ∧ byte m.s6_addr 0 = 0xff ∧ byte m.s6_addr 1 = 0) ∧
    subnetMask 128 = none ∧ ¬ ∀ a p, p ≤ 128 → SubnetLaws a p := by
  have hlong : ∀ a, ¬ SubnetLaws a 64 := fun a h => absurd (maskLaw_iff.mp h.mask) (by decide)
  refine ⟨?_, (no_results (by decide) ⟨Vector.replicate 16 0, 0⟩).1, fun h => ?_⟩
  · obtain ⟨m, hm, hbytes⟩ := subnetMask_of_lt (p := 64) (by decide)
    refine ⟨m, hm, ?_, ?_⟩
    · rw [hbytes, if_pos (by decide)]
    · rw [hbytes, if_neg (by decide), if_neg (by decide)]
  · exact hlong ⟨Vector.replicate 16 0, 0⟩ (h _ 64 (by decide))

end IPv6Address

end Address

end Sylar

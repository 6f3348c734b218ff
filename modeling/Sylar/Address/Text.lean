import Sylar.Address.Model
import Sylar.Foundation.Groups

/-!
# IPv6 addresses as text

`insert` writes the eight groups of an address in one pass. The first run of zero groups that it
meets is left out; `used_zeros` says whether this run is over, and the group before the current
one whether it has begun.

## Main definitions

* `insertStep`, `insert`: the loop and the text
* `Written`: what the loop has written after some groups

## Main results

* `written_insertStep`: one turn of the loop
* `written_insertLoop`: the loop
* `insert_faithful`: the text stands for the address
-/

namespace Sylar

open Foundation

namespace Address

/-- `byteswapOnLittleEndian`, on a word of two bytes. -/
def byteswapOnLittleEndian16 (t : BitVec 16) : BitVec 16 := bswap16 t

namespace IPv6Address

/-! ## The text -/

/-- `addr[i]`, for `addr = (uint16_t*)s6_addr`: the byte that comes first is the low one. -/
def addr (s6_addr : Bytes16) (i : ℕ) : BitVec 16 := byte s6_addr (2 * i + 1) ++ byte s6_addr (2 * i)

/-- What is written so far, and `used_zeros`. -/
structure Output where
  os : List Char
  used_zeros : Bool
  deriving DecidableEq, Repr

/-- One turn of the loop of `insert`. -/
def insertStep (addr : ℕ → BitVec 16) (s : Output) (i : ℕ) : Output :=
  -- a zero while the two colons are not written: nothing is written
  if addr i = 0#16 ∧ !s.used_zeros then s
  else
    let s := if i ≠ 0 ∧ addr (i - 1) = 0#16 ∧ !s.used_zeros
      then { os := s.os ++ [':'], used_zeros := true } else s
    let os := if i ≠ 0 then s.os ++ [':'] else s.os
    { s with os := os ++ hexText (byteswapOnLittleEndian16 (addr i)).toNat }

/-- The loop of `insert`, for `n` groups. -/
def insertLoop (addr : ℕ → BitVec 16) (n : ℕ) : Output :=
  (List.range n).foldl (insertStep addr) { os := [], used_zeros := false }

/-- The text between the brackets. -/
def insertGroups (s6_addr : Bytes16) : List Char :=
  let s := insertLoop (addr s6_addr) 8
  if !s.used_zeros ∧ addr s6_addr 7 = 0#16 then s.os ++ [':', ':'] else s.os

def insert (a : IPv6Address) : List Char :=
  '[' :: insertGroups a.s6_addr
    ++ [']', ':'] ++ Nat.toDigits 10 (byteswapOnLittleEndian16 a.sin6_port).toNat

/-! ## The loop -/

/-- The number of a group. -/
def group (addr : ℕ → BitVec 16) (i : ℕ) : ℕ := (byteswapOnLittleEndian16 (addr i)).toNat

theorem group_lt (addr : ℕ → BitVec 16) (i : ℕ) : group addr i < 65536 :=
  (byteswapOnLittleEndian16 (addr i)).isLt

theorem group_eq_zero_iff (addr : ℕ → BitVec 16) (i : ℕ) : group addr i = 0 ↔ addr i = 0#16 := by
  constructor
  · intro h
    have hzero : byteswapOnLittleEndian16 (addr i) = 0#16 := BitVec.toNat_inj.mp h
    rw [← bswap16_bswap16 (addr i)]
    exact congrArg bswap16 hzero
  · intro h
    rw [group, h]
    rfl

/-- What the loop has written after the groups `gs`: all groups before a run of zero groups that
is not over, or the groups on both sides of a run that is. -/
inductive Written : List ℕ → Output → Prop
  | running (pre : List ℕ) (n : ℕ) (hpre : ∀ g ∈ pre, g ≠ 0) :
      Written (pre ++ List.replicate n 0) { os := joined pre, used_zeros := false }
  | past (pre : List ℕ) (n : ℕ) (rest : List ℕ) (hrest : rest ≠ []) :
      Written (pre ++ List.replicate (n + 1) 0 ++ rest)
        { os := joined pre ++ ':' :: ':' :: joined rest, used_zeros := true }

/-- The groups before the `i`-th one. -/
def groupsBefore (addr : ℕ → BitVec 16) (i : ℕ) : List ℕ := (List.range i).map (group addr)

theorem groupsBefore_succ (addr : ℕ → BitVec 16) (i : ℕ) :
    groupsBefore addr (i + 1) = groupsBefore addr i ++ [group addr i] := by
  simp [groupsBefore, List.range_succ]

/-- The group in front of the `i`-th one. -/
theorem getLast?_groupsBefore (addr : ℕ → BitVec 16) {i : ℕ} (hi : i ≠ 0) :
    (groupsBefore addr i).getLast? = some (group addr (i - 1)) := by
  obtain ⟨j, rfl⟩ := Nat.exists_eq_succ_of_ne_zero hi
  rw [Nat.succ_eq_add_one, groupsBefore_succ, List.getLast?_concat]
  rfl

theorem groupsBefore_eq_nil_iff (addr : ℕ → BitVec 16) (i : ℕ) :
    groupsBefore addr i = [] ↔ i = 0 := by
  simp [groupsBefore]

/-- A group with a separator in front, unless it is the first one. -/
theorem joined_append_group {addr : ℕ → BitVec 16} {i : ℕ} {pre : List ℕ} {text : List Char}
    (hpre : pre = [] ↔ i = 0) (htext : text = joined pre) :
    (if i ≠ 0 then text ++ [':'] else text) ++ hexText (group addr i)
      = joined (pre ++ [group addr i]) := by
  subst htext
  by_cases hi : i = 0
  · have hnil : pre = [] := hpre.mpr hi
    subst hnil
    simp [hi]
  · rw [joined_snoc (mt hpre.mp hi), if_pos hi, List.append_assoc, List.singleton_append]

/-- One turn of the loop. -/
theorem written_insertStep {addr : ℕ → BitVec 16} {i : ℕ} {gs : List ℕ} {s : Output}
    (hgs : gs = groupsBefore addr i) (h : Written gs s) :
    Written (gs ++ [group addr i]) (insertStep addr s i) := by
  have hnil : gs = [] ↔ i = 0 := hgs ▸ groupsBefore_eq_nil_iff addr i
  have hlast : i ≠ 0 → gs.getLast? = some (group addr (i - 1)) := fun hi =>
    hgs ▸ getLast?_groupsBefore addr hi
  cases h with
  | running pre n hpre =>
    by_cases hzero : addr i = 0#16
    · -- the run goes on, or begins here
      have hstep : insertStep addr { os := joined pre, used_zeros := false } i
          = { os := joined pre, used_zeros := false } := by
        simp [insertStep, hzero]
      rw [hstep, (group_eq_zero_iff addr i).mpr hzero, List.append_assoc, ← List.replicate_succ']
      exact Written.running pre (n + 1) hpre
    · have hg : group addr i ≠ 0 := mt (group_eq_zero_iff addr i).mp hzero
      cases n with
      | zero =>
        -- no run has begun: the group in front is not zero
        rw [List.replicate_zero, List.append_nil] at hnil hlast ⊢
        have hprev : i ≠ 0 → addr (i - 1) ≠ 0#16 := by
          intro hi hprev
          have hmem : group addr (i - 1) ∈ pre := List.mem_of_getLast? (hlast hi)
          exact hpre _ hmem ((group_eq_zero_iff addr _).mpr hprev)
        have hstep : insertStep addr { os := joined pre, used_zeros := false } i
            = { os := joined (pre ++ [group addr i]), used_zeros := false } := by
          rw [← joined_append_group hnil rfl]
          by_cases hi : i = 0
          · rw [hi] at hzero
            simp [insertStep, hzero, hi, group]
          · simp [insertStep, hzero, hi, hprev hi, group]
        have hpre' : ∀ g ∈ pre ++ [group addr i], g ≠ 0 := by
          intro g hmem
          rcases List.mem_append.mp hmem with hold | hnew
          · exact hpre g hold
          · rwa [List.mem_singleton.mp hnew]
        rw [hstep]
        simpa using Written.running (pre ++ [group addr i]) 0 hpre'
      | succ n =>
        -- the run ends here: the group in front is its last one
        have hi : i ≠ 0 := fun h => by simpa using hnil.mpr h
        have hprev : addr (i - 1) = 0#16 := by
          have hzeros := hlast hi
          rw [List.replicate_succ', ← List.append_assoc, List.getLast?_concat] at hzeros
          exact (group_eq_zero_iff addr _).mp (Option.some.inj hzeros).symm
        have hstep : insertStep addr { os := joined pre, used_zeros := false } i
            = { os := joined pre ++ ':' :: ':' :: joined [group addr i], used_zeros := true } := by
          simp [insertStep, hzero, hi, hprev, group]
        rw [hstep]
        exact Written.past pre n [group addr i] (List.cons_ne_nil _ _)
  | past pre n rest hrest =>
    have hi : i ≠ 0 := fun h => by simpa using hnil.mpr h
    have hstep : insertStep addr
          { os := joined pre ++ ':' :: ':' :: joined rest, used_zeros := true } i
        = { os := joined pre ++ ':' :: ':' :: joined (rest ++ [group addr i]),
            used_zeros := true } := by
      simp [insertStep, hi, joined_snoc hrest, group]
    rw [hstep, List.append_assoc]
    exact Written.past pre n (rest ++ [group addr i]) (by simp)

/-- The loop. -/
theorem written_insertLoop (addr : ℕ → BitVec 16) (n : ℕ) :
    Written (groupsBefore addr n) (insertLoop addr n) := by
  induction n with
  | zero => exact Written.running [] 0 fun g hmem => absurd hmem List.not_mem_nil
  | succ n ih =>
    rw [groupsBefore_succ, insertLoop, List.range_succ, List.foldl_append]
    exact written_insertStep rfl ih

/-! ## The address -/

/-- The groups of an address, from the left: two bytes each, the high one first. -/
def groups (s6_addr : Bytes16) : List ℕ :=
  (List.range 8).map fun i =>
    256 * (byte s6_addr (2 * i)).toNat + (byte s6_addr (2 * i + 1)).toNat

theorem group_addr (s6_addr : Bytes16) (i : ℕ) :
    group (addr s6_addr) i
      = 256 * (byte s6_addr (2 * i)).toNat + (byte s6_addr (2 * i + 1)).toNat := by
  rw [group, addr, byteswapOnLittleEndian16, bswap16_append, BitVec.toNat_append,
    Nat.shiftLeft_eq, Nat.mul_comm _ (2 ^ 8), ← Nat.two_pow_add_eq_or_of_lt (BitVec.isLt _)]

theorem groupsBefore_addr (s6_addr : Bytes16) : groupsBefore (addr s6_addr) 8 = groups s6_addr :=
  List.map_congr_left fun i _ => group_addr s6_addr i

theorem groups_inj {a b : Bytes16} (h : groups a = groups b) : a = b := by
  have hpair : ∀ i < 8, byte a (2 * i) = byte b (2 * i)
      ∧ byte a (2 * i + 1) = byte b (2 * i + 1) := by
    intro i hi
    have hgroup := List.map_inj_left.mp h i (List.mem_range.mpr hi)
    have ha := (byte a (2 * i + 1)).isLt
    have hb := (byte b (2 * i + 1)).isLt
    exact ⟨BitVec.toNat_inj.mp (by omega), BitVec.toNat_inj.mp (by omega)⟩
  have hbyte : ∀ k < 16, byte a k = byte b k := by
    intro k hk
    obtain ⟨heven, hodd⟩ := hpair (k / 2) (by omega)
    rcases Nat.mod_two_eq_zero_or_one k with hmod | hmod
    · rwa [Nat.mul_div_cancel' (Nat.dvd_of_mod_eq_zero hmod)] at heven
    · rwa [← hmod, Nat.div_add_mod] at hodd
  refine Vector.ext fun k hk => ?_
  simpa [byte, hk] using hbyte k hk

/-- What the loop has written stands for the groups, once an open run of zero groups is closed. -/
theorem expand_of_written {gs : List ℕ} {s : Output} (h : Written gs s) (hlen : gs.length = 8)
    (hlt : ∀ g ∈ gs, g < 65536) :
    expand (if !s.used_zeros ∧ gs.getLast? = some 0 then s.os ++ [':', ':'] else s.os)
      = some gs := by
  cases h with
  | running pre n hpre =>
    cases n with
    | zero =>
      rw [List.replicate_zero, List.append_nil] at hlen hlt ⊢
      have hlast : pre.getLast? ≠ some 0 := fun h => hpre 0 (List.mem_of_getLast? h) rfl
      rw [if_neg fun h => hlast h.2]
      exact expand_full hlen hlt
    | succ n =>
      have hlast : (pre ++ List.replicate (n + 1) 0).getLast? = some 0 := by
        rw [List.replicate_succ', ← List.append_assoc, List.getLast?_concat]
      rw [if_pos ⟨rfl, hlast⟩]
      have hexpand : expand (joined pre ++ ':' :: ':' :: joined [])
          = some (pre ++ List.replicate (n + 1) 0 ++ []) :=
        expand_compressed (by simpa using hlen)
          (fun g hg => hlt g (List.mem_append_left _ hg)) fun g hg => absurd hg List.not_mem_nil
      rwa [List.append_nil] at hexpand
  | past pre n rest hrest =>
    rw [if_neg fun h => Bool.noConfusion h.1]
    refine expand_compressed ?_ (fun g hg => hlt g ?_) fun g hg => hlt g ?_
    · simpa [Nat.add_assoc] using hlen
    · exact List.mem_append_left _ (List.mem_append_left _ hg)
    · exact List.mem_append_right _ hg

theorem expand_insertGroups (s6_addr : Bytes16) :
    expand (insertGroups s6_addr) = some (groups s6_addr) := by
  have hwritten := written_insertLoop (addr s6_addr) 8
  have hlast : addr s6_addr 7 = 0#16 ↔ (groupsBefore (addr s6_addr) 8).getLast? = some 0 := by
    rw [getLast?_groupsBefore _ (by decide), Option.some_inj, group_eq_zero_iff]
  have hlt : ∀ g ∈ groupsBefore (addr s6_addr) 8, g < 65536 := by
    intro g hg
    obtain ⟨i, -, rfl⟩ := List.mem_map.mp hg
    exact group_lt _ i
  rw [insertGroups, ← groupsBefore_addr]
  simp only [hlast]
  exact expand_of_written hwritten (by simp [groupsBefore]) hlt

/-! ## The brackets -/

/-- The text between the brackets. -/
def between (text : List Char) : List Char := (text.drop 1).takeWhile (· ≠ ']')

theorem bracket_notMem_of_written {gs : List ℕ} {s : Output} (h : Written gs s) : ']' ∉ s.os := by
  cases h with
  | running pre n hpre => exact bracket_notMem_joined pre
  | past pre n rest hrest => simp [bracket_notMem_joined]

theorem between_insert (a : IPv6Address) : between (insert a) = insertGroups a.s6_addr := by
  have hos := bracket_notMem_of_written (written_insertLoop (addr a.s6_addr) 8)
  have hno : ']' ∉ insertGroups a.s6_addr := by
    rw [insertGroups]
    split_ifs
    · simpa using hos
    · exact hos
  have hall : ∀ c ∈ insertGroups a.s6_addr, decide (c ≠ ']') = true := by
    intro c hc
    refine decide_eq_true fun h => hno ?_
    rwa [← h]
  rw [between, insert, List.append_assoc, List.cons_append, List.drop_one, List.tail_cons,
    List.cons_append, List.takeWhile_append_of_pos hall, List.takeWhile_cons_of_neg (by decide),
    List.append_nil]

/-- The text between the brackets stands for the address, and for no other one. -/
theorem insert_faithful (a : IPv6Address) :
    expand (between (insert a)) = some (groups a.s6_addr)
      ∧ ∀ b : IPv6Address, between (insert b) = between (insert a) ↔ b.s6_addr = a.s6_addr := by
  have hexpand : ∀ b : IPv6Address, expand (between (insert b)) = some (groups b.s6_addr) := by
    intro b
    rw [between_insert, expand_insertGroups]
  refine ⟨hexpand a, fun b => ⟨fun heq => groups_inj (Option.some.inj ?_), fun heq => ?_⟩⟩
  · rw [← hexpand a, ← hexpand b, heq]
  · rw [between_insert, between_insert, heq]

example :
    let s6_addr : Bytes16 := #v[0x20, 0x01, 0x0d, 0xb8, 0, 0, 0, 0, 0, 0, 0, 0, 0, 0, 0, 1]
    insert { s6_addr := s6_addr, sin6_port := 0x5000 } = "[2001:db8::1]:80".toList := by
  decide

end IPv6Address

end Address

end Sylar

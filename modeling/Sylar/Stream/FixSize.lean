import Mathlib.Algebra.BigOperators.Group.List.Basic
import Mathlib.Algebra.Order.BigOperators.Group.List
import Mathlib.Data.Int.ModEq
import Mathlib.Tactic.Ring

/-!
# Reads and writes of a fixed size

`readFixSize` and `writeFixSize` call `read` or `write` until nothing is left. They keep the
result, an `int`, in a `size_t`, which is never below 0: after an error they go on, one byte to the
left, and at the end of the stream they call again. So they stop on success only.

## Main definitions

* `fixLoop`: the loop the four members share, with what it asks for and what it returns
* `readFixSize`, `readFixSizeByteArray`, `writeFixSize`, `writeFixSizeByteArray`: the members
* `Exact`: the member stops at the first failure or with the length
* `Clean`: no call fails before the length is reached

## Main results

* `fixLoop_append`: the loop on results that do not fail
* `fix_size_iff`: the members are exact exactly on clean results
-/

namespace Sylar

namespace Streams

/-- The conversion of an `int` to `size_t`. -/
def toSize (n : ℤ) : ℕ := (n % 2 ^ 64).toNat

/-- The conversion of a `size_t` to `int`. -/
def toInt (n : ℕ) : ℤ := Int.bmod n (2 ^ 32)

/-- A call of the underlying `read` or `write`: where it transfers to or from, the length it asks
for, and its result. -/
structure Call where
  offset : ℕ
  left : ℕ
  rt : ℤ
  deriving DecidableEq, Repr

/-- The loop with the given results of the underlying calls: the calls it makes, and what it
returns when it does not ask for more results. -/
def fixLoop (advance : ℕ → ℤ → ℕ) (length : ℕ) : List ℤ → ℕ → ℕ → List Call × Option ℤ
  | [], _, left => ([], if 0 < left then none else some (toInt length))
  | rt :: rts, offset, left =>
    if 0 < left then
      let len := toSize rt
      -- `len` is unsigned
      if len < 0 then ([⟨offset, left, rt⟩], some (toInt len))
      else
        let r := fixLoop advance length rts (advance offset rt) (toSize (left - len))
        (⟨offset, left, rt⟩ :: r.1, r.2)
    else ([], some (toInt length))

/-- `offset += len`. -/
def advanceOffset (offset : ℕ) (rt : ℤ) : ℕ := (offset + toSize rt) % 2 ^ 64

/-- What `SocketStream::read` and `write` do to the position of a byte array. -/
def advancePosition (position : ℕ) (rt : ℤ) : ℕ :=
  if 0 < rt then position + rt.toNat else position

/-- `readFixSize(buffer, length)`. -/
def readFixSize (length : ℕ) (rts : List ℤ) : List Call × Option ℤ :=
  fixLoop advanceOffset length rts 0 length

/-- `readFixSize(ba, length)`, with `ba` at a position. -/
def readFixSizeByteArray (position length : ℕ) (rts : List ℤ) : List Call × Option ℤ :=
  fixLoop advancePosition length rts position length

/-- `writeFixSize(buffer, length)`. -/
def writeFixSize (length : ℕ) (rts : List ℤ) : List Call × Option ℤ :=
  fixLoop advanceOffset length rts 0 length

/-- `writeFixSize(ba, length)`, with `ba` at a position. -/
def writeFixSizeByteArray (position length : ℕ) (rts : List ℤ) : List Call × Option ℤ :=
  fixLoop advancePosition length rts position length

/-! ## What the members are for -/

/-- The first results of an unending sequence of them. -/
def first (n : ℕ) (rts : ℕ → ℤ) : List ℤ := (List.range n).map rts

/-- The length transferred by the first calls. -/
def total (rts : ℕ → ℤ) (i : ℕ) : ℤ := (first i rts).sum

/-- The length that the call of a number asks for. -/
def leftAt (length : ℕ) (rts : ℕ → ℤ) : ℕ → ℕ
  | 0 => length
  | i + 1 => toSize (leftAt length rts i - toSize (rts i))

/-- Each call that is made fails, or transfers something but no more than it is asked for. The
results are of type `int`. -/
def Answers (length : ℕ) (rts : ℕ → ℤ) : Prop :=
  ∀ i, (∀ j ≤ i, 0 < leftAt length rts j) →
    rts i = -1 ∨ rts i = 0 ∨ 1 ≤ rts i ∧ rts i ≤ leftAt length rts i ∧ rts i < 2 ^ 31

/-- The call of a number, if those before it transferred to consecutive places from `start` on. -/
def nextCall (start length : ℕ) (rts : ℕ → ℤ) (i : ℕ) : Call :=
  ⟨(start + total rts i).toNat, (length - total rts i).toNat, rts i⟩

/-- **Exact transfer**: after some number of calls, to consecutive places, of which only the last
may fail, the member returns: the length when it is transferred, and a value of at most 0 when the
last call failed. -/
def Exact (start length : ℕ) (rts : ℕ → ℤ) (member : List ℤ → List Call × Option ℤ) : Prop :=
  ∃ n v, member (first n rts) = ((List.range n).map (nextCall start length rts), some v) ∧
    (∀ i < n, 0 ≤ total rts i ∧ total rts i < length) ∧
    (∀ i, i + 1 < n → 0 < rts i) ∧
    ((∀ i < n, 0 < rts i) ∧ total rts n = length ∧ v = length ∨
      (∃ m, n = m + 1 ∧ rts m ≤ 0) ∧ v ≤ 0)

/-- No call fails before the length is reached, which is an `int`. -/
def Clean (length : ℕ) (rts : ℕ → ℤ) : Prop :=
  length < 2 ^ 31 ∧ ∀ i, (∀ j < i, 0 < rts j) → total rts i < length → 0 < rts i

variable {advance : ℕ → ℤ → ℕ} {start length n i : ℕ} {rts : ℕ → ℤ}

theorem total_succ (rts : ℕ → ℤ) (i : ℕ) : total rts (i + 1) = total rts i + rts i := by
  rw [total, first, List.range_succ, List.map_append, List.sum_append, List.map_singleton,
    List.sum_singleton]
  rfl

@[simp] theorem total_zero (rts : ℕ → ℤ) : total rts 0 = 0 := rfl

theorem first_succ (n : ℕ) (rts : ℕ → ℤ) : first (n + 1) rts = first n rts ++ [rts n] := by
  rw [first, List.range_succ, List.map_append, List.map_singleton]
  rfl

/-- Calls that succeed transfer at least a byte each. -/
theorem le_total (h : ∀ j < i, 0 < rts j) : (i : ℤ) ≤ total rts i := by
  induction i with
  | zero => exact le_rfl
  | succ i ih =>
    have hle := ih fun j hj => h j (Nat.lt_succ_of_lt hj)
    have hpos := h i (Nat.lt_succ_self i)
    rw [total_succ, Nat.cast_succ]
    omega

theorem total_mono {k : ℕ} (hik : i ≤ k) (h : ∀ j < k, 0 < rts j) : total rts i ≤ total rts k := by
  induction k, hik using Nat.le_induction with
  | base => exact le_rfl
  | succ k _ ih =>
    have hpos := h k (Nat.lt_succ_self k)
    have hle := ih fun j hj => h j (Nat.lt_succ_of_lt hj)
    rw [total_succ]
    omega

theorem toSize_of_lt {m : ℤ} (h : 0 ≤ m) (hlt : m < 2 ^ 64) : toSize m = m.toNat := by
  rw [toSize, Int.emod_eq_of_lt h hlt]

theorem toInt_eq_iff : toInt length = length ↔ length < 2 ^ 31 := by
  constructor
  · intro h
    have hlt : toInt length < 2 ^ 31 :=
      Int.bmod_lt (x := (length : ℤ)) (m := 2 ^ 32) (Nat.two_pow_pos 32)
    omega
  · intro h
    apply Int.bmod_eq_of_le <;> omega

/-- The call of a number asks for what is missing, when those before it have not failed. -/
theorem leftAt_eq (hlength : length < 2 ^ 64) (h : ∀ j < i, 0 < rts j)
    (hle : total rts i ≤ length) : leftAt length rts i = (length - total rts i).toNat := by
  induction i with
  | zero => simp [leftAt]
  | succ i ih =>
    have hpos := h i (Nat.lt_succ_self i)
    have hbefore := le_total fun j hj => h j (Nat.lt_succ_of_lt hj)
    rw [total_succ] at hle ⊢
    rw [leftAt, ih (fun j hj => h j (Nat.lt_succ_of_lt hj)) (by omega),
      toSize_of_lt hpos.le (by omega), toSize_of_lt (by omega) (by omega)]
    omega

/-- Where a call transfers to moves by its result. -/
def Advances (start length : ℕ) (advance : ℕ → ℤ → ℕ) : Prop :=
  ∀ (offset : ℕ) (rt : ℤ), 0 < rt → offset + rt ≤ start + length →
    advance offset rt = (offset + rt).toNat

/-- **Results that do not fail**: the calls go to consecutive places, and the loop goes on behind
them. -/
theorem fixLoop_append (hadvance : Advances start length advance) (hlength : length < 2 ^ 64)
    (h : ∀ j < n, 0 < rts j) (hle : total rts n ≤ length) (rest : List ℤ) :
    fixLoop advance length (first n rts ++ rest) start length =
      ((List.range n).map (nextCall start length rts) ++
          (fixLoop advance length rest (start + total rts n).toNat (length - total rts n).toNat).1,
        (fixLoop advance length rest (start + total rts n).toNat
          (length - total rts n).toNat).2) := by
  induction n generalizing rest with
  | zero => simp [first]
  | succ n ih =>
    have hpos := h n (Nat.lt_succ_self n)
    have hbefore := le_total fun j hj => h j (Nat.lt_succ_of_lt hj)
    rw [total_succ] at hle ⊢
    have hsize : toSize (rts n) = (rts n).toNat := toSize_of_lt hpos.le (by omega)
    have hleft : toSize ((length - total rts n).toNat - (toSize (rts n) : ℤ)) =
        (length - (total rts n + rts n)).toNat := by
      rw [hsize, toSize_of_lt (by omega) (by omega)]
      omega
    have hoffset : advance (start + total rts n).toNat (rts n) =
        (start + (total rts n + rts n)).toNat := by
      rw [hadvance _ _ hpos (by omega)]
      omega
    rw [first_succ, List.append_assoc, ih (fun j hj => h j (Nat.lt_succ_of_lt hj)) (by omega),
      List.singleton_append, fixLoop, if_pos (by omega), if_neg (Nat.not_lt_zero _), hleft, hoffset,
      List.range_succ, List.map_append, List.map_singleton, List.append_assoc,
      List.singleton_append]
    rfl

/-! ## Exact transfers -/

/-- The loop behind results that did not fail, with one more result. -/
theorem fixLoop_first (hadvance : Advances start length advance) (hlength : length < 2 ^ 64)
    (h : ∀ j < n, 0 < rts j) (hle : total rts n ≤ length) :
    fixLoop advance length (first n rts) start length =
      ((List.range n).map (nextCall start length rts),
        if total rts n < length then none else some (toInt length)) := by
  have hrun := fixLoop_append hadvance hlength h hle []
  rw [List.append_nil] at hrun
  rw [hrun, fixLoop, List.append_nil]
  congr 1
  by_cases hlt : total rts n < length
  · rw [if_pos (by omega), if_pos hlt]
  · rw [if_neg (by omega), if_neg hlt]

/-- After a failed call the loop has not returned, unless the length wraps. -/
theorem fixLoop_failed (hadvance : Advances start length advance) (hlength : length < 2 ^ 64)
    (h : ∀ j < n, 0 < rts j) (hlt : total rts n < length) (hfail : rts n = -1 ∨ rts n = 0) :
    fixLoop advance length (first (n + 1) rts) start length =
      ((List.range (n + 1)).map (nextCall start length rts),
        if rts n = -1 ∧ total rts n = 0 ∧ length + 1 = 2 ^ 64 then some (toInt length)
        else none) := by
  have hpos := le_total h
  have hleft : 0 < toSize ((length - total rts n).toNat - (toSize (rts n) : ℤ)) ↔
      ¬ (rts n = -1 ∧ total rts n = 0 ∧ length + 1 = 2 ^ 64) := by
    unfold toSize
    rcases hfail with hfail | hfail <;> rw [hfail] <;> omega
  rw [first_succ, fixLoop_append hadvance hlength h hlt.le, fixLoop, if_pos (by omega),
    if_neg (Nat.not_lt_zero _), List.range_succ, List.map_append, List.map_singleton]
  simp only [fixLoop]
  congr 1
  by_cases hwrap : rts n = -1 ∧ total rts n = 0 ∧ length + 1 = 2 ^ 64
  · rw [if_pos hwrap, if_neg fun hmore => hleft.mp hmore hwrap]
  · rw [if_neg hwrap, if_pos (hleft.mpr hwrap)]

/-- A call before the length is reached fails or transfers what is missing at most. -/
theorem Answers.cases (hanswers : Answers length rts) (hlength : length < 2 ^ 64)
    (h : ∀ j < i, 0 < rts j) (hlt : total rts i < length) :
    rts i = -1 ∨ rts i = 0 ∨ 0 < rts i ∧ total rts (i + 1) ≤ length := by
  have hleft : ∀ j ≤ i,
      leftAt length rts j = (length - total rts j).toNat ∧ total rts j < length := by
    intro j hj
    have hmono := total_mono hj h
    exact ⟨leftAt_eq hlength (fun k hk => h k (by omega)) (by omega), by omega⟩
  have hi := hanswers i fun j hj => by
    have hj := hleft j hj
    omega
  rw [(hleft i le_rfl).1] at hi
  rw [total_succ]
  omega

/-- Clean results reach the length after some number of calls. -/
theorem Clean.reaches (hclean : Clean length rts) (hanswers : Answers length rts)
    (hlength : length < 2 ^ 64) :
    ∃ n, (∀ i < n, 0 < rts i ∧ total rts i < length) ∧ total rts n = length := by
  -- otherwise each of any number of calls transfers a byte
  have hsteps : ∀ n, (∃ k ≤ n, (∀ i < k, 0 < rts i ∧ total rts i < length) ∧
      total rts k = length) ∨ ((∀ i < n, 0 < rts i ∧ total rts i < length) ∧
        total rts n < length) := by
    intro n
    induction n with
    | zero =>
      rcases Nat.eq_zero_or_pos length with hzero | hpos
      · exact .inl ⟨0, le_rfl, fun i hi => absurd hi (Nat.not_lt_zero i), by simp [hzero]⟩
      · exact .inr ⟨fun i hi => absurd hi (Nat.not_lt_zero i), by simpa using hpos⟩
    | succ n ih =>
      rcases ih with ⟨k, hk, hdone⟩ | ⟨hbefore, hlt⟩
      · exact .inl ⟨k, Nat.le_succ_of_le hk, hdone⟩
      · have hpos := hclean.2 n (fun j hj => (hbefore j hj).1) hlt
        have hcases := hanswers.cases hlength (fun j hj => (hbefore j hj).1) hlt
        have hle : total rts (n + 1) ≤ length := by omega
        have hall : ∀ i < n + 1, 0 < rts i ∧ total rts i < length := by
          intro i hi
          rcases Nat.lt_succ_iff_lt_or_eq.mp hi with hi | rfl
          · exact hbefore i hi
          · exact ⟨hpos, hlt⟩
        rcases hle.lt_or_eq with hlt | heq
        · exact .inr ⟨hall, hlt⟩
        · exact .inl ⟨n + 1, le_rfl, hall, heq⟩
  rcases hsteps length with ⟨k, -, hdone⟩ | ⟨hbefore, hlt⟩
  · exact ⟨k, hdone⟩
  · have hle := le_total fun j hj => (hbefore j hj).1
    omega

/-- **A member is exact** exactly on clean results, or when an error makes the largest length wrap
to 0. -/
theorem exact_iff (hadvance : Advances start length advance) (hlength : length < 2 ^ 64)
    (hanswers : Answers length rts) :
    Exact start length rts (fun rts => fixLoop advance length rts start length) ↔
      Clean length rts ∨ length + 1 = 2 ^ 64 ∧ rts 0 = -1 := by
  constructor
  · rintro ⟨n, v, hrun, hbounds, hbefore, hend⟩
    -- it ends with all bytes, or with the first answer that is no progress
    rcases hend with ⟨hall, htotal, rfl⟩ | ⟨⟨m, rfl, hfail⟩, hv⟩
    · have hfirst := fixLoop_first hadvance hlength hall htotal.le
      rw [if_neg (by omega)] at hfirst
      have hrun := hfirst.symm.trans hrun
      have hint := Option.some.inj (Prod.mk.inj hrun).2
      refine .inl ⟨toInt_eq_iff.mp hint, fun i hi hlt => hall i ?_⟩
      by_contra hge
      have hmono := total_mono (not_lt.mp hge) hi
      omega
    · have hpos : ∀ j < m, 0 < rts j := fun j hj => hbefore j (by omega)
      obtain ⟨-, hlt⟩ := hbounds m (Nat.lt_succ_self m)
      have hcases := hanswers.cases hlength hpos hlt
      have hreturn := fixLoop_failed hadvance hlength hpos hlt (by omega)
      have hreturn := hreturn.symm.trans hrun
      split_ifs at hreturn with hcorner
      · obtain ⟨herror, hzero, hmax⟩ := hcorner
        have hle := le_total hpos
        obtain rfl : m = 0 := by omega
        exact .inr ⟨hmax, herror⟩
      · cases hreturn
  · rintro (hclean | ⟨hmax, herror⟩)
    · obtain ⟨n, hall, htotal⟩ := hclean.reaches hanswers hlength
      have hpos : ∀ j < n, 0 < rts j := fun j hj => (hall j hj).1
      refine ⟨n, length, ?_, fun i hi => ⟨?_, (hall i hi).2⟩, fun i hi => hpos i (by omega),
        .inl ⟨hpos, htotal, rfl⟩⟩
      · simp only [fixLoop_first hadvance hlength hpos htotal.le]
        rw [if_neg (by omega), toInt_eq_iff.mpr hclean.1]
      · have hle := le_total fun j (hj : j < i) => hpos j (by omega)
        omega
    -- the first answer is the error, and the length is the largest there is
    · have hzero : total rts 0 < length := by
        rw [total_zero]
        omega
      have hreturn := fixLoop_failed (n := 0) hadvance hlength
        (fun j hj => absurd hj (Nat.not_lt_zero j)) hzero (.inl herror)
      rw [if_pos ⟨herror, rfl, hmax⟩] at hreturn
      refine ⟨1, toInt length, hreturn, ?_, fun i hi => absurd hi (by omega),
        .inr ⟨⟨0, rfl, by omega⟩, ?_⟩⟩
      · intro i hi
        obtain rfl : i = 0 := by omega
        exact ⟨le_rfl, hzero⟩
      · obtain rfl : length = 2 ^ 64 - 1 := by omega
        decide

/-! ## The members -/

theorem advances_offset (hlength : length < 2 ^ 64) : Advances 0 length advanceOffset := by
  intro offset rt hrt hle
  unfold advanceOffset
  rw [toSize_of_lt hrt.le (by omega), Nat.mod_eq_of_lt (by omega)]
  omega

theorem advances_position (position length : ℕ) : Advances position length advancePosition := by
  intro offset rt hrt _
  unfold advancePosition
  rw [if_pos hrt]
  omega

/-- **Fixed-size transfers**: for every length and all results of the underlying calls, the four
members stop at the first failure, or with the length after exactly so many bytes, exactly if no
call fails before that and the length is an `int`. Of the largest length an error makes 0. -/
theorem fix_size_iff (position : ℕ) (hlength : length < 2 ^ 64) (hanswers : Answers length rts) :
    (Exact 0 length rts (readFixSize length) ↔
      Clean length rts ∨ length + 1 = 2 ^ 64 ∧ rts 0 = -1) ∧
    (Exact position length rts (readFixSizeByteArray position length) ↔
      Clean length rts ∨ length + 1 = 2 ^ 64 ∧ rts 0 = -1) ∧
    (Exact 0 length rts (writeFixSize length) ↔
      Clean length rts ∨ length + 1 = 2 ^ 64 ∧ rts 0 = -1) ∧
    (Exact position length rts (writeFixSizeByteArray position length) ↔
      Clean length rts ∨ length + 1 = 2 ^ 64 ∧ rts 0 = -1) :=
  ⟨exact_iff (advances_offset hlength) hlength hanswers,
    exact_iff (advances_position position length) hlength hanswers,
    exact_iff (advances_offset hlength) hlength hanswers,
    exact_iff (advances_position position length) hlength hanswers⟩

/-- Three bytes in reads of two and one. -/
theorem fix_size_iff_two_one :
    (Exact 0 3 (fun i => if i = 0 then 2 else 1) (readFixSize 3) ↔
      Clean 3 (fun i => if i = 0 then 2 else 1) ∨
        3 + 1 = 2 ^ 64 ∧ (if 0 = 0 then (2 : ℤ) else 1) = -1) ∧
    (Exact 5 3 (fun i => if i = 0 then 2 else 1) (readFixSizeByteArray 5 3) ↔
      Clean 3 (fun i => if i = 0 then 2 else 1) ∨
        3 + 1 = 2 ^ 64 ∧ (if 0 = 0 then (2 : ℤ) else 1) = -1) ∧
    (Exact 0 3 (fun i => if i = 0 then 2 else 1) (writeFixSize 3) ↔
      Clean 3 (fun i => if i = 0 then 2 else 1) ∨
        3 + 1 = 2 ^ 64 ∧ (if 0 = 0 then (2 : ℤ) else 1) = -1) ∧
    (Exact 5 3 (fun i => if i = 0 then 2 else 1) (writeFixSizeByteArray 5 3) ↔
      Clean 3 (fun i => if i = 0 then 2 else 1) ∨
        3 + 1 = 2 ^ 64 ∧ (if 0 = 0 then (2 : ℤ) else 1) = -1) := by
  apply fix_size_iff 5 (by omega)
  intro i hi
  have hmade : i < 2 := by
    by_contra hge
    have hdone := hi 2 (by omega)
    exact absurd hdone (by decide)
  match i, hmade with
  | 0, _ => exact .inr (.inr (by decide))
  | 1, _ => exact .inr (.inr (by decide))

/-- An error and an end of the stream: the members go on after each. -/
theorem failures_ignored :
    readFixSize 3 [1, -1, 0] = ([⟨0, 3, 1⟩, ⟨1, 2, -1⟩, ⟨0, 3, 0⟩], none) ∧
      Answers 3 (fun i => if i = 0 then 1 else if i = 1 then -1 else 0) ∧
      ¬ Exact 0 3 (fun i => if i = 0 then 1 else if i = 1 then -1 else 0) (readFixSize 3) := by
  have hanswers : Answers 3 (fun i => if i = 0 then 1 else if i = 1 then -1 else 0) := by
    intro i _
    match i with
    | 0 => exact .inr (.inr (by decide))
    | 1 => exact .inl rfl
    | i + 2 => exact .inr (.inl rfl)
  refine ⟨by decide, hanswers, fun hexact => ?_⟩
  rcases (exact_iff (advances_offset (by omega)) (by omega) hanswers).mp hexact with hclean | hmax
  · have hnext := hclean.2 1 (by decide) (by decide)
    exact absurd hnext (by decide)
  · omega

end Streams

end Sylar

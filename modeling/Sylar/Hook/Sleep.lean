import Sylar.Timer.Invariant

/-!
# Hooked sleeps

`sleep`, `usleep` and `nanosleep` arm a timer that schedules the fiber again, and suspend it. Each
converts its argument to milliseconds in a type of its own: 32-bit unsigned for the first two, and
`int`, from a sum of two `long` values, for the third. The interval of a timer has 64 bits.

A `long` that overflows has no behaviour: such a call leads nowhere.

## Main definitions

* `Timespec`, `Sleep`: the arguments
* `Sleep.interval`, `Sleep.call`: the interval that `addTimer` is given, and the call
* `Sleep.duration`: the time asked for
* `Lasts`: the armed timer waits for this time

## Main results

* `interval_spec`: which requests are converted without a loss
* `lasts_iff`: which calls wait as long as they should
-/

namespace Sylar

open Foundation

/-- `struct timespec`. -/
structure Timespec where
  tv_sec : Int64
  tv_nsec : Int64
  deriving DecidableEq

/-- A call of one of the three functions, with its argument. -/
inductive Sleep
  | sleep (seconds : UInt32)
  | usleep (usec : UInt32)
  | nanosleep (req : Timespec)
  deriving DecidableEq

namespace Sleep

/-! ## The functions -/

/-- An integer as a `long`. -/
def long (n : Int) : Option Int64 :=
  if -2 ^ 63 ≤ n ∧ n < 2 ^ 63 then some (Int64.ofInt n) else none

/-- `seconds * 1000`, as the argument of `addTimer`. -/
def sleepMs (seconds : UInt32) : UInt64 := (seconds * 1000).toUInt64

/-- `usec / 1000`, as the argument of `addTimer`. -/
def usleepMs (usec : UInt32) : UInt64 := (usec / 1000).toUInt64

/-- `req->tv_sec * 1000 + req->tv_nsec / 1000 / 1000`. -/
def timespecMs (req : Timespec) : Option Int64 :=
  (long (req.tv_sec.toInt * 1000)).bind fun sec =>
    long (sec.toInt + (req.tv_nsec.toInt.tdiv 1000).tdiv 1000)

/-- The `int` `timeout_ms`, as the argument of `addTimer`. -/
def nanosleepMs (req : Timespec) : Option UInt64 :=
  (timespecMs req).map fun ms =>
    -- the local is an `int`, and its sign is extended by the argument of `addTimer`
    let timeout_ms : Int32 := ms.toInt32
    timeout_ms.toInt64.toUInt64

/-- The interval that a call gives to `addTimer`. -/
def interval : Sleep → Option UInt64
  | sleep seconds => some (sleepMs seconds)
  | usleep usec => some (usleepMs usec)
  | nanosleep req => nanosleepMs req

variable {β : Type}

/-- The call up to `YieldToHold`, at a clock reading; `cb` schedules the fiber. -/
def call (s : Sleep) (now : ℕ) (cb : β) (addr : ℕ) (m : TimerManager β) :
    Option ((ℕ × Bool) × TimerManager β) :=
  s.interval.bind fun ms => m.addTimer now ms.toNat (some cb) false addr

/-! ## The time asked for -/

/-- The milliseconds of a request, rounded down. -/
def duration : Sleep → ℕ
  | sleep seconds => seconds.toNat * 1000
  | usleep usec => usec.toNat / 1000
  | nanosleep req => (req.tv_sec.toInt * 1000 + req.tv_nsec.toInt / 1000000).toNat

/-- A request that is valid: a `timespec` is not negative, its nanoseconds are less than a second,
and its milliseconds have 63 bits. -/
def Valid : Sleep → Prop
  | sleep _ | usleep _ => True
  | nanosleep req => 0 ≤ req.tv_sec.toInt ∧ 0 ≤ req.tv_nsec.toInt ∧ req.tv_nsec.toInt < 10 ^ 9 ∧
    req.tv_sec.toInt * 1000 + req.tv_nsec.toInt / 1000000 < 2 ^ 63

/-- The milliseconds fit in the type in which they are computed. -/
def Fits : Sleep → Prop
  | sleep seconds => seconds.toNat * 1000 < 2 ^ 32
  | usleep _ => True
  | nanosleep req => (nanosleep req).duration < 2 ^ 31

/-- The call arms a timer whose interval is the time asked for, and whose deadline is this time
after the clock reading. -/
def Lasts (s : Sleep) (now : ℕ) (cb : β) (addr : ℕ) (m : TimerManager β) : Prop :=
  ∃ i at_front m', s.call now cb addr m = some ((i, at_front), m') ∧ i ∈ m'.timers ∧
    (m'.heap i).cb = some cb ∧ (m'.heap i).ms = s.duration ∧ (m'.heap i).next = now + s.duration

/-! ## The conversions -/

theorem toNat_sleepMs (seconds : UInt32) :
    (sleepMs seconds).toNat = seconds.toNat * 1000 % 2 ^ 32 := by
  simp [sleepMs]

theorem toNat_usleepMs (usec : UInt32) : (usleepMs usec).toNat = usec.toNat / 1000 := by
  simp [usleepMs]

theorem long_of_lt {n : Int} (hnonneg : 0 ≤ n) (hlt : n < 2 ^ 63) :
    ∃ l : Int64, long n = some l ∧ l.toInt = n := by
  refine ⟨Int64.ofInt n, if_pos ⟨by omega, hlt⟩, ?_⟩
  exact Int64.toInt_ofInt_of_le (by omega) hlt

/-- A valid `timespec` has no overflow in `long`. -/
theorem timespecMs_spec {req : Timespec} (h : (nanosleep req).Valid) :
    ∃ ms, timespecMs req = some ms ∧ ms.toInt = (nanosleep req).duration := by
  obtain ⟨hsec, hnsec, -, hlt⟩ := h
  have hround : (req.tv_nsec.toInt.tdiv 1000).tdiv 1000 = req.tv_nsec.toInt / 1000000 := by
    rw [Int.tdiv_eq_ediv_of_nonneg hnsec, Int.tdiv_eq_ediv_of_nonneg (by omega)]
    omega
  obtain ⟨sec, hlong, htoInt⟩ := long_of_lt (n := req.tv_sec.toInt * 1000) (by omega) (by omega)
  obtain ⟨ms, hsum, hms⟩ := long_of_lt
    (n := req.tv_sec.toInt * 1000 + req.tv_nsec.toInt / 1000000) (by omega) hlt
  refine ⟨ms, ?_, ?_⟩
  · rw [timespecMs, hlong, Option.bind_some, htoInt, hround, hsum]
  · rw [hms, duration]
    omega

/-- A signed number as an unsigned one. -/
theorem toNat_toUInt64 (y : Int64) :
    (y.toUInt64.toNat : Int) = if 0 ≤ y.toInt then y.toInt else y.toInt + 2 ^ 64 := by
  have hcond : y.toInt = if 2 * y.toUInt64.toNat < 2 ^ 64 then (y.toUInt64.toNat : Int)
      else y.toUInt64.toNat - (2 ^ 64 : ℕ) := BitVec.toInt_eq_toNat_cond y.toBitVec
  have hlt := y.toUInt64.toNat_lt
  split_ifs at hcond ⊢ <;> omega

/-- The `int` between the `long` and the 64-bit interval keeps a value only if it is one. -/
theorem toNat_widened_iff (ms : Int64) {n : ℕ} (hms : ms.toInt = n) :
    ms.toInt32.toInt64.toUInt64.toNat = n ↔ n < 2 ^ 31 := by
  have hlow : ms.toInt32.toInt64.toInt = (n : Int).bmod (2 ^ 32) := by
    rw [Int32.toInt_toInt64, Int64.toInt_toInt32, hms]
  have hwide := toNat_toUInt64 ms.toInt32.toInt64
  have hlt : n < 2 ^ 63 := by
    have hmax := ms.toInt_lt
    omega
  -- a value that is cut down becomes smaller, or negative and so larger
  rw [hlow, Int.bmod_def] at hwide
  norm_num at hwide
  split_ifs at hwide <;> omega

/-- **The conversions**: which requests keep their milliseconds. -/
theorem interval_spec (s : Sleep) (h : s.Valid) :
    ∃ ms, s.interval = some ms ∧ (ms.toNat = s.duration ↔ s.Fits) := by
  cases s with
  | sleep seconds =>
    refine ⟨_, rfl, ?_⟩
    rw [toNat_sleepMs, duration, Fits]
    exact Nat.mod_eq_iff_lt (by decide)
  | usleep usec => exact ⟨_, rfl, iff_of_true (toNat_usleepMs usec) trivial⟩
  | nanosleep req =>
    obtain ⟨ms, htimespec, hms⟩ := timespecMs_spec h
    refine ⟨ms.toInt32.toInt64.toUInt64, ?_, toNat_widened_iff ms hms⟩
    rw [interval, nanosleepMs, htimespec, Option.map_some]

/-! ## The timer -/

/-- A sum of two times that is less than 2^64 is the deadline, and no other one. -/
theorem u64_add_eq_iff (now ms : ℕ) : u64 (now + ms) = now + ms ↔ now + ms < 2 ^ 64 :=
  Nat.mod_eq_iff_lt (by decide)

/-- **A sleep lasts as long as it should** exactly if its milliseconds fit in the type in which
they are computed, and its deadline in 64 bits. -/
theorem lasts_iff {t₀ now addr : ℕ} {m : TimerManager β} {s : Sleep}
    (hreach : (TimerManager.machine β).Reaches (.new t₀) m)
    (haddr : ∀ i ∈ m.timers, (m.heap i).addr ≠ addr) (hvalid : s.Valid) (cb : β) :
    s.Lasts now cb addr m ↔ s.Fits ∧ now + s.duration < 2 ^ 64 := by
  obtain ⟨ms, hinterval, hfits⟩ := interval_spec s hvalid
  have hcall : ∃ r, s.call now cb addr m = some r ∧
      m.addTimer now ms.toNat (some cb) false addr = some r := by
    rw [call, hinterval, Option.bind_some, TimerManager.addTimer, if_pos haddr]
    exact ⟨_, rfl, rfl⟩
  obtain ⟨⟨⟨i, at_front⟩, m'⟩, hcall, hadd⟩ := hcall
  obtain ⟨hi, hleaves⟩ := TimerManager.addTimer_spec (TimerManager.wf_of_reaches hreach) hadd
  have hmem : i ∈ m'.timers := (hleaves.mem i).mpr (.inl hi)
  have htimer : m'.heap i = ⟨addr, false, ms.toNat, u64 (now + ms.toNat), some cb⟩ := by
    rw [hleaves.heap, if_pos hi]
  constructor
  · rintro ⟨i', at_front', m'', hcall', -, -, hms, hnext⟩
    obtain ⟨hpair, rfl⟩ := Prod.mk.inj (Option.some.inj (hcall.symm.trans hcall'))
    obtain ⟨rfl, -⟩ := Prod.mk.inj hpair
    rw [htimer] at hms hnext
    have hdur : ms.toNat = s.duration := hms
    rw [← hdur] at hnext ⊢
    exact ⟨hfits.mp hdur, (u64_add_eq_iff _ _).mp hnext⟩
  · rintro ⟨hfit, hlt⟩
    have hdur : ms.toNat = s.duration := hfits.mpr hfit
    refine ⟨i, at_front, m', hcall, hmem, by rw [htimer], by rw [htimer, hdur], ?_⟩
    rw [htimer, hdur]
    exact (u64_add_eq_iff _ _).mpr hlt

/-- Five seconds, on a manager without timers. -/
theorem lasts_iff_five : (sleep 5).Lasts 7 () 0 (.new 0) ↔
    (sleep 5).Fits ∧ 7 + (sleep 5).duration < 2 ^ 64 := by
  have hvalid : (sleep 5).Valid := trivial
  exact lasts_iff .refl (fun i hi => absurd hi List.not_mem_nil) hvalid ()

/-- A sleep of 4294968 seconds is over after 704 milliseconds. -/
theorem wraps_around :
    ¬ ∀ (s : Sleep) (now addr : ℕ) (m : TimerManager Unit),
      (TimerManager.machine Unit).Reaches (.new 0) m → (∀ i ∈ m.timers, (m.heap i).addr ≠ addr) →
      now < 2 ^ 63 → s.Valid → s.Lasts now () addr m := by
  intro h
  obtain ⟨i, at_front, m', hcall, -, -, hms, -⟩ := h (sleep 4294968) 0 0 (.new 0) .refl
    (fun i hi => absurd hi List.not_mem_nil) (by decide) trivial
  have hshort : (sleep 4294968).call 0 () 0 (.new 0) = some ((0, true), _) := rfl
  obtain ⟨hpair, rfl⟩ := Prod.mk.inj (Option.some.inj (hshort.symm.trans hcall))
  obtain ⟨rfl, -⟩ := Prod.mk.inj hpair
  exact absurd hms (by decide)

end Sleep

end Sylar

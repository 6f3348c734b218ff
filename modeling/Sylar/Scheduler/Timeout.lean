import Sylar.Foundation.Signed
import Sylar.Scheduler.Model

/-!
# The timeout of `epoll_wait`

Before each `epoll_wait` the idle loop cuts the time to the next timer down to five seconds, and
keeps the result for a call that is repeated because a signal interrupted it. The comparison and
the call look at the low 32 bits of the 64-bit time, as a signed number.

## Main definitions

* `clampTimeout`: `next_timeout` after the comparison
* `epollWaits`: the timeouts of the calls of one pass

## Main results

* `epollWaits_eq`: all calls of a pass have one timeout
* `never_oversleeps_iff`: the calls wait no longer than they may exactly if the low half of the
  time is not negative as an `int`
-/

namespace Sylar

open Foundation

namespace Scheduler

/-- `next_timeout` of the idle loop after the comparison with `MAX_TIMEOUT`. -/
def clampTimeout (next_timeout : ℕ) : ℕ :=
  let MAX_TIMEOUT : ℕ := 5000
  if next_timeout ≠ 2 ^ 64 - 1 then
    if MAX_TIMEOUT < toInt next_timeout then MAX_TIMEOUT else next_timeout
  else MAX_TIMEOUT

/-- The timeouts of the `epoll_wait` calls of one pass, for the results of the calls: whether each
was interrupted. -/
def epollWaits (next_timeout : ℕ) : List Bool → List Int
  | [] => []
  | interrupted :: results =>
    let next_timeout := clampTimeout next_timeout
    toInt next_timeout :: if interrupted then epollWaits next_timeout results else []

/-- A call waits no longer than `next_timeout`, and no longer than five seconds. -/
def Bounded (next_timeout : ℕ) (timeout : Int) : Prop :=
  0 ≤ timeout ∧ timeout ≤ 5000 ∧ timeout ≤ next_timeout

/-! ## The conversion to `int` -/

theorem toInt_5000 : toInt 5000 = 5000 := signed32_of_lt (by decide)

/-! ## The calls of a pass -/

theorem epollTimeout_eq (next_timeout : ℕ) :
    epollTimeout next_timeout = toInt (clampTimeout next_timeout) := rfl

/-- The largest value stands for no timer. -/
theorem clampTimeout_max : clampTimeout (2 ^ 64 - 1) = 5000 := by
  rw [clampTimeout, if_neg fun h => h rfl]

theorem clampTimeout_of_lt {n : ℕ} (hmax : n ≠ 2 ^ 64 - 1) (hlt : 5000 < toInt n) :
    clampTimeout n = 5000 := by
  rw [clampTimeout, if_pos hmax]
  exact if_pos hlt

theorem clampTimeout_of_le {n : ℕ} (hmax : n ≠ 2 ^ 64 - 1) (hle : ¬ 5000 < toInt n) :
    clampTimeout n = n := by
  rw [clampTimeout, if_pos hmax]
  exact if_neg hle

/-- What is cut down once stays as it is. -/
theorem clampTimeout_clampTimeout (n : ℕ) : clampTimeout (clampTimeout n) = clampTimeout n := by
  have hfixed : clampTimeout 5000 = 5000 := by
    refine clampTimeout_of_le (by decide) ?_
    rw [toInt_5000]
    decide
  by_cases hmax : n = 2 ^ 64 - 1
  · rw [hmax, clampTimeout_max, hfixed]
  · by_cases hlt : 5000 < toInt n
    · rw [clampTimeout_of_lt hmax hlt, hfixed]
    · rw [clampTimeout_of_le hmax hlt, clampTimeout_of_le hmax hlt]

/-- All calls of a pass have the timeout of the first one. -/
theorem epollWaits_eq {n : ℕ} {results : List Bool} {timeout : Int}
    (h : timeout ∈ epollWaits n results) : timeout = epollTimeout n := by
  induction results generalizing n with
  | nil => exact absurd h List.not_mem_nil
  | cons interrupted results ih =>
    rw [epollWaits] at h
    rcases List.mem_cons.mp h with hfirst | hlater
    · exact hfirst
    · cases interrupted with
      | false => exact absurd hlater List.not_mem_nil
      | true =>
        have hretry := ih hlater
        rwa [epollTimeout_eq, clampTimeout_clampTimeout] at hretry

/-- The first call. -/
theorem bounded_epollTimeout_iff (n : ℕ) :
    Bounded n (epollTimeout n) ↔ n = 2 ^ 64 - 1 ∨ n % 2 ^ 32 < 2 ^ 31 := by
  rw [epollTimeout_eq]
  by_cases hmax : n = 2 ^ 64 - 1
  · rw [hmax, clampTimeout_max, toInt_5000]
    simp [Bounded]
  · by_cases hlow : n % 2 ^ 32 < 2 ^ 31
    · have hle : n % 2 ^ 32 ≤ n := Nat.mod_le n _
      have hint : toInt n = (n % 2 ^ 32 : ℕ) := signed32_of_low hlow
      refine iff_of_true ?_ (.inr hlow)
      by_cases hlt : 5000 < toInt n
      · rw [clampTimeout_of_lt hmax hlt, toInt_5000]
        exact ⟨by decide, by decide, by omega⟩
      · rw [clampTimeout_of_le hmax hlt, hint]
        exact ⟨by omega, by omega, by omega⟩
    · -- the low half is negative, passes the comparison and is passed on
      have hneg : toInt n < 0 := signed32_neg hlow
      refine iff_of_false (fun h => ?_) (not_or.mpr ⟨hmax, hlow⟩)
      rw [clampTimeout_of_le hmax (by omega)] at h
      exact absurd h.1 (Int.not_le.mpr hneg)

/-! ## All calls -/

/-- **The wait of a worker**: every call of `epoll_wait` of a pass is bounded exactly if there is
no timer or the low half of `next_timeout` is not negative as an `int`. -/
theorem never_oversleeps_iff (next_timeout : ℕ) :
    (∀ results, ∀ timeout ∈ epollWaits next_timeout results, Bounded next_timeout timeout) ↔
      next_timeout = 2 ^ 64 - 1 ∨ next_timeout % 2 ^ 32 < 2 ^ 31 := by
  rw [← bounded_epollTimeout_iff]
  constructor
  · intro h
    exact h [false] _ (List.mem_singleton.mpr rfl)
  · intro h results timeout hmem
    rwa [epollWaits_eq hmem]

/-- A timer that is due in 2^31 milliseconds makes a call wait without end. -/
theorem waits_forever :
    ¬ ∀ (m : TimerManager Unit) (now : ℕ), (TimerManager.machine Unit).Reaches (.new 0) m →
      ∀ results, ∀ timeout ∈ epollWaits (m.getNextTimer now).1 results,
        Bounded (m.getNextTimer now).1 timeout := by
  intro h
  obtain ⟨m, hrun, hnext⟩ : ∃ m, (TimerManager.machine Unit).run (.new 0)
      [(0, .addTimer (2 ^ 31) (some ()) false 0)] = some m ∧ (m.getNextTimer 0).1 = 2 ^ 31 :=
    ⟨_, rfl, by decide⟩
  have hwait := h m 0 (Machine.reaches_of_run hrun) [false] _ (List.mem_singleton.mpr rfl)
  rw [hnext] at hwait
  exact absurd ((bounded_epollTimeout_iff _).mp hwait) (by decide)

end Scheduler

end Sylar

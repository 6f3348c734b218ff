import Mathlib.Data.List.Nodup
import Sylar.Timer.Invariant

/-!
# Rescheduling a timer

`refresh` and `reset` clear the callback before they move the timer and never set it again. The
timer is then in the set without a callback: when it expires nothing is run, and it can not be
cancelled. Only a `reset` that changes nothing keeps the timer alive.

## Main definitions

* `Alive m m' i deadline`: rescheduling the timer `i` kept it alive

## Main results

* `alive_iff`: in every reachable state, exactly a `reset` to the same interval, not from now on,
  keeps an armed timer alive
-/

namespace Sylar

open Foundation

namespace TimerManager

variable {β : Type} {m m' : TimerManager β} {i now : ℕ} {t : Timer β}

/-- The timer is in the set once, with its callback and the new deadline; from the deadline on it
is delivered, and `cancel` takes it out. -/
structure Alive (m m' : TimerManager β) (i deadline : ℕ) : Prop where
  once : m'.timers.count i = 1
  cb : (m'.heap i).cb = (m.heap i).cb
  next : (m'.heap i).next = deadline
  delivered : ∀ now probe, deadline ≤ now → ∃ r, m'.listExpiredCb now probe = some r ∧
    (i, (m.heap i).cb) ∈ r.1.1.zip r.1.2
  cancelled : ∃ m'', m'.cancel i = some (true, m'') ∧ i ∉ m''.timers

/-- The deadline that `reset` asks for. -/
def newDeadline (now ms : ℕ) (from_now : Bool) (t : Timer β) : ℕ :=
  if ms = t.ms ∧ from_now = false then t.next else resetNext now ms from_now t

/-- A timer without its callback is not alive. -/
theorem not_alive_of_cb (h : (m.heap i).cb.isSome) (hcb : (m'.heap i).cb = none)
    (deadline : ℕ) : ¬ Alive m m' i deadline := by
  intro ha
  rw [ha.cb] at hcb
  simp [hcb] at h

/-- An armed timer that is left as it is stays alive. -/
theorem Wf.alive_self (wf : m.Wf) (h : (m.heap i).cb.isSome) :
    Alive m m i (m.heap i).next where
  once := List.count_eq_one_of_mem wf.nodup (wf.armed i h)
  cb := rfl
  next := rfl
  delivered := by
    intro now probe hle
    obtain ⟨m', hr, -⟩ := listExpiredCb_spec wf.toOrdered now probe
    have hdue : i ∈ m.due now := by
      unfold due
      split_ifs
      · exact wf.armed i h
      · exact List.mem_filter.mpr ⟨wf.armed i h, decide_eq_true hle⟩
    refine ⟨_, hr, ?_⟩
    rw [← List.map_prod_left_eq_zip]
    exact List.mem_map_of_mem hdue
  cancelled := by
    obtain ⟨m', hr, hl⟩ := cancel_spec wf h
    exact ⟨m', hr, fun hi => ((hl.mem i).mp hi).1 rfl⟩

/-- **What keeps an armed timer alive**: in every reachable state `refresh` and `reset` return
true, `refresh` never keeps the timer alive, and `reset` does exactly when it changes nothing. -/
theorem alive_iff {t₀ : ℕ} (hreach : (machine β).Reaches (new t₀) m)
    (h : (m.heap i).cb.isSome) (now : ℕ) :
    (∃ m', m.refresh now i = some (true, m') ∧
      ¬ Alive m m' i (u64 (now + (m.heap i).ms))) ∧
    ∀ ms from_now, ∃ f m', m.reset now i ms from_now = some ((true, f), m') ∧
      (Alive m m' i (newDeadline now ms from_now (m.heap i)) ↔
        ms = (m.heap i).ms ∧ from_now = false) := by
  have wf := wf_of_reaches hreach
  refine ⟨?_, fun ms from_now => ?_⟩
  · obtain ⟨m', hr, hl⟩ := refresh_spec now wf h
    exact ⟨m', hr, not_alive_of_cb h (by rw [hl.heap, if_pos rfl]) _⟩
  · by_cases hsame : ms = (m.heap i).ms ∧ from_now = false
    · obtain ⟨rfl, rfl⟩ := hsame
      refine ⟨false, m, reset_same h, iff_of_true ?_ ⟨rfl, rfl⟩⟩
      rw [newDeadline, if_pos ⟨rfl, rfl⟩]
      exact wf.alive_self h
    · obtain ⟨f, m', hr, hl⟩ := reset_spec now wf h hsame
      exact ⟨f, m', hr, iff_of_false
        (not_alive_of_cb h (by rw [hl.heap, if_pos rfl]) _) hsame⟩

/-- On a timer of 5 ms, armed at 0 ms. -/
theorem alive_iff_armed :
    ∃ m : TimerManager Unit,
    (machine Unit).run (new 0) [(0, .addTimer 5 (some ()) false 0)] = some m ∧
    (∃ m', m.refresh 1 0 = some (true, m') ∧ ¬ Alive m m' 0 (u64 (1 + (m.heap 0).ms))) ∧
    ∀ ms from_now, ∃ f m', m.reset 1 0 ms from_now = some ((true, f), m') ∧
      (Alive m m' 0 (newDeadline 1 ms from_now (m.heap 0)) ↔
        ms = (m.heap 0).ms ∧ from_now = false) := by
  have hrun : (machine Unit).run (new 0) [(0, .addTimer 5 (some ()) false 0)] = some _ := rfl
  exact ⟨_, hrun, alive_iff (Machine.reaches_of_run hrun) rfl 1⟩

/-- A lost callback: a timer of 5 ms armed at 0 ms and refreshed at 1 ms is in the set without its
callback; `cancel` returns false, and at its new deadline it delivers nothing to run. -/
theorem refresh_loses_callback :
    ∃ m m' : TimerManager Unit,
      (machine Unit).run (new 0) [(0, .addTimer 5 (some ()) false 0)] = some m ∧
      m.refresh 1 0 = some (true, m') ∧ m'.timers = [0] ∧ (m'.heap 0).cb = none ∧
      m'.cancel 0 = some (false, m') ∧
      (m'.listExpiredCb 6 0).map Prod.fst = some ([0], [none]) :=
  ⟨_, _, rfl, rfl, rfl, rfl, rfl, rfl⟩

end TimerManager

end Sylar

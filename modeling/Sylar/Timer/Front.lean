import Mathlib.Data.List.Nodup
import Sylar.Timer.Sections

/-!
# The front of the timer set

`listExpiredCb` finds that there are timers under the read lock, and looks at the first one under
the write lock. In between, a call of `cancel` or the same pass on another thread can take the last
timer out. The first timer of an empty set is then looked at, unless the clock went back.

## Main definitions

* `Safe`: the write-locked section does not look at the front of an empty set
* `Empties`: a step that takes the last timer out
* `Undisturbed`: such a step is made while no other thread is between the two sections

## Main results

* `timers_eq_nil_iff`: what empties the set
* `front_safe`: runs whose steps are undisturbed are safe; a step that is not is followed by one
  that is not safe, unless the clock went back
-/

namespace Sylar

open Foundation

namespace TimerManager

variable {β : Type} {m m' : TimerManager β} {i now : ℕ}

namespace Sections

/-- The thread of a step. -/
def Action.thread : Action β → ℕ
  | .call t .. | .check t _ | .expire t _ => t

/-- If the section dereferences the front of the set, there is one. -/
def Safe (s : Sections β) (a : Action β) : Prop :=
  ∀ t probe now_ms, a = .expire t probe → s.checked t = some now_ms →
    s.manager.rollover now_ms = false → s.manager.timers ≠ []

/-- The step takes the last timer out of the set: `cancel` of the only one, or a pass for which all
timers are due, and none of them is recurring. -/
def Empties (s : Sections β) : Action β → Prop
  | .call _ _ (.cancel i) => (s.manager.heap i).cb.isSome ∧ s.manager.timers = [i]
  | .expire t _ => ∃ now_ms, s.checked t = some now_ms ∧ ∀ i ∈ s.manager.timers,
    i ∈ s.manager.due now_ms ∧ (s.manager.heap i).recurring = false
  | _ => False

/-- **The condition on a step**: it does not take the last timer out while another thread is between
the two sections. -/
def Undisturbed (s : Sections β) (a : Action β) : Prop :=
  Empties s a → ∀ t, t ≠ a.thread → s.checked t = none

end Sections

/-! ## What empties the set -/

theorem eq_singleton_of_forall {l : List ℕ} (hnodup : l.Nodup) (hne : l ≠ [])
    (h : ∀ j ∈ l, j = i) : l = [i] := by
  cases l with
  | nil => exact absurd rfl hne
  | cons a l =>
    obtain rfl : a = i := h a List.mem_cons_self
    cases l with
    | nil => rfl
    | cons b l =>
      obtain rfl : b = a := h b (by simp)
      exact absurd List.mem_cons_self (List.nodup_cons.mp hnodup).1

/-- What a call with one section leaves of the set. -/
theorem timers_exec (wf : m.Wf) {c : Call β} {answer : Answer β}
    (hexec : m.exec now c = some (answer, m')) (hc : ∀ probe, c ≠ .listExpiredCb probe) :
    (∃ i, c = .cancel i ∧ (m.heap i).cb.isSome ∧
      ∀ j, j ∈ m'.timers ↔ j ≠ i ∧ j ∈ m.timers) ∨ ∀ j ∈ m.timers, j ∈ m'.timers := by
  cases c with
  | addTimer ms cb recurring addr =>
    obtain ⟨r, hr, heq⟩ := Option.map_eq_some_iff.mp hexec
    obtain ⟨-, rfl⟩ := Prod.mk.inj heq
    obtain ⟨-, hleaves⟩ := addTimer_spec wf hr
    exact .inr fun j hj => (hleaves.mem j).mpr (.inr hj)
  | cancel i =>
    rw [TimerManager.exec] at hexec
    split_ifs at hexec
    obtain ⟨r, hr, heq⟩ := Option.map_eq_some_iff.mp hexec
    obtain ⟨-, rfl⟩ := Prod.mk.inj heq
    cases hcb : (m.heap i).cb with
    | none =>
      rw [cancel_empty hcb] at hr
      obtain rfl := Option.some.inj hr
      exact .inr fun j hj => hj
    | some cb =>
      obtain ⟨m₁, hcancel, hleaves⟩ := cancel_spec wf (i := i) (by simp [hcb])
      obtain rfl := Option.some.inj (hcancel.symm.trans hr)
      exact .inl ⟨i, rfl, by simp [hcb], hleaves.mem⟩
  -- taken out and put back
  | refresh i =>
    rw [TimerManager.exec] at hexec
    split_ifs at hexec
    obtain ⟨r, hr, heq⟩ := Option.map_eq_some_iff.mp hexec
    obtain ⟨-, rfl⟩ := Prod.mk.inj heq
    cases hcb : (m.heap i).cb with
    | none =>
      rw [refresh_empty hcb] at hr
      obtain rfl := Option.some.inj hr
      exact .inr fun j hj => hj
    | some cb =>
      obtain ⟨m₁, hrefresh, hleaves⟩ := refresh_spec now wf (i := i) (by simp [hcb])
      obtain rfl := Option.some.inj (hrefresh.symm.trans hr)
      exact .inr fun j hj => (hleaves.mem j).mpr hj
  | reset i ms from_now =>
    rw [TimerManager.exec] at hexec
    split_ifs at hexec
    obtain ⟨r, hr, heq⟩ := Option.map_eq_some_iff.mp hexec
    obtain ⟨-, rfl⟩ := Prod.mk.inj heq
    cases hcb : (m.heap i).cb with
    | none =>
      rw [reset_empty hcb] at hr
      obtain rfl := Option.some.inj hr
      exact .inr fun j hj => hj
    | some cb =>
      -- nothing is done for the interval it has
      by_cases hsame : ms = (m.heap i).ms ∧ from_now = false
      · obtain ⟨rfl, rfl⟩ := hsame
        rw [reset_same (by simp [hcb])] at hr
        obtain rfl := Option.some.inj hr
        exact .inr fun j hj => hj
      · obtain ⟨f, m₁, hreset, hleaves⟩ := reset_spec now wf (i := i) (by simp [hcb]) hsame
        obtain rfl := Option.some.inj (hreset.symm.trans hr)
        exact .inr fun j hj => (hleaves.mem j).mpr hj
  | getNextTimer =>
    obtain ⟨-, rfl⟩ := Prod.mk.inj (Option.some.inj hexec)
    refine .inr fun j hj => ?_
    simp only [TimerManager.getNextTimer]
    split
    · exact hj
    · split <;> exact hj
  | listExpiredCb probe => exact absurd rfl (hc probe)

namespace Sections

variable {s s' : Sections β} {a : Action β}

/-- A step that leaves the set empty has emptied it. -/
theorem Does.empties (h : Does s a s') (wf : s.manager.Wf) (hne : s.manager.timers ≠ [])
    (hnil : s'.manager.timers = []) : Empties s a := by
  cases h with
  | call t now c answer m ht hexec hc =>
    have hnil' : m.timers = [] := hnil
    rcases timers_exec wf hexec hc with ⟨i, rfl, hcb, hmem⟩ | hkeeps
    · refine ⟨hcb, eq_singleton_of_forall wf.nodup hne fun j hj => ?_⟩
      by_contra hji
      have hj' := (hmem j).mpr ⟨hji, hj⟩
      rw [hnil'] at hj'
      exact List.not_mem_nil hj'
    · obtain ⟨j, hj⟩ := List.exists_mem_of_ne_nil _ hne
      have hj' := hkeeps j hj
      rw [hnil'] at hj'
      exact absurd hj' List.not_mem_nil
  | empty | check => exact absurd hnil hne
  | expire t probe now_ms ht r hr =>
    have hleaves := expire_spec wf.toOrdered hr
    refine ⟨now_ms, ht, fun i hi => ?_⟩
    have hout : ¬ (i ∉ s.manager.due now_ms ∨ (s.manager.heap i).recurring = true) := by
      intro hstays
      have hi' := (hleaves.mem i).mpr ⟨hi, hstays⟩
      rw [hnil] at hi'
      exact List.not_mem_nil hi'
    rw [not_or, not_not, Bool.not_eq_true] at hout
    exact hout

/-- A step that empties the set leaves it empty. -/
theorem Does.timers_eq_nil (h : Does s a s') (wf : s.manager.Wf) (hempties : Empties s a) :
    s'.manager.timers = [] := by
  rw [List.eq_nil_iff_forall_not_mem]
  intro j hj
  cases h with
  | call t now c answer m ht hexec hc =>
    cases c with
    | cancel i =>
      obtain ⟨hcb, honly⟩ := hempties
      rw [TimerManager.exec] at hexec
      split_ifs at hexec
      obtain ⟨r, hr, heq⟩ := Option.map_eq_some_iff.mp hexec
      obtain ⟨-, rfl⟩ := Prod.mk.inj heq
      obtain ⟨m₁, hcancel, hleaves⟩ := cancel_spec wf hcb
      obtain rfl := Option.some.inj (hcancel.symm.trans hr)
      obtain ⟨hji, hmem⟩ := (hleaves.mem j).mp hj
      rw [honly] at hmem
      exact hji (List.mem_singleton.mp hmem)
    | addTimer | refresh | reset | getNextTimer | listExpiredCb => exact hempties
  | empty | check => exact hempties
  | expire t probe now_ms ht r hr =>
    obtain ⟨now', ht', hall⟩ := hempties
    obtain rfl := Option.some.inj (ht.symm.trans ht')
    obtain ⟨hmem, hstays⟩ := ((expire_spec wf.toOrdered hr).mem j).mp hj
    obtain ⟨hdue, hrec⟩ := hall j hmem
    rcases hstays with hnot | hrec'
    · exact hnot hdue
    · rw [hrec] at hrec'
      exact Bool.false_ne_true hrec'

/-! ## Runs -/

/-- While the set is empty no thread is between the two sections. -/
structure Inv (s : Sections β) : Prop where
  wf : s.manager.Wf
  idle : s.manager.timers = [] → ∀ t, s.checked t = none

theorem inv_start (now : ℕ) : Inv (start now : Sections β) := ⟨Wf.new now, fun _ _ => rfl⟩

theorem Inv.step (h : Inv s) (hok : Undisturbed s a) (hdoes : Does s a s') : Inv s' := by
  refine ⟨hdoes.wf h.wf, fun hnil t' => ?_⟩
  by_cases hne : s.manager.timers = []
  · have hidle := h.idle hne
    cases hdoes with
    | call t now c answer m ht hexec hc => exact hidle t'
    | empty t now_ms ht hempty => exact hidle t'
    | check t now_ms ht hne' => exact absurd hne hne'
    | expire t probe now_ms ht r hr =>
      rw [hidle t] at ht
      cases ht
  · have hothers := hok (hdoes.empties h.wf hne hnil)
    cases hdoes with
    | call t now c answer m ht hexec hc =>
      rcases eq_or_ne t' t with rfl | ht'
      · exact ht
      · exact hothers t' ht'
    | empty t now_ms ht hempty => exact absurd hempty hne
    | check t now_ms ht hne' => exact absurd hnil hne
    | expire t probe now_ms ht r hr =>
      rcases eq_or_ne t' t with rfl | ht'
      · exact Function.update_self ..
      · exact (Function.update_of_ne ht' ..).trans (hothers t' ht')

theorem Inv.safe (h : Inv s) (a : Action β) : Safe s a := by
  intro t probe now_ms _ ht _ hnil
  rw [h.idle hnil t] at ht
  cases ht

/-- A thread between the two sections, behind a step that empties the set. -/
theorem Does.not_safe (h : Does s a s') (wf : s.manager.Wf) (hempties : Empties s a)
    {t now_ms : ℕ} (ht : t ≠ a.thread) (hchecked : s.checked t = some now_ms)
    (hroll : s'.manager.rollover now_ms = false) (probe : ℕ) : ¬ Safe s' (.expire t probe) := by
  intro hsafe
  have hchecked' : s'.checked t = some now_ms := by
    cases h with
    | call | empty => exact hchecked
    | check | expire => exact (Function.update_of_ne ht ..).trans hchecked
  exact hsafe t probe now_ms rfl hchecked' hroll (h.timers_eq_nil wf hempties)

/-- **The front of the set**: in a run whose steps are undisturbed, no section looks at the front of
an empty set. After a step that is not, the thread between the two sections does, unless the clock
went back. -/
theorem front_safe (t₀ : ℕ) :
    (∀ as, (machine β).Meets Undisturbed (start t₀) as → (machine β).Meets Safe (start t₀) as) ∧
    ∀ s a s' t now_ms probe, (machine β).Reaches (start t₀) s → (machine β).step s a = some s' →
      Empties s a → t ≠ a.thread → s.checked t = some now_ms →
      s'.manager.rollover now_ms = false → ¬ Safe s' (.expire t probe) := by
  constructor
  · intro as
    exact Machine.meets_of_keeps (fun s a s' h hok hstep => h.step hok (does_of_step hstep))
      (fun s a h => h.safe a) (inv_start t₀)
  · intro s a s' t now_ms probe hreach hstep hempties ht hchecked hroll
    exact (does_of_step hstep).not_safe (wf_of_reaches hreach) hempties ht hchecked hroll probe

/-- The only timer is cancelled between the two sections of another thread. -/
theorem front_of_empty : ¬ ∀ as, (machine Unit).Meets Safe (start 0) as := by
  intro h
  have hmeets := h [.call 0 0 (.addTimer 5 (some ()) false 0), .check 1 10, .call 0 10 (.cancel 0),
    .expire 1 0]
  have hlast := ((hmeets.2 _ rfl).2 _ rfl).2 _ rfl
  exact hlast.1 1 0 10 rfl rfl rfl rfl

end Sections

end TimerManager

end Sylar

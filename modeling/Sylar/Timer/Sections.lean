import Sylar.Timer.Invariant

/-!
# Sections of the timer manager

The calls of any number of threads, each section under a lock in one step. `listExpiredCb` has two
sections: it reads the clock, looks under the read lock whether there are timers, and takes out
those that are due under the write lock. The other calls have one.

## Main definitions

* `Sections`, `Sections.Action`, `Sections.machine`: the interleaved sections

## Main results

* `expire_spec`: the write-locked section of `listExpiredCb`
* `Sections.wf_of_reaches`: every reachable state has the invariant of the set
-/

namespace Sylar

open Foundation

namespace TimerManager

variable {β : Type} {m m' : TimerManager β} {i now probe : ℕ}

/-- The manager, and the clock reading of each thread between the two sections of
`listExpiredCb`. -/
structure Sections (β : Type) where
  manager : TimerManager β
  checked : ℕ → Option ℕ

namespace Sections

/-- A step of a thread: a call of one section, or a section of `listExpiredCb`. -/
inductive Action (β : Type)
  | call (t now : ℕ) (c : Call β)
  | check (t now_ms : ℕ)
  | expire (t probe : ℕ)

/-- The start, at a clock reading. -/
def start (now : ℕ) : Sections β := { manager := .new now, checked := fun _ => none }

def step (s : Sections β) : Action β → Option (Sections β)
  | .call t now c =>
    match s.checked t, c with
    | some _, _ | none, .listExpiredCb _ => none
    | none, c => (s.manager.exec now c).map fun r => { s with manager := r.2 }
  | .check t now_ms =>
    match s.checked t with
    | some _ => none
    | none =>
      if s.manager.timers.isEmpty then some s
      else some { s with checked := Function.update s.checked t (some now_ms) }
  | .expire t probe =>
    match s.checked t with
    | none => none
    | some now_ms => (s.manager.expire now_ms probe).map fun r =>
      { manager := r.2, checked := Function.update s.checked t none }

/-- The sections of any number of threads. -/
def machine (β : Type) : Machine (Sections β) (Action β) where
  step s a := s.step a

end Sections

/-! ## The write-locked section -/

/-- **The write-locked section of `listExpiredCb`**, on any set. -/
theorem expire_spec (h : m.Ordered) {r : (List ℕ × List (Option β)) × TimerManager β}
    (hr : m.expire now probe = some r) :
    r.2.Leaves (fun j => j ∈ m.timers ∧ (j ∉ m.due now ∨ (m.heap j).recurring = true))
      (fun j => if j ∈ m.due now then firedTimer now (m.heap j) else m.heap j) m.created := by
  by_cases hempty : m.timers = []
  · -- nothing is taken out of an empty set, which the section only gets to see after a rollover
    have hdue : ∀ j, j ∉ m.due now := by
      intro j hj
      have hmem := (due_sublist m now).subset hj
      rw [hempty] at hmem
      exact List.not_mem_nil hmem
    have hr' : r.2 = { m with previouseTime := now, timers := [] } := by
      unfold expire at hr
      cases hroll : m.rollover now with
      | true =>
        simp only [hroll, if_true, expired_rollover, hempty, fire] at hr
        rw [← Option.some.inj hr]
      | false => simp [hroll, hempty] at hr
    have hord := h.sublist (List.nil_sublist m.timers) now
    refine ⟨hr' ▸ hord, fun j => ?_, fun j => ?_, by rw [hr']⟩
    · rw [hr', hempty]
      simp
    · rw [hr', if_neg (hdue j)]
  · obtain ⟨m', hpass, hleaves⟩ := listExpiredCb_spec h now probe
    rw [listExpiredCb, if_neg (by simpa using hempty), hr] at hpass
    obtain rfl := Option.some.inj hpass
    exact hleaves

theorem Wf.expire (wf : m.Wf) {r : (List ℕ × List (Option β)) × TimerManager β}
    (hr : m.expire now probe = some r) : r.2.Wf := by
  refine (expire_spec wf.toOrdered hr).wf fun j hj => ?_
  split_ifs at hj with hdue
  · refine ⟨(due_sublist m now).subset hdue, .inr ?_⟩
    unfold firedTimer at hj
    split_ifs at hj with hrec
    · exact hrec
    · simp at hj
  · exact ⟨wf.armed j hj, .inl hdue⟩

/-! ## Runs -/

namespace Sections

variable {s s' : Sections β} {a : Action β}

/-- What a step does: to the manager, and to the threads between the two sections. -/
inductive Does (s : Sections β) : Action β → Sections β → Prop
  | call (t now : ℕ) (c : Call β) (answer : Answer β) (m : TimerManager β)
      (ht : s.checked t = none) (hexec : s.manager.exec now c = some (answer, m))
      (hc : ∀ probe, c ≠ .listExpiredCb probe) :
      Does s (.call t now c) { s with manager := m }
  | empty (t now_ms : ℕ) (ht : s.checked t = none) (hempty : s.manager.timers = []) :
      Does s (.check t now_ms) s
  | check (t now_ms : ℕ) (ht : s.checked t = none) (hne : s.manager.timers ≠ []) :
      Does s (.check t now_ms) { s with checked := Function.update s.checked t (some now_ms) }
  | expire (t probe now_ms : ℕ) (ht : s.checked t = some now_ms)
      (r : (List ℕ × List (Option β)) × TimerManager β)
      (hr : s.manager.expire now_ms probe = some r) :
      Does s (.expire t probe) { manager := r.2, checked := Function.update s.checked t none }

theorem does_of_step (h : (machine β).step s a = some s') : Does s a s' := by
  cases a with
  | call t now c =>
    simp only [machine, step] at h
    cases ht : s.checked t with
    | some _ => simp [ht] at h
    | none =>
      cases c with
      | listExpiredCb probe => simp [ht] at h
      | addTimer | cancel | refresh | reset | getNextTimer =>
        simp only [ht] at h
        obtain ⟨r, hr, rfl⟩ := Option.map_eq_some_iff.mp h
        exact Does.call t now _ r.1 r.2 ht hr fun probe hc => by cases hc
  | check t now_ms =>
    simp only [machine, step] at h
    cases ht : s.checked t with
    | some _ => simp [ht] at h
    | none =>
      simp only [ht] at h
      split_ifs at h with hempty
      · obtain rfl := Option.some.inj h
        exact Does.empty t now_ms ht (List.isEmpty_iff.mp hempty)
      · obtain rfl := Option.some.inj h
        exact Does.check t now_ms ht (mt List.isEmpty_iff.mpr hempty)
  | expire t probe =>
    simp only [machine, step] at h
    cases ht : s.checked t with
    | none => simp [ht] at h
    | some now_ms =>
      simp only [ht] at h
      obtain ⟨r, hr, rfl⟩ := Option.map_eq_some_iff.mp h
      exact Does.expire t probe now_ms ht r hr

theorem Does.wf (h : Does s a s') (wf : s.manager.Wf) : s'.manager.Wf := by
  cases h with
  | call t now c answer m ht hexec hc => exact wf.exec hexec
  | empty | check => exact wf
  | expire t probe now_ms ht r hr => exact wf.expire hr

/-- **Every reachable state has the invariant of the set.** -/
theorem wf_of_reaches {t₀ : ℕ} (h : (machine β).Reaches (start t₀) s) : s.manager.Wf :=
  h.invariant (Wf.new t₀) fun _ _ _ wf _ hstep => (does_of_step hstep).wf wf

end Sections

end TimerManager

end Sylar

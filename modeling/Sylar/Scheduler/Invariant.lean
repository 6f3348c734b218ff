import Sylar.Foundation.Count
import Sylar.Scheduler.Model
import Sylar.Timer.Invariant

/-!
# What every run of the scheduler keeps

Fibers in the hands of threads and in the queue exist, `m_idleThreadCount` is the number of
threads between its two updates, and the timers are in order.

## Main definitions

* `Takes`: the entry of the queue that a scan takes
* `Thread.holds`: a thread has a fiber in its hands
* `Inv`: what holds in every run

## Main results

* `scan_eq_some`, `scan_eq_none`: what a scan takes, and what it leaves
* `Inv.step`: every step keeps the invariant
-/

namespace Sylar

open Foundation

namespace Scheduler

variable {s s' : Scheduler} {t t' f : ℕ} {th : Thread}

/-! ## The scan -/

/-- The entry a scan on thread `t` takes: the first that may run there and does not run yet. -/
def Takes (s : Scheduler) (t : ℕ) (ft : FiberAndThread) : Prop :=
  ∃ skipped rest, s.queue = skipped ++ ft :: rest ∧
    (∀ x ∈ skipped, x.elsewhere t ∨ x.executing s.fibers) ∧
    ft.elsewhere t = false ∧ ft.executing s.fibers = false

theorem scan_eq_some {fibers : ℕ → Fiber} {queue : List FiberAndThread} {task : Task}
    (h : (scan fibers t queue).1 = some task) : ∃ skipped ft rest, queue = skipped ++ ft :: rest ∧
      ft.task = task ∧ (∀ x ∈ skipped, x.elsewhere t ∨ x.executing fibers) ∧
      ft.elsewhere t = false ∧ ft.executing fibers = false ∧
      (scan fibers t queue).2.2 = skipped ++ rest := by
  induction queue with
  | nil => cases h
  | cons ft queue ih =>
    simp only [scan] at h ⊢
    split_ifs at h ⊢ with helse hexec
    · obtain ⟨skipped, ft', rest, hq, htask, hskip, h₁, h₂, hrest⟩ := ih h
      refine ⟨ft :: skipped, ft', rest, by simp [hq], htask, ?_, h₁, h₂, by simp [hrest]⟩
      rintro x (_ | ⟨_, hx⟩)
      · exact .inl helse
      · exact hskip x hx
    · obtain ⟨skipped, ft', rest, hq, htask, hskip, h₁, h₂, hrest⟩ := ih h
      refine ⟨ft :: skipped, ft', rest, by simp [hq], htask, ?_, h₁, h₂, by simp [hrest]⟩
      rintro x (_ | ⟨_, hx⟩)
      · exact .inr hexec
      · exact hskip x hx
    · exact ⟨[], ft, queue, rfl, Option.some.inj h, by simp, by simpa using helse,
        by simpa using hexec, rfl⟩

theorem scan_eq_none {fibers : ℕ → Fiber} {queue : List FiberAndThread}
    (h : (scan fibers t queue).1 = none) : (scan fibers t queue).2.2 = queue ∧
      ∀ x ∈ queue, x.elsewhere t ∨ x.executing fibers := by
  induction queue with
  | nil => exact ⟨rfl, by simp⟩
  | cons ft queue ih =>
    simp only [scan] at h ⊢
    split_ifs at h ⊢ with helse hexec
    · obtain ⟨hrest, hskip⟩ := ih h
      refine ⟨by simp [hrest], ?_⟩
      rintro x (_ | ⟨_, hx⟩)
      · exact .inl helse
      · exact hskip x hx
    · obtain ⟨hrest, hskip⟩ := ih h
      refine ⟨by simp [hrest], ?_⟩
      rintro x (_ | ⟨_, hx⟩)
      · exact .inr hexec
      · exact hskip x hx

theorem mem_scan {fibers : ℕ → Fiber} {queue : List FiberAndThread} {ft : FiberAndThread}
    (h : ft ∈ (scan fibers t queue).2.2) : ft ∈ queue := by
  cases htask : (scan fibers t queue).1 with
  | none => exact (scan_eq_none htask).1 ▸ h
  | some task =>
    obtain ⟨skipped, ft', rest, hq, -, -, -, -, hrest⟩ := scan_eq_some htask
    rw [hrest, List.mem_append] at h
    rw [hq, List.mem_append]
    exact h.imp_right (List.mem_cons_of_mem _)

/-! ## Threads -/

@[simp] theorem threads_put_self : (s.put t th).threads t = th := Function.update_self ..

theorem threads_put_of_ne (h : t' ≠ t) : (s.put t th).threads t' = s.threads t' :=
  Function.update_of_ne h ..

/-- The fiber of the thread's turn. -/
def Pc.fiber? : Pc → Option ℕ
  | .dispatch (some (.fiber f)) | .enter _ f | .load _ f | .running _ f | .idle _ f | .saving _ f
  | .returned _ f | .testReady _ f | .ready _ f | .testFinished _ f | .hold _ f | .clear f => some f
  | _ => none

/-- The thread has the fiber in its hands: it is the fiber of its turn, or one that it keeps. -/
def Thread.holds (th : Thread) (f : ℕ) : Prop :=
  th.pc.fiber? = some f ∨ th.cb_fiber = some f ∨ th.idle_fiber = some f

theorem holds_of_pc {pc : Pc} (hpc : ∀ g, pc.fiber? = some g → th.pc.fiber? = some g)
    (h : ({ th with pc := pc } : Thread).holds f) : th.holds f :=
  h.imp_left (hpc f)

/-- A thread keeps its fiber from one point to another. -/
theorem holds_of_fiber {pc : Pc} {g : ℕ} (hfiber : th.pc.fiber? = some f)
    (h : ({ th with pc := pc } : Thread).holds g) (hpc : ∀ g, pc.fiber? = some g → g = f) :
    th.holds g :=
  holds_of_pc (fun g hg => by rw [hfiber, hpc g hg]) h

/-- The thread is counted in `m_idleThreadCount`. -/
def Pc.idling : Pc → Bool
  | .enter .idle _ | .load .idle _ | .running .idle _ | .idle _ _ | .saving .idle _
  | .returned .idle _ => true
  | _ => false

/-- **The invariant of every run.** -/
structure Inv (s : Scheduler) : Prop where
  bound : ∀ t f, (s.threads t).holds f → f < s.created
  queue : ∀ ft ∈ s.queue, ft.task.known s.created
  idle : ∃ idling : Finset ℕ, (∀ t, t ∈ idling ↔ (s.threads t).pc.idling) ∧
    idling.card = s.idleThreadCount
  timers : s.timers.Wf

theorem Inv.idle_pos (h : s.Inv) (ht : (s.threads t).pc.idling) : 0 < s.idleThreadCount :=
  Counted.pos h.idle (t := t) ht

/-- **A thread moves.** -/
theorem Inv.move (h : s.Inv) {th' : Thread}
    (hthreads : s'.threads = Function.update s.threads t th')
    (hholds : ∀ f, th'.holds f → (s.threads t).holds f ∨ f < s'.created)
    (hcreated : s.created ≤ s'.created) (hqueue : ∀ ft ∈ s'.queue, ft.task.known s'.created)
    (hidle : s'.idleThreadCount + (s.threads t).pc.idling.toNat =
      s.idleThreadCount + th'.pc.idling.toNat) (htimers : s'.timers.Wf) : s'.Inv := by
  have hself : s'.threads t = th' := by rw [hthreads, Function.update_self]
  have hother : ∀ t', t' ≠ t → s'.threads t' = s.threads t' := fun t' ht' => by
    rw [hthreads, Function.update_of_ne ht']
  refine ⟨fun t' f ht' => ?_, hqueue, ?_, htimers⟩
  · rcases eq_or_ne t' t with rfl | hne
    · rw [hself] at ht'
      rcases hholds f ht' with ht' | hlt
      · exact Nat.lt_of_lt_of_le (h.bound _ f ht') hcreated
      · exact hlt
    · rw [hother t' hne] at ht'
      exact Nat.lt_of_lt_of_le (h.bound t' f ht') hcreated
  · refine Counted.move h.idle t (fun t' hne => by rw [hother t' hne]) ?_
    rwa [hself]

/-- A thread moves on with its fiber, or drops it. -/
theorem Inv.goto (h : s.Inv) {pc : Pc} (hfiber : ∀ f, pc.fiber? = some f → (s.threads t).holds f)
    (hidle : (s.threads t).pc.idling = pc.idling) : (s.goto t pc).Inv :=
  h.move rfl (fun f hf => .inl (hf.elim (hfiber f) .inr)) (Nat.le_refl _) h.queue
    (by rw [hidle]; rfl) h.timers

theorem Inv.putTickle (h : s.Inv) {tickle : Tickle} :
    (s.put t { s.threads t with tickle := tickle }).Inv :=
  h.move rfl (fun _ => .inl) (Nat.le_refl _) h.queue rfl h.timers

theorem known_succ {task : Task} {n : ℕ} (h : task.known n) : task.known (n + 1) := by
  cases task with
  | cb c => rfl
  | fiber f =>
    simp only [Task.known, decide_eq_true_eq] at h ⊢
    exact Nat.lt_succ_of_lt h

theorem Inv.newFiber (h : s.Inv) : s.newFiber.Inv :=
  { h with
    bound := fun t f ht => Nat.lt_succ_of_lt (h.bound t f ht)
    queue := fun ft hft => known_succ (h.queue ft hft) }

theorem known_scheduleAll {queue : List FiberAndThread} {tasks : List (Option Task × Option ℕ)}
    {n : ℕ} (hq : ∀ ft ∈ queue, ft.task.known n) (ht : ∀ x ∈ tasks, ∀ task ∈ x.1, task.known n) :
    ∀ ft ∈ (scheduleAll queue tasks).2, ft.task.known n := by
  induction tasks generalizing queue with
  | nil => exact hq
  | cons x tasks ih =>
    obtain ⟨task, thread⟩ := x
    refine ih ?_ fun y hy => ht y (List.mem_cons_of_mem _ hy)
    cases task with
    | none => exact hq
    | some task =>
      intro ft hft
      rcases List.mem_append.mp hft with hft | hft
      · exact hq ft hft
      · obtain rfl := List.mem_singleton.mp hft
        exact ht (some task, thread) (by simp) task rfl

theorem pc_put (h : th.pc = (s.threads t).pc) :
    ((s.put t th).threads t').pc = (s.threads t').pc := by
  rcases eq_or_ne t' t with rfl | hne
  · rw [threads_put_self, h]
  · rw [threads_put_of_ne hne]

theorem pc_schedule {tasks : List (Option Task × Option ℕ)} :
    ((s.schedule t tasks).threads t').pc = (s.threads t').pc := pc_put rfl

theorem Inv.schedule (h : s.Inv) {tasks : List (Option Task × Option ℕ)}
    (ht : ∀ x ∈ tasks, ∀ task ∈ x.1, task.known s.created) : (s.schedule t tasks).Inv := by
  have hq : ({ s with queue := (scheduleAll s.queue tasks).2 } : Scheduler).Inv :=
    { h with queue := known_scheduleAll h.queue ht }
  exact hq.putTickle

/-! ## Steps -/

theorem Inv.tickleStep (h : s.Inv) (hs : s.tickleStep t = some s') : s'.Inv := by
  simp only [Scheduler.tickleStep] at hs
  split at hs
  · cases hs
  · split_ifs at hs <;> cases hs <;> exact h.putTickle
  · cases hs
    have hp : ({ s with pipe := s.pipe + 1 } : Scheduler).Inv := { h with }
    exact hp.putTickle

theorem Inv.stage (h : s.Inv) {stage stage' : Stage} (hpc : (s.threads t).pc = .idle stage f) :
    (s.goto t (.idle stage' f)).Inv :=
  h.goto (fun g hg => .inl (by rw [hpc]; exact hg)) (by rw [hpc]; rfl)

theorem known_cbs (cbs : List (Option ℕ)) (n : ℕ) :
    ∀ x ∈ cbs.map fun cb => (cb.map Task.cb, (none : Option ℕ)), ∀ task ∈ x.1, task.known n := by
  intro x hx task htask
  obtain ⟨cb, -, rfl⟩ := List.mem_map.mp hx
  obtain ⟨c, -, rfl⟩ := Option.map_eq_some_iff.mp htask
  rfl

theorem Inv.idleStep (h : s.Inv) {stage : Stage} (hpc : (s.threads t).pc = .idle stage f)
    (hs : s.idleStep t f stage = some s') : s'.Inv := by
  cases stage with
  | top =>
    cases hs
    have ht : ({ s with timers := (s.timers.getNextTimer s.now).2 } : Scheduler).Inv :=
      { h with timers := h.timers.exec (c := .getNextTimer) rfl }
    exact ht.stage hpc
  | pending next =>
    simp only [Scheduler.idleStep] at hs
    split_ifs at hs <;> cases hs <;> exact h.stage hpc
  | queue next =>
    simp only [Scheduler.idleStep] at hs
    split_ifs at hs <;> cases hs <;> exact h.stage hpc
  | wait next =>
    cases hs
    exact h.stage hpc
  | blocked next deadline => cases hs
  | expire => cases hs
  | cbs cbs =>
    cases hs
    split_ifs
    · exact h.stage hpc
    · exact (h.schedule (known_cbs cbs s.created)).stage (pc_schedule.trans hpc)
  | events =>
    cases hs
    exact h.stage hpc
  | out =>
    cases hs
    exact h.goto (fun g hg => .inl (by rw [hpc]; exact hg)) (by rw [hpc]; rfl)
  | finish =>
    cases hs
    exact h.move rfl (fun g hg => .inl (holds_of_pc (fun _ hg => by rw [hpc]; exact hg) hg))
      (Nat.le_refl _) h.queue (by rw [hpc]; rfl) h.timers

/-- A scan takes what is in the queue. -/
theorem Inv.scan (h : s.Inv) (hpc : (s.threads t).pc = .scan)
    (hs : s.runStep t = some s') : s'.Inv := by
  simp only [Scheduler.runStep, hpc] at hs
  cases hs
  refine h.move (t := t) rfl (fun f hf => ?_) (Nat.le_refl _) (fun ft hft => ?_)
    (by rw [hpc]; rfl) h.timers
  · rcases hf with hf | hf
    · cases htask : (Scheduler.scan s.fibers t s.queue).1 with
      | none =>
        rw [htask] at hf
        cases hf
      | some task =>
        obtain ⟨skipped, ft, rest, hq, rfl, -⟩ := scan_eq_some htask
        rw [htask] at hf
        have hknown := h.queue ft (by rw [hq]; simp)
        cases hft : ft.task with
        | cb c =>
          rw [hft] at hf
          cases hf
        | fiber g =>
          rw [hft] at hf hknown
          obtain rfl := Option.some.inj hf
          exact .inr (of_decide_eq_true hknown)
    · exact .inl (.inr hf)
  · exact h.queue ft (mem_scan hft)

theorem Inv.dispatch_none (h : s.Inv) (hpc : (s.threads t).pc = .dispatch none)
    (hs : s.runStep t = some s') : s'.Inv := by
  simp only [Scheduler.runStep, hpc] at hs
  split at hs
  · cases hs
  · rename_i g hidle
    split_ifs at hs <;> cases hs
    · exact h.goto (fun g hg => nomatch hg) (by rw [hpc]; rfl)
    · refine h.move rfl (fun g' hg => .inl ?_) (Nat.le_refl _) h.queue (by rw [hpc]; rfl)
        h.timers
      rcases hg with hg | hg
      · exact .inr (.inr (hidle.trans hg))
      · exact .inr hg

theorem Inv.dispatch_cb (h : s.Inv) {c : ℕ}
    (hpc : (s.threads t).pc = .dispatch (some (.cb c))) (hs : s.runStep t = some s') : s'.Inv := by
  simp only [Scheduler.runStep, hpc] at hs
  split at hs
  · rename_i g hcb
    obtain ⟨s₁, hreset, rfl⟩ := Option.map_eq_some_iff.mp hs
    obtain ⟨-, rfl⟩ := eq_of_resetFiber hreset
    refine h.move rfl (fun f hf => .inl ?_) (Nat.le_refl _) h.queue (by rw [hpc]; rfl)
      h.timers
    rcases hf with hf | hf
    · exact .inr (.inl (hcb.trans hf))
    · exact .inr hf
  · cases hs
    refine h.move rfl (fun f hf => ?_) (Nat.le_succ _)
      (fun ft hft => known_succ (h.queue ft hft)) (by rw [hpc]; rfl) h.timers
    rcases hf with hf | hf | hf
    · obtain rfl := Option.some.inj hf
      exact .inr (Nat.lt_succ_self _)
    · obtain rfl := Option.some.inj hf
      exact .inr (Nat.lt_succ_self _)
    · exact .inl (.inr (.inr hf))

theorem Inv.returned (h : s.Inv) {kind : Kind} {g : ℕ}
    (hpc : (s.threads t).pc = .returned kind g) (hs : s.runStep t = some s') : s'.Inv := by
  have hfiber : (s.threads t).pc.fiber? = some g := by rw [hpc]; rfl
  cases kind with
  | idle =>
    have hpos := h.idle_pos (t := t) (by rw [hpc]; rfl)
    simp only [Scheduler.runStep, hpc] at hs
    cases hs
    refine h.move rfl (fun f hf => .inl ?_) (Nat.le_refl _) h.queue ?_ h.timers
    · exact holds_of_fiber hfiber hf fun _ hg => (Option.some.inj hg).symm
    · rw [hpc]
      exact Nat.sub_add_cancel hpos
  | _ =>
    simp only [Scheduler.runStep, hpc] at hs
    cases hs
    refine h.move rfl (fun f hf => .inl ?_) (Nat.le_refl _) h.queue (by rw [hpc]; rfl) h.timers
    exact holds_of_fiber hfiber hf fun _ hg => (Option.some.inj hg).symm

theorem Inv.ready (h : s.Inv) {kind : Kind} {g : ℕ}
    (hpc : (s.threads t).pc = .ready kind g) (hs : s.runStep t = some s') : s'.Inv := by
  have hheld : (s.threads t).holds g := .inl (by rw [hpc]; rfl)
  simp only [Scheduler.runStep, hpc] at hs
  cases hs
  refine h.move (t := t) (Function.update_idem ..) (fun f hf => .inl ?_) (Nat.le_refl _)
    (known_scheduleAll h.queue fun x hx task htask => ?_) (by rw [hpc]; rfl) h.timers
  · rw [Scheduler.schedule, threads_put_self] at hf
    rcases hf with hf | hf | hf
    · cases hf
    · simp only at hf
      split_ifs at hf
      exact .inr (.inl hf)
    · exact .inr (.inr hf)
  · obtain rfl := List.mem_singleton.mp hx
    obtain rfl := Option.some.inj htask
    exact decide_eq_true (h.bound t g hheld)

theorem Inv.runStep (h : s.Inv) (hs : s.runStep t = some s') : s'.Inv := by
  cases hpc : (s.threads t).pc with
  | outside => simp [Scheduler.runStep, hpc] at hs
  | running kind g => simp [Scheduler.runStep, hpc] at hs
  | stopped => simp [Scheduler.runStep, hpc] at hs
  | idle stage g =>
    simp only [Scheduler.runStep, hpc] at hs
    exact h.idleStep hpc hs
  | scan => exact h.scan hpc hs
  | dispatch task =>
    cases task with
    | none => exact h.dispatch_none hpc hs
    | some task =>
      cases task with
      | fiber g =>
        simp only [Scheduler.runStep, hpc] at hs
        split_ifs at hs <;> cases hs
        · exact h.move rfl (fun g' hg => .inl (hg.elim (fun hg => nomatch hg) .inr))
            (Nat.le_refl _) h.queue (by rw [hpc]; rfl) h.timers
        · exact h.goto (fun g' hg => .inl (by rw [hpc]; exact hg)) (by rw [hpc]; rfl)
      | cb c => exact h.dispatch_cb hpc hs
  | enter kind g =>
    simp only [Scheduler.runStep, hpc] at hs
    split_ifs at hs
    cases hs
    exact h.move rfl (fun g' hg => .inl (holds_of_pc (fun _ hg => by rw [hpc]; exact hg) hg))
      (Nat.le_refl _) h.queue (by rw [hpc]; cases kind <;> rfl) h.timers
  | load kind g =>
    cases kind <;> simp only [Scheduler.runStep, hpc] at hs <;> cases hs <;>
      exact h.goto (fun g' hg => .inl (by rw [hpc]; exact hg)) (by rw [hpc]; rfl)
  | saving kind g =>
    simp only [Scheduler.runStep, hpc] at hs
    cases hs
    exact h.move rfl (fun g' hg => .inl (holds_of_pc (fun _ hg => by rw [hpc]; exact hg) hg))
      (Nat.le_refl _) h.queue (by rw [hpc]; cases kind <;> rfl) h.timers
  | returned kind g => exact h.returned hpc hs
  | testReady kind g =>
    simp only [Scheduler.runStep, hpc] at hs
    split_ifs at hs <;> cases hs <;>
      exact h.goto (fun g' hg => .inl (by rw [hpc]; exact hg)) (by rw [hpc]; rfl)
  | ready kind g => exact h.ready hpc hs
  | testFinished kind g =>
    simp only [Scheduler.runStep, hpc] at hs
    split_ifs at hs <;> cases hs
    · exact h.goto (fun g' hg => .inl (by rw [hpc]; exact hg)) (by rw [hpc]; rfl)
    · exact h.goto (fun g' hg => nomatch hg) (by rw [hpc]; rfl)
    · exact h.goto (fun g' hg => .inl (by rw [hpc]; exact hg)) (by rw [hpc]; rfl)
  | hold kind g =>
    simp only [Scheduler.runStep, hpc] at hs
    cases hs
    refine h.move rfl (fun f hf => .inl ?_) (Nat.le_refl _) h.queue (by rw [hpc]; rfl) h.timers
    rcases hf with hf | hf | hf
    · cases hf
    · split_ifs at hf
      exact .inr (.inl hf)
    · exact .inr (.inr hf)
  | clear g =>
    simp only [Scheduler.runStep, hpc] at hs
    obtain ⟨s₁, hreset, rfl⟩ := Option.map_eq_some_iff.mp hs
    obtain ⟨-, rfl⟩ := eq_of_resetFiber hreset
    exact h.move rfl (fun f hf => .inl (hf.elim (fun hf => nomatch hf) .inr)) (Nat.le_refl _)
      h.queue (by rw [hpc]; rfl) h.timers

/-- **Every step keeps the invariant.** -/
theorem Inv.step {a : Action} (h : s.Inv) (hs : machine.step s a = some s') : s'.Inv := by
  simp only [machine] at hs
  cases a with
  | start t =>
    simp only [Scheduler.step] at hs
    split_ifs at hs with hpc
    cases hs
    refine h.move rfl (fun f hf => ?_) (Nat.le_succ _) (fun ft hft => known_succ (h.queue ft hft))
      (by rw [hpc.1]; rfl) h.timers
    -- the thread holds what it held, and the idle fiber it has made
    rcases hf with hf | hf | hf
    · cases hf
    · exact .inl (.inr (.inl hf))
    · obtain rfl := Option.some.inj hf
      exact .inr (Nat.lt_succ_self _)
  | newFiber t =>
    simp only [Scheduler.step] at hs
    split_ifs at hs
    cases hs
    exact h.newFiber
  | schedule t tasks =>
    simp only [Scheduler.step] at hs
    split_ifs at hs with hok
    cases hs
    refine h.schedule fun x hx task htask => ?_
    exact (Option.all_eq_true _ _).mp (List.all_eq_true.mp hok.2 x hx) task htask
  | addTimer t ms cb recurring addr =>
    simp only [Scheduler.step] at hs
    split_ifs at hs
    obtain ⟨r, hr, rfl⟩ := Option.map_eq_some_iff.mp hs
    have ht : ({ s with timers := r.2 } : Scheduler).Inv :=
      { h with timers := h.timers.addTimer hr }
    exact ht.putTickle
  | cancel t i =>
    simp only [Scheduler.step] at hs
    split_ifs at hs
    obtain ⟨r, hr, rfl⟩ := Option.map_eq_some_iff.mp hs
    exact { h with timers := h.timers.cancel hr }
  | stop t =>
    simp only [Scheduler.step] at hs
    split_ifs at hs
    cases hs
    exact { h with }
  | tickle t =>
    simp only [Scheduler.step] at hs
    split_ifs at hs
    cases hs
    exact h.putTickle
  | step t =>
    simp only [Scheduler.step] at hs
    split_ifs at hs
    · exact h.runStep hs
    · exact h.tickleStep hs
  | yield t state =>
    simp only [Scheduler.step] at hs
    split at hs
    · rename_i kind f hpc
      split_ifs at hs
      cases hs
      exact h.move rfl (fun g hg => .inl (holds_of_pc (fun _ hg => by rw [hpc]; exact hg) hg))
        (Nat.le_refl _) h.queue (by rw [hpc]; cases kind <;> rfl) h.timers
    · cases hs
  | wake t interrupted =>
    simp only [Scheduler.step] at hs
    split at hs
    · rename_i hpc
      cases hs
      exact h.stage hpc
    · cases hs
  | listExpiredCb t probe =>
    simp only [Scheduler.step] at hs
    split at hs
    · rename_i hpc
      obtain ⟨r, hr, rfl⟩ := Option.map_eq_some_iff.mp hs
      have ht : ({ s with timers := r.2 } : Scheduler).Inv :=
        { h with timers := h.timers.listExpiredCb hr }
      exact ht.stage hpc
    · cases hs
  | drain t =>
    simp only [Scheduler.step] at hs
    split_ifs at hs
    cases hs
    exact { h with }
  | trigger t task =>
    simp only [Scheduler.step] at hs
    split_ifs at hs with hok
    cases hs
    refine h.schedule fun x hx task' htask => ?_
    obtain rfl := List.mem_singleton.mp hx
    obtain rfl := Option.some.inj htask
    exact hok.2
  | events n =>
    cases hs
    exact { h with }
  | clock n =>
    cases hs
    exact { h with }

theorem inv_new (now : ℕ) : (new now).Inv where
  bound := by rintro t f (hf | hf | hf) <;> cases hf
  queue := fun ft hft => nomatch hft
  idle := ⟨∅, (fun t => iff_of_false (Finset.notMem_empty t) fun ht => nomatch ht), rfl⟩
  timers := .new now

end Scheduler

end Sylar

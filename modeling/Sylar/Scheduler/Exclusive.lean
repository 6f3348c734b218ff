import Sylar.Scheduler.Invariant

/-!
# Fibers run on one thread at a time

A fiber stores `HOLD` before its context is saved, and `run` stores `HOLD` once more after the
switch; a scan that looks at the state alone may take the fiber in between. As long as every scan
takes a fiber that no thread has in its hands, each fiber is in the hands of one thread from the
scan that takes it to the end of its turn, and no two threads are ever inside it.

## Main definitions

* `Exclusive`: fibers are entered once, after they were saved, and run exactly in state `EXEC`
* `Unheld`: a scan takes a fiber that no thread has in its hands

## Main results

* `Owned.move`: a thread moves, and stores to fibers that no other thread has in its hands
* `Owned.step`: a step that meets `Unheld` keeps every fiber in the hands of one thread
* `exclusive_of_unheld`: a run whose scans meet `Unheld` keeps `Exclusive`
-/

namespace Sylar

open Foundation

namespace Scheduler

variable {s s' : Scheduler} {t f : ℕ} {th : Thread}

/-! ## Fibers in the hands of threads -/

/-- The fiber the thread has entered and whose context it has not saved yet. -/
def Pc.inside? : Pc → Option ℕ
  | .load _ f | .running _ f | .idle _ f | .saving _ f => some f
  | _ => none

/-- The fiber the thread runs, from the store of `EXEC` to the fiber's next store. -/
def Pc.runs? : Pc → Option ℕ
  | .load _ f | .running _ f | .idle _ f => some f
  | _ => none

/-- The same, and the idle fiber up to the thread's own store: it leaves without one. -/
def Pc.executes? : Pc → Option ℕ
  | .load _ f | .running _ f | .idle _ f | .saving .idle f | .returned .idle f
  | .testFinished .idle f | .hold .idle f => some f
  | _ => none

/-- **A fiber runs on one thread at a time**: two threads are never inside it, it is entered after
it was saved and while it does not run, and its state is `EXEC` exactly while a thread runs it. -/
structure Exclusive (s : Scheduler) : Prop where
  alone : ∀ t t' f, (s.threads t).pc.inside? = some f → (s.threads t').pc.inside? = some f → t = t'
  saved : ∀ t kind f, (s.threads t).pc = .enter kind f →
    (s.fibers f).saved ∧ (s.fibers f).state ≠ .exec
  runs : ∀ t f, (s.threads t).pc.runs? = some f → (s.fibers f).state = .exec
  exec : ∀ f, (s.fibers f).state = .exec → ∃ t, (s.threads t).pc.executes? = some f

/-- A scan takes a fiber that no thread has in its hands. -/
def Unheld (s : Scheduler) : Action → Prop
  | .step t => (s.threads t).pc = .scan → (s.threads t).tickle = .none →
    ∀ f thread, s.Takes t { task := .fiber f, thread := thread } → ∀ t', ¬ (s.threads t').holds f
  | _ => True

/-- Every fiber is in the hands of one thread. -/
structure Owned (s : Scheduler) : Prop where
  unique : ∀ t t' f, (s.threads t).holds f → (s.threads t').holds f → t = t'
  saved : ∀ f, (s.fibers f).saved = false → ∃ t, (s.threads t).pc.inside? = some f
  runs : ∀ t f, (s.threads t).pc.runs? = some f → (s.fibers f).state = .exec
  exec : ∀ f, (s.fibers f).state = .exec → ∃ t, (s.threads t).pc.executes? = some f

theorem holds_of_inside (h : th.pc.inside? = some f) : th.holds f := by
  refine .inl ?_
  cases hpc : th.pc <;> rw [hpc] at h <;> first | exact h | cases h

theorem holds_of_runs (h : th.pc.runs? = some f) : th.holds f := by
  refine .inl ?_
  cases hpc : th.pc <;> rw [hpc] at h <;> first | exact h | cases h

theorem holds_of_executes (h : th.pc.executes? = some f) : th.holds f := by
  refine .inl ?_
  cases hpc : th.pc <;> rw [hpc] at h <;> first | exact h | cases h | skip
  all_goals rename_i kind _
  all_goals cases kind <;> first | exact h | cases h

theorem Owned.exclusive (h : s.Owned) : s.Exclusive where
  alone := fun t t' f ht ht' => h.unique t t' f (holds_of_inside ht) (holds_of_inside ht')
  saved := by
    intro t kind f hpc
    have ht : (s.threads t).holds f := .inl (by rw [hpc]; rfl)
    refine ⟨?_, fun hexec => ?_⟩
    · by_contra hsaved
      obtain ⟨t', ht'⟩ := h.saved f (by simpa using hsaved)
      obtain rfl := h.unique t t' f ht (holds_of_inside ht')
      rw [hpc] at ht'
      cases ht'
    · obtain ⟨t', ht'⟩ := h.exec f hexec
      obtain rfl := h.unique t t' f ht (holds_of_executes ht')
      rw [hpc] at ht'
      cases ht'
  runs := h.runs
  exec := h.exec

/-- **A thread moves**: it takes nothing that another thread holds, and changes only fibers that
no other thread holds. -/
theorem Owned.move (h : s.Owned) {th' : Thread}
    (hthreads : s'.threads = Function.update s.threads t th')
    (hholds : ∀ f, th'.holds f → (s.threads t).holds f ∨ ∀ t', ¬ (s.threads t').holds f)
    (hfibers : ∀ f, s'.fibers f = s.fibers f ∨ ∀ t', t' ≠ t → ¬ (s.threads t').holds f)
    (hsaved : ∀ f, (s'.fibers f).saved = false → th'.pc.inside? = some f ∨
      (s.fibers f).saved = false ∧ (s.threads t).pc.inside? ≠ some f)
    (hexec : ∀ f, (s'.fibers f).state = .exec → th'.pc.executes? = some f ∨
      (s.fibers f).state = .exec ∧ (s.threads t).pc.executes? ≠ some f)
    (hruns : ∀ f, th'.pc.runs? = some f → (s'.fibers f).state = .exec) : s'.Owned := by
  have hself : s'.threads t = th' := by rw [hthreads, Function.update_self]
  have hother : ∀ t', t' ≠ t → s'.threads t' = s.threads t' := fun t' ht' => by
    rw [hthreads, Function.update_of_ne ht']
  -- what the thread holds now, nobody else holds
  have hleft : ∀ t' f, t' ≠ t → (s'.threads t).holds f → (s'.threads t').holds f → False := by
    intro t' f hne ht ht'
    rw [hself] at ht
    rw [hother t' hne] at ht'
    rcases hholds f ht with ht | hfree
    · exact hne (h.unique t' t f ht' ht)
    · exact hfree t' ht'
  refine ⟨fun t₁ t₂ f h₁ h₂ => ?_, fun f hf => ?_, fun t₁ f h₁ => ?_, fun f hf => ?_⟩
  · rcases eq_or_ne t₁ t with rfl | hne₁
    · by_contra hne
      exact hleft t₂ f (Ne.symm hne) h₁ h₂
    · rcases eq_or_ne t₂ t with rfl | hne₂
      · exact (hleft t₁ f hne₁ h₂ h₁).elim
      · rw [hother t₁ hne₁] at h₁
        rw [hother t₂ hne₂] at h₂
        exact h.unique t₁ t₂ f h₁ h₂
  · rcases hsaved f hf with hin | ⟨hf, hnot⟩
    · exact ⟨t, by rw [hself]; exact hin⟩
    · obtain ⟨t', ht'⟩ := h.saved f hf
      have hne : t' ≠ t := fun heq => hnot (heq ▸ ht')
      exact ⟨t', by rw [hother t' hne]; exact ht'⟩
  · rcases eq_or_ne t₁ t with rfl | hne₁
    · rw [hself] at h₁
      exact hruns f h₁
    · rw [hother t₁ hne₁] at h₁
      rcases hfibers f with heq | hfree
      · rw [heq]
        exact h.runs t₁ f h₁
      · exact absurd (holds_of_runs h₁) (hfree t₁ hne₁)
  · rcases hexec f hf with hin | ⟨hf, hnot⟩
    · exact ⟨t, by rw [hself]; exact hin⟩
    · obtain ⟨t', ht'⟩ := h.exec f hf
      have hne : t' ≠ t := fun heq => hnot (heq ▸ ht')
      exact ⟨t', by rw [hother t' hne]; exact ht'⟩

/-- A thread moves and leaves the fibers as they are. -/
theorem Owned.turn (h : s.Owned) {th' : Thread}
    (hthreads : s'.threads = Function.update s.threads t th') (hfibers : s'.fibers = s.fibers)
    (hholds : ∀ f, th'.holds f → (s.threads t).holds f ∨ ∀ t', ¬ (s.threads t').holds f)
    (hinside : ∀ f, (s.threads t).pc.inside? = some f → th'.pc.inside? = some f)
    (hexec : ∀ f, (s.threads t).pc.executes? = some f → th'.pc.executes? = some f ∨
      (s.fibers f).state ≠ .exec)
    (hruns : ∀ f, th'.pc.runs? = some f → (s.threads t).pc.runs? = some f) : s'.Owned := by
  refine h.move hthreads hholds (fun f => .inl (by rw [hfibers])) (fun f hf => ?_)
    (fun f hf => ?_) fun f hf => ?_
  · rw [hfibers] at hf
    by_cases hin : (s.threads t).pc.inside? = some f
    · exact .inl (hinside f hin)
    · exact .inr ⟨hf, hin⟩
  · rw [hfibers] at hf
    by_cases hin : (s.threads t).pc.executes? = some f
    · exact .inl ((hexec f hin).resolve_right fun hne => hne hf)
    · exact .inr ⟨hf, hin⟩
  · rw [hfibers]
    exact h.runs t f (hruns f hf)

/-- A thread moves, and its fiber and the fibers it keeps stay in its hands. -/
theorem Owned.goto (h : s.Owned) {pc : Pc}
    (hfiber : ∀ f, pc.fiber? = some f → (s.threads t).holds f)
    (hinside : ∀ f, (s.threads t).pc.inside? = some f → pc.inside? = some f)
    (hexec : ∀ f, (s.threads t).pc.executes? = some f → pc.executes? = some f ∨
      (s.fibers f).state ≠ .exec)
    (hruns : ∀ f, pc.runs? = some f → (s.threads t).pc.runs? = some f) : (s.goto t pc).Owned :=
  h.turn rfl rfl (fun f hf => .inl (hf.elim (hfiber f) .inr)) hinside hexec hruns

/-- What does not concern the hands of threads. -/
theorem Owned.congr (h : s.Owned) (hfibers : s'.fibers = s.fibers)
    (hthreads : ∀ t, (s'.threads t).pc = (s.threads t).pc ∧
      (s'.threads t).cb_fiber = (s.threads t).cb_fiber ∧
      (s'.threads t).idle_fiber = (s.threads t).idle_fiber) : s'.Owned := by
  have hholds : ∀ t f, (s'.threads t).holds f ↔ (s.threads t).holds f := by
    intro t f
    obtain ⟨hpc, hcb, hidle⟩ := hthreads t
    rw [Thread.holds, Thread.holds, hpc, hcb, hidle]
  refine ⟨fun t t' f ht ht' => ?_, fun f hf => ?_, fun t f hf => ?_, fun f hf => ?_⟩
  · exact h.unique t t' f ((hholds t f).mp ht) ((hholds t' f).mp ht')
  · obtain ⟨t, ht⟩ := h.saved f (hfibers ▸ hf)
    exact ⟨t, by rw [(hthreads t).1, ht]⟩
  · rw [hfibers]
    exact h.runs t f ((hthreads t).1 ▸ hf)
  · obtain ⟨t, ht⟩ := h.exec f (hfibers ▸ hf)
    exact ⟨t, by rw [(hthreads t).1, ht]⟩

theorem Owned.putTickle (h : s.Owned) {tickle : Tickle} :
    (s.put t { s.threads t with tickle := tickle }).Owned :=
  h.congr rfl fun t' => by
    rcases eq_or_ne t' t with rfl | hne
    · rw [threads_put_self]
      exact ⟨rfl, rfl, rfl⟩
    · rw [threads_put_of_ne hne]
      exact ⟨rfl, rfl, rfl⟩

theorem Owned.schedule (h : s.Owned) {tasks : List (Option Task × Option ℕ)} :
    (s.schedule t tasks).Owned := by
  have hq : ({ s with queue := (scheduleAll s.queue tasks).2 } : Scheduler).Owned := { h with }
  exact hq.putTickle

/-- A thread moves, and stores to one fiber that it holds or that nobody does. -/
theorem Owned.touch (h : s.Owned) {th' : Thread} {x : Fiber}
    (hthreads : s'.threads = Function.update s.threads t th')
    (hfibers : s'.fibers = Function.update s.fibers f x)
    (hf : (s.threads t).holds f ∨ ∀ t', ¬ (s.threads t').holds f)
    (hholds : ∀ f, th'.holds f → (s.threads t).holds f ∨ ∀ t', ¬ (s.threads t').holds f)
    (hsaved : x.saved = false → th'.pc.inside? = some f)
    (hexec : x.state = .exec → th'.pc.executes? = some f)
    (hruns : th'.pc.runs? = some f → x.state = .exec)
    (hrest : ∀ f', f' ≠ f → ((s.threads t).pc.inside? = some f' → th'.pc.inside? = some f') ∧
      ((s.threads t).pc.executes? = some f' → th'.pc.executes? = some f') ∧
      (th'.pc.runs? = some f' → (s.threads t).pc.runs? = some f')) : s'.Owned := by
  have hself : s'.fibers f = x := by rw [hfibers, Function.update_self]
  have hne : ∀ f', f' ≠ f → s'.fibers f' = s.fibers f' := fun f' hf' => by
    rw [hfibers, Function.update_of_ne hf']
  refine h.move hthreads hholds (fun f' => ?_) (fun f' hf' => ?_) (fun f' hf' => ?_)
    fun f' hf' => ?_
  · rcases eq_or_ne f' f with rfl | hff
    · refine .inr fun t' ht' hheld => ?_
      rcases hf with hf | hf
      · exact ht' (h.unique t' t f' hheld hf)
      · exact hf t' hheld
    · exact .inl (hne f' hff)
  · rcases eq_or_ne f' f with rfl | hff
    · rw [hself] at hf'
      exact .inl (hsaved hf')
    · rw [hne f' hff] at hf'
      by_cases hin : (s.threads t).pc.inside? = some f'
      · exact .inl ((hrest f' hff).1 hin)
      · exact .inr ⟨hf', hin⟩
  · rcases eq_or_ne f' f with rfl | hff
    · rw [hself] at hf'
      exact .inl (hexec hf')
    · rw [hne f' hff] at hf'
      by_cases hin : (s.threads t).pc.executes? = some f'
      · exact .inl ((hrest f' hff).2.1 hin)
      · exact .inr ⟨hf', hin⟩
  · rcases eq_or_ne f' f with rfl | hff
    · rw [hself]
      exact hruns hf'
    · rw [hne f' hff]
      exact h.runs t f' ((hrest f' hff).2.2 hf')

theorem Inv.free (h : s.Inv) : ∀ t, ¬ (s.threads t).holds s.created :=
  fun t ht => Nat.lt_irrefl _ (h.bound t _ ht)

theorem Owned.newFiber (h : s.Owned) (hinv : s.Inv) : s.newFiber.Owned := by
  refine h.touch (t := 0) (f := s.created) (Function.update_eq_self ..).symm rfl
    (.inr hinv.free) (fun _ => .inl) (fun hs => by cases hs) (fun hs => by cases hs)
    (fun hruns => ?_) fun _ _ => ⟨id, id, id⟩
  exact absurd (holds_of_runs hruns) (hinv.free 0)

/-! ## The steps of a thread -/

theorem Owned.tickleStep (h : s.Owned) (hs : s.tickleStep t = some s') : s'.Owned := by
  simp only [Scheduler.tickleStep] at hs
  split at hs
  · cases hs
  · split_ifs at hs <;> cases hs <;> exact h.putTickle
  · cases hs
    exact h.putTickle.congr rfl fun _ => ⟨rfl, rfl, rfl⟩

theorem Owned.stage (h : s.Owned) {stage stage' : Stage} (hpc : (s.threads t).pc = .idle stage f) :
    (s.goto t (.idle stage' f)).Owned :=
  h.goto (fun g hg => .inl (by rw [hpc]; exact hg)) (fun g hg => by rw [hpc] at hg; exact hg)
    (fun g hg => .inl (by rw [hpc] at hg; exact hg)) fun g hg => by rw [hpc]; exact hg

theorem Owned.idleStep (h : s.Owned) {stage : Stage} (hpc : (s.threads t).pc = .idle stage f)
    (hs : s.idleStep t f stage = some s') : s'.Owned := by
  have hstage : ∀ stage', (s.goto t (.idle stage' f)).Owned := fun _ => h.stage hpc
  cases stage with
  | top =>
    cases hs
    exact (hstage _).congr rfl fun _ => ⟨rfl, rfl, rfl⟩
  | pending next =>
    simp only [Scheduler.idleStep] at hs
    split_ifs at hs <;> cases hs <;> exact hstage _
  | queue next =>
    simp only [Scheduler.idleStep] at hs
    split_ifs at hs <;> cases hs <;> exact hstage _
  | wait next =>
    cases hs
    exact hstage _
  | blocked next deadline => cases hs
  | expire => cases hs
  | cbs cbs =>
    cases hs
    split_ifs
    · exact hstage _
    · exact h.schedule.stage (pc_schedule.trans hpc)
  | events =>
    cases hs
    exact hstage _
  | out =>
    cases hs
    exact h.goto (fun g hg => .inl (by rw [hpc]; exact hg))
      (fun g hg => by rw [hpc] at hg; exact hg)
      (fun g hg => .inl (by rw [hpc] at hg; exact hg)) fun g hg => by cases hg
  | finish =>
    cases hs
    refine h.touch (t := t) rfl rfl (.inl (.inl (by rw [hpc]; rfl)))
      (fun g hg => .inl (holds_of_pc (fun _ hg => by rw [hpc]; exact hg) hg)) (fun _ => rfl)
      (fun hs => by cases hs) (fun hs => by cases hs) fun g hne => ?_
    rw [hpc]
    exact ⟨id, id, fun hg => by cases hg⟩

/-- A fiber in the hands of a thread that does not run it is not in state `EXEC`. -/
theorem Owned.not_exec (h : s.Owned) (hf : (s.threads t).holds f)
    (hpc : (s.threads t).pc.executes? ≠ some f) : (s.fibers f).state ≠ .exec := by
  intro hexec
  obtain ⟨t', ht'⟩ := h.exec f hexec
  obtain rfl := h.unique t t' f hf (holds_of_executes ht')
  exact hpc ht'

/-- A fiber in the hands of a thread that is not inside it is saved. -/
theorem Owned.isSaved (h : s.Owned) (hf : (s.threads t).holds f)
    (hpc : (s.threads t).pc.inside? ≠ some f) : (s.fibers f).saved = true := by
  by_contra hsaved
  obtain ⟨t', ht'⟩ := h.saved f (by simpa using hsaved)
  obtain rfl := h.unique t t' f hf (holds_of_inside ht')
  exact hpc ht'

/-- A thread past its fiber's turn moves on. -/
theorem Owned.leave (h : s.Owned) {th' : Thread}
    (hthreads : s'.threads = Function.update s.threads t th') (hfibers : s'.fibers = s.fibers)
    (hinside : (s.threads t).pc.inside? = none) (hruns : th'.pc.runs? = none)
    (hholds : ∀ f, th'.holds f → (s.threads t).holds f)
    (hexec : ∀ f, (s.threads t).pc.executes? = some f → th'.pc.executes? = some f ∨
      (s.fibers f).state ≠ .exec) : s'.Owned :=
  h.turn hthreads hfibers (fun f hf => .inl (hholds f hf))
    (fun f hf => by rw [hinside] at hf; cases hf) hexec fun f hf => by rw [hruns] at hf; cases hf

/-- A thread that is in no fiber, and runs none, goes on to run none. -/
theorem Owned.pass (h : s.Owned) {th' : Thread}
    (hthreads : s'.threads = Function.update s.threads t th') (hfibers : s'.fibers = s.fibers)
    (hinside : (s.threads t).pc.inside? = none) (hexec : (s.threads t).pc.executes? = none)
    (hruns : th'.pc.runs? = none) (hholds : ∀ f, th'.holds f → (s.threads t).holds f) : s'.Owned :=
  h.leave hthreads hfibers hinside hruns hholds fun f hf => by rw [hexec] at hf; cases hf

variable {kind : Kind} {g : ℕ}

/-- A scan takes a fiber that no thread has, or none. -/
theorem Owned.scan (h : s.Owned) (hok : s.Unheld (.step t))
    (htickle : (s.threads t).tickle = .none) (hpc : (s.threads t).pc = .scan)
    (hs : s.runStep t = some s') : s'.Owned := by
  simp only [Scheduler.runStep, hpc] at hs
  cases hs
  refine h.turn (t := t) rfl rfl (fun f hf => ?_) (fun f hf => by rw [hpc] at hf; cases hf)
    (fun f hf => by rw [hpc] at hf; cases hf) fun f hf => by cases hf
  rcases hf with hf | hf
  · cases htask : (Scheduler.scan s.fibers t s.queue).1 with
    | none =>
      rw [htask] at hf
      cases hf
    | some task =>
      obtain ⟨skipped, ft, rest, hq, rfl, hskip, helse, hexec, -⟩ := scan_eq_some htask
      rw [htask] at hf
      obtain ⟨task, thread⟩ := ft
      cases task with
      | cb c => cases hf
      | fiber g =>
        obtain rfl := Option.some.inj hf
        exact .inr (hok hpc htickle g thread ⟨skipped, rest, hq, hskip, helse, hexec⟩)
  · exact .inl (.inr hf)

theorem Owned.dispatch_none (h : s.Owned) (hpc : (s.threads t).pc = .dispatch none)
    (hs : s.runStep t = some s') : s'.Owned := by
  simp only [Scheduler.runStep, hpc] at hs
  split at hs
  · cases hs
  · rename_i g hidle
    split_ifs at hs <;> cases hs
    · -- the idle fiber has finished, and the thread with it
      exact h.pass rfl rfl (by rw [hpc]; rfl) (by rw [hpc]; rfl) rfl fun f hf =>
        holds_of_pc (fun g (hg : Pc.fiber? .stopped = some g) => by cases hg) hf
    · refine h.pass rfl rfl (by rw [hpc]; rfl) (by rw [hpc]; rfl) rfl fun f hf => ?_
      rcases hf with hf | hf
      · exact .inr (.inr (hidle.trans hf))
      · exact .inr hf

theorem Owned.dispatch_fiber (h : s.Owned) (hpc : (s.threads t).pc = .dispatch (some (.fiber g)))
    (hs : s.runStep t = some s') : s'.Owned := by
  simp only [Scheduler.runStep, hpc] at hs
  split_ifs at hs <;> cases hs
  · -- a fiber that has finished is dropped
    exact h.pass rfl rfl (by rw [hpc]; rfl) (by rw [hpc]; rfl) rfl fun f hf =>
      holds_of_pc (fun g (hg : Pc.fiber? .scan = some g) => by cases hg) hf
  · refine h.pass rfl rfl (by rw [hpc]; rfl) (by rw [hpc]; rfl) rfl fun f hf => ?_
    exact holds_of_fiber (by rw [hpc]; rfl) hf fun _ hg => (Option.some.inj hg).symm

/-- A callback runs in the fiber that the thread keeps for callbacks, or in a new one. -/
theorem Owned.dispatch_cb (h : s.Owned) (hinv : s.Inv) {c : ℕ}
    (hpc : (s.threads t).pc = .dispatch (some (.cb c))) (hs : s.runStep t = some s') :
    s'.Owned := by
  have hrest : ∀ f f', f' ≠ f →
      ((s.threads t).pc.inside? = some f' → (Pc.enter .cb f).inside? = some f') ∧
      ((s.threads t).pc.executes? = some f' → (Pc.enter .cb f).executes? = some f') ∧
      ((Pc.enter .cb f).runs? = some f' → (s.threads t).pc.runs? = some f') := by
    intro f f' _
    rw [hpc]
    exact ⟨(fun hg => by cases hg), (fun hg => by cases hg), fun hg => by cases hg⟩
  simp only [Scheduler.runStep, hpc] at hs
  split at hs
  · rename_i g hcb
    obtain ⟨s₁, hreset, rfl⟩ := Option.map_eq_some_iff.mp hs
    obtain ⟨-, rfl⟩ := eq_of_resetFiber hreset
    refine h.touch (t := t) rfl rfl (.inl (.inr (.inl hcb)))
      (fun f hf => .inl ?_) (fun hs => by cases hs) (fun hs => by cases hs)
      (fun hs => by cases hs) (hrest g)
    rcases hf with hf | hf
    · exact .inr (.inl (hcb.trans hf))
    · exact .inr hf
  · cases hs
    refine h.touch (t := t) rfl rfl (.inr hinv.free) (fun f hf => ?_)
      (fun hs => by cases hs) (fun hs => by cases hs) (fun hs => by cases hs) (hrest _)
    rcases hf with hf | hf | hf
    · obtain rfl := Option.some.inj hf
      exact .inr hinv.free
    · obtain rfl := Option.some.inj hf
      exact .inr hinv.free
    · exact .inl (.inr (.inr hf))

/-- What the thread has taken it keeps, with a fiber of its own for a callback. -/
theorem Owned.dispatch (h : s.Owned) (hinv : s.Inv) {task : Option Task}
    (hpc : (s.threads t).pc = .dispatch task) (hs : s.runStep t = some s') : s'.Owned := by
  cases task with
  | none => exact h.dispatch_none hpc hs
  | some task =>
    cases task with
    | fiber g => exact h.dispatch_fiber hpc hs
    | cb c => exact h.dispatch_cb hinv hpc hs

theorem Owned.enter (h : s.Owned) (hpc : (s.threads t).pc = .enter kind g)
    (hs : s.runStep t = some s') : s'.Owned := by
  simp only [Scheduler.runStep, hpc] at hs
  split_ifs at hs
  cases hs
  refine h.touch (t := t) rfl rfl (.inl (.inl (by rw [hpc]; rfl)))
    (fun g' hg => .inl (holds_of_pc (fun _ hg => by rw [hpc]; exact hg) hg)) (fun _ => rfl)
    (fun _ => rfl) (fun _ => rfl) fun g' hne => ?_
  rw [hpc]
  refine ⟨(fun hg => by cases hg), (fun hg => by cases hg), fun hg => ?_⟩
  exact absurd (Option.some.inj hg).symm hne

theorem Owned.load (h : s.Owned) (hpc : (s.threads t).pc = .load kind g)
    (hs : s.runStep t = some s') : s'.Owned := by
  have hmove : ∀ pc : Pc, pc.fiber? = some g → pc.inside? = some g → pc.executes? = some g →
      pc.runs? = some g → (s.goto t pc).Owned := by
    intro pc hfiber hinside hexec hruns
    refine h.goto (fun g' hg => .inl ?_) (fun g' hg => ?_) (fun g' hg => .inl ?_) fun g' hg => ?_
    · rw [hpc]
      exact hfiber.symm.trans hg
    · rw [hpc] at hg
      exact hinside.trans hg
    · rw [hpc] at hg
      exact hexec.trans hg
    · rw [hpc]
      exact hruns.symm.trans hg
  cases kind with
  | idle =>
    simp only [Scheduler.runStep, hpc] at hs
    cases hs
    exact hmove _ rfl rfl rfl rfl
  | fiber =>
    simp only [Scheduler.runStep, hpc] at hs
    cases hs
    exact hmove _ rfl rfl rfl rfl
  | cb =>
    simp only [Scheduler.runStep, hpc] at hs
    cases hs
    exact hmove _ rfl rfl rfl rfl

theorem Owned.saving (h : s.Owned) (hpc : (s.threads t).pc = .saving kind g)
    (hs : s.runStep t = some s') : s'.Owned := by
  have hheld : (s.threads t).holds g := .inl (by rw [hpc]; rfl)
  simp only [Scheduler.runStep, hpc] at hs
  cases hs
  refine h.touch (t := t) rfl rfl (.inl hheld)
    (fun g' hg => .inl (holds_of_pc (fun _ hg => by rw [hpc]; exact hg) hg))
    (fun hs => by cases hs) (fun hexec => ?_) (fun hs => by cases hs) fun g' hne => ?_
  · cases kind with
    | idle => rfl
    | _ => exact absurd hexec (h.not_exec hheld (by rw [hpc]; exact fun hg => by cases hg))
  · rw [hpc]
    refine ⟨fun hg => absurd (Option.some.inj hg).symm hne, fun hg => ?_, fun hg => by cases hg⟩
    cases kind with
    | idle => exact hg
    | _ => cases hg

theorem Owned.returned (h : s.Owned) (hpc : (s.threads t).pc = .returned kind g)
    (hs : s.runStep t = some s') : s'.Owned := by
  have hfiber : (s.threads t).pc.fiber? = some g := by rw [hpc]; rfl
  have hinside : (s.threads t).pc.inside? = none := by rw [hpc]; rfl
  cases kind with
  | idle =>
    simp only [Scheduler.runStep, hpc] at hs
    cases hs
    refine h.leave rfl rfl hinside rfl (fun f hf => ?_) fun f hf => .inl ?_
    · exact holds_of_fiber hfiber hf fun _ hg => (Option.some.inj hg).symm
    · rwa [hpc] at hf
  | _ =>
    simp only [Scheduler.runStep, hpc] at hs
    cases hs
    refine h.pass rfl rfl hinside (by rw [hpc]; rfl) rfl fun f hf => ?_
    exact holds_of_fiber hfiber hf fun _ hg => (Option.some.inj hg).symm

theorem Owned.testReady (h : s.Owned) (hpc : (s.threads t).pc = .testReady kind g)
    (hs : s.runStep t = some s') : s'.Owned := by
  have hfiber : (s.threads t).pc.fiber? = some g := by rw [hpc]; rfl
  simp only [Scheduler.runStep, hpc] at hs
  split_ifs at hs <;> cases hs
  all_goals
    refine h.pass rfl rfl (by rw [hpc]; rfl) (by rw [hpc]; rfl) rfl fun f hf => ?_
    exact holds_of_fiber hfiber hf fun _ hg => (Option.some.inj hg).symm

theorem Owned.ready (h : s.Owned) (hpc : (s.threads t).pc = .ready kind g)
    (hs : s.runStep t = some s') : s'.Owned := by
  simp only [Scheduler.runStep, hpc] at hs
  cases hs
  refine h.pass (t := t) (Function.update_idem ..) rfl (by rw [hpc]; rfl) (by rw [hpc]; rfl) rfl
    fun f hf => ?_
  rw [Scheduler.schedule, threads_put_self] at hf
  rcases hf with hf | hf | hf
  · cases hf
  · -- the fiber for callbacks is kept, unless it is the one that is scheduled
    simp only at hf
    split_ifs at hf
    exact .inr (.inl hf)
  · exact .inr (.inr hf)

/-- The idle fiber is still in state `EXEC` here, unless it has finished. -/
theorem Owned.testFinished (h : s.Owned) (hpc : (s.threads t).pc = .testFinished kind g)
    (hs : s.runStep t = some s') : s'.Owned := by
  have hfiber : (s.threads t).pc.fiber? = some g := by rw [hpc]; rfl
  have hinside : (s.threads t).pc.inside? = none := by rw [hpc]; rfl
  have hg : ∀ f, (s.threads t).pc.executes? = some f → kind = .idle ∧ f = g := by
    intro f hf
    rw [hpc] at hf
    cases kind <;> cases hf
    exact ⟨rfl, rfl⟩
  simp only [Scheduler.runStep, hpc] at hs
  split_ifs at hs with hfin hcb <;> cases hs
  · -- a callback's fiber is cleared before the next scan
    refine h.leave rfl rfl hinside rfl (fun f hf => ?_) fun f hf => ?_
    · exact holds_of_fiber hfiber hf fun _ hg => (Option.some.inj hg).symm
    · rw [(hg f hf).1] at hcb
      cases hcb
  · refine h.leave rfl rfl hinside rfl (fun f hf => ?_) fun f hf => .inr fun hexec => ?_
    · exact holds_of_fiber hfiber hf fun _ hg => by cases hg
    · rw [← (hg f hf).2, hexec] at hfin
      cases hfin
  · refine h.leave rfl rfl hinside rfl (fun f hf => ?_) fun f hf => .inl ?_
    · exact holds_of_fiber hfiber hf fun _ hg => (Option.some.inj hg).symm
    · obtain ⟨rfl, rfl⟩ := hg f hf
      rfl

theorem Owned.hold (h : s.Owned) (hpc : (s.threads t).pc = .hold kind g)
    (hs : s.runStep t = some s') : s'.Owned := by
  have hheld : (s.threads t).holds g := .inl (by rw [hpc]; rfl)
  simp only [Scheduler.runStep, hpc] at hs
  cases hs
  refine h.touch (t := t) rfl rfl (.inl hheld) (fun f hf => .inl ?_)
    (fun hsaved => ?_) (fun hs => by cases hs) (fun hs => by cases hs) fun g' hne => ?_
  · rcases hf with hf | hf | hf
    · cases hf
    · split_ifs at hf
      exact .inr (.inl hf)
    · exact .inr (.inr hf)
  · exact absurd (h.isSaved hheld (by rw [hpc]; exact fun hg => by cases hg))
      (by simpa using hsaved)
  · rw [hpc]
    refine ⟨(fun hg => by cases hg), fun hg => ?_, fun hg => by cases hg⟩
    cases kind with
    | idle => exact absurd (Option.some.inj hg).symm hne
    | _ => cases hg

theorem Owned.clear (h : s.Owned) (hpc : (s.threads t).pc = .clear g)
    (hs : s.runStep t = some s') : s'.Owned := by
  simp only [Scheduler.runStep, hpc] at hs
  obtain ⟨s₁, hreset, rfl⟩ := Option.map_eq_some_iff.mp hs
  obtain ⟨-, rfl⟩ := eq_of_resetFiber hreset
  refine h.touch (t := t) rfl rfl (.inl (.inl (by rw [hpc]; rfl)))
    (fun f hf => .inl (hf.elim (fun hf => by cases hf) .inr)) (fun hs => by cases hs)
    (fun hs => by cases hs) (fun hs => by cases hs) fun g' _ => ?_
  rw [hpc]
  exact ⟨(fun hg => by cases hg), (fun hg => by cases hg), fun hg => by cases hg⟩

theorem Owned.runStep (h : s.Owned) (hinv : s.Inv) (hok : s.Unheld (.step t))
    (htickle : (s.threads t).tickle = .none) (hs : s.runStep t = some s') : s'.Owned := by
  cases hpc : (s.threads t).pc with
  | outside => simp [Scheduler.runStep, hpc] at hs
  | running kind g => simp [Scheduler.runStep, hpc] at hs
  | stopped => simp [Scheduler.runStep, hpc] at hs
  | idle stage g =>
    simp only [Scheduler.runStep, hpc] at hs
    exact h.idleStep hpc hs
  | scan => exact h.scan hok htickle hpc hs
  | dispatch task => exact h.dispatch hinv hpc hs
  | enter kind g => exact h.enter hpc hs
  | load kind g => exact h.load hpc hs
  | saving kind g => exact h.saving hpc hs
  | returned kind g => exact h.returned hpc hs
  | testReady kind g => exact h.testReady hpc hs
  | ready kind g => exact h.ready hpc hs
  | testFinished kind g => exact h.testFinished hpc hs
  | hold kind g => exact h.hold hpc hs
  | clear g => exact h.clear hpc hs

/-! ## Runs -/

/-- **A step keeps every fiber in the hands of one thread**, if its scan takes a fiber that no
thread has in its hands. -/
theorem Owned.step {a : Action} (h : s.Owned) (hinv : s.Inv) (hok : s.Unheld a)
    (hs : machine.step s a = some s') : s'.Owned := by
  simp only [machine] at hs
  cases a with
  | start t =>
    simp only [Scheduler.step] at hs
    split_ifs at hs with hpc
    cases hs
    refine h.touch (t := t) (f := s.created) rfl rfl (.inr hinv.free)
      (fun f hf => ?_) (fun hs => by cases hs) (fun hs => by cases hs) (fun hs => by cases hs)
      fun f _ => ?_
    · rcases hf with hf | hf | hf
      · cases hf
      · exact .inl (.inr (.inl hf))
      · obtain rfl := Option.some.inj hf
        exact .inr hinv.free
    · rw [hpc.1]
      exact ⟨(fun hg => by cases hg), (fun hg => by cases hg), fun hg => by cases hg⟩
  | newFiber t =>
    simp only [Scheduler.step] at hs
    split_ifs at hs
    cases hs
    exact h.newFiber hinv
  | schedule t tasks =>
    simp only [Scheduler.step] at hs
    split_ifs at hs
    cases hs
    exact h.schedule
  | addTimer t ms cb recurring addr =>
    simp only [Scheduler.step] at hs
    split_ifs at hs
    obtain ⟨r, -, rfl⟩ := Option.map_eq_some_iff.mp hs
    exact h.putTickle.congr rfl fun _ => ⟨rfl, rfl, rfl⟩
  | cancel t i =>
    simp only [Scheduler.step] at hs
    split_ifs at hs
    obtain ⟨r, -, rfl⟩ := Option.map_eq_some_iff.mp hs
    exact h.congr rfl fun _ => ⟨rfl, rfl, rfl⟩
  | stop t =>
    simp only [Scheduler.step] at hs
    split_ifs at hs
    cases hs
    exact h.congr rfl fun _ => ⟨rfl, rfl, rfl⟩
  | tickle t =>
    simp only [Scheduler.step] at hs
    split_ifs at hs
    cases hs
    exact h.putTickle
  | step t =>
    simp only [Scheduler.step] at hs
    split_ifs at hs with htickle
    · exact h.runStep hinv hok htickle hs
    · exact h.tickleStep hs
  | yield t state =>
    simp only [Scheduler.step] at hs
    split at hs
    · rename_i kind f hpc
      split_ifs at hs with hstate
      cases hs
      refine h.touch (t := t) rfl rfl (.inl (.inl (by rw [hpc]; rfl)))
        (fun g hg => .inl (holds_of_pc (fun _ hg => by rw [hpc]; exact hg) hg)) (fun _ => rfl)
        (fun hexec => absurd hexec hstate.2.2) (fun hs => by cases hs) fun g hne => ?_
      rw [hpc]
      refine ⟨id, fun hg => ?_, fun hg => by cases hg⟩
      exact absurd (Option.some.inj hg).symm hne
    · cases hs
  | wake t interrupted =>
    simp only [Scheduler.step] at hs
    split at hs
    · rename_i hpc
      cases hs
      exact h.stage hpc
    · cases hs
  | listExpiredCb t probe =>
    simp only [Scheduler.step] at hs
    split at hs
    · rename_i hpc
      obtain ⟨r, -, rfl⟩ := Option.map_eq_some_iff.mp hs
      exact (h.stage hpc).congr rfl fun _ => ⟨rfl, rfl, rfl⟩
    · cases hs
  | drain t =>
    simp only [Scheduler.step] at hs
    split_ifs at hs
    cases hs
    exact h.congr rfl fun _ => ⟨rfl, rfl, rfl⟩
  | trigger t task =>
    simp only [Scheduler.step] at hs
    split_ifs at hs
    cases hs
    exact h.schedule
  | events n =>
    cases hs
    exact h.congr rfl fun _ => ⟨rfl, rfl, rfl⟩
  | clock n =>
    cases hs
    exact h.congr rfl fun _ => ⟨rfl, rfl, rfl⟩

theorem owned_new (now : ℕ) : (new now).Owned := by
  have hfree : ∀ t f, ¬ ((new now).threads t).holds f := by
    rintro t f (hf | hf | hf) <;> cases hf
  exact ⟨fun t _ f ht => absurd ht (hfree t f), (fun f hf => by cases hf),
    (fun t f hf => by cases hf), fun f hf => by cases hf⟩

/-- **Fibers run on one thread at a time**: a run all of whose scans take fibers that no thread
has in its hands keeps `Exclusive`. -/
theorem exclusive_of_unheld {now : ℕ} {as : List Action}
    (hok : machine.Meets Unheld (new now) as) : machine.Keeps Exclusive (new now) as :=
  Machine.keeps_of_meets (I := fun s => s.Inv ∧ s.Owned)
    (fun _ _ _ h hok hs => ⟨h.1.step hs, h.2.step h.1 hok hs⟩) (fun _ h => h.2.exclusive)
    ⟨inv_new now, owned_new now⟩ hok

/-- A fiber taken by the one thread of the scheduler. -/
theorem exclusive_of_unheld_taken : machine.Keeps Exclusive (new 0)
    [.start 0, .newFiber 1, .schedule 1 [(some (.fiber 1), none)], .step 0] := by
  refine exclusive_of_unheld ?_
  refine (Machine.meets_cons rfl).mpr ⟨trivial, (Machine.meets_cons rfl).mpr ⟨trivial,
    (Machine.meets_cons rfl).mpr ⟨trivial, (Machine.meets_cons rfl).mpr ⟨?_, trivial⟩⟩⟩⟩
  rintro - - f thread ⟨skipped, rest, hq, -⟩ t' ht'
  have hmem : ({ task := .fiber f, thread := thread } : FiberAndThread) ∈
      [{ task := .fiber 1, thread := none }] := by
    rw [show [_] = skipped ++ _ :: rest from hq]
    simp
  cases List.mem_singleton.mp hmem
  rcases t' with _ | _ | t' <;> rcases ht' with h | h | h <;> cases h

/-- A fiber that is entered twice: thread 0 runs it while its event schedules it again, and has
stored `HOLD` but not saved the context when thread 1 takes the fiber from the queue. -/
theorem fiber_entered_twice :
    ∃ s, machine.run (new 0) [.start 0, .start 1, .newFiber 2,
        .schedule 2 [(some (.fiber 2), none)], .step 0, .step 0, .step 0, .step 0, .step 2, .step 2,
        .schedule 2 [(some (.fiber 2), none)], .yield 0 .hold,
        .step 1, .step 1, .step 1, .step 1] = some s ∧
      (s.threads 0).pc = .saving .fiber 2 ∧ (s.threads 1).pc = .running .fiber 2 ∧
      ¬ s.Exclusive := by
  refine ⟨_, rfl, rfl, rfl, fun h => ?_⟩
  exact absurd (h.alone 0 1 2 rfl rfl) (by decide)

end Scheduler

end Sylar

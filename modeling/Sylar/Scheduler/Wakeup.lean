import Sylar.Scheduler.Invariant

/-!
# Wakeups of blocked threads

A thread in `epoll_wait` is woken by a byte in the tickle pipe. `tickle` returns without a write
whenever a thread is idle, so whenever one is blocked: what wakes a blocked thread is a byte that
is there already. A run loses no wakeup as long as none is needed, that is, as long as a task that
a blocked thread may run finds a thread that is about to look at the queue anyway.

## Main definitions

* `Pc.active`: the thread will look at the queue before it blocks
* `watched`: the machine, with the timers added in front while a thread was blocked
* `Wakeful`: no blocked thread misses a task or a timer
* `Attended`: a step leaves no task or timer to a blocked thread alone

## Main results

* `inFront_iff`: a timer in front is the first of the set
* `tickle_returns`: `tickle` does not write while a thread is blocked
* `Wakeful.step`: a step that meets `Attended` loses no wakeup
* `wakeful_of_attended`: a run whose steps meet `Attended` keeps `Wakeful`
-/

namespace Sylar

open Foundation

namespace Scheduler

variable {s s' : Scheduler} {t t' f : ℕ} {th : Thread} {ft : FiberAndThread}
  {e e' : ℕ → ℕ → Prop}

/-- The thread will look at the queue before it blocks. -/
def Pc.active : Pc → Bool
  | .outside | .stopped | .dispatch none => false
  | .enter kind _ | .load kind _ => kind ≠ .idle
  | .idle .expire _ | .idle (.cbs _) _ | .idle .events _ | .idle .out _ => true
  | .idle _ _ => false
  | _ => true

/-- The deadline of a thread in `epoll_wait`. -/
def Pc.blocked? : Pc → Option (Option ℕ)
  | .idle (.blocked _ deadline) _ => some deadline
  | _ => none

/-- The thread may take the entry in a scan. -/
def canRun (s : Scheduler) (t : ℕ) (ft : FiberAndThread) : Prop :=
  ft.elsewhere t = false ∧ ft.executing s.fibers = false

/-- A byte is in the pipe, or a call of `tickle` is about to write one. -/
def Signalled (s : Scheduler) : Prop := 0 < s.pipe ∨ ∃ t, (s.threads t).tickle = .write

/-- An active thread may take the entry, or a blocked thread is woken. -/
def Served (s : Scheduler) (ft : FiberAndThread) : Prop :=
  (∃ t, (s.threads t).pc.active ∧ s.canRun t ft) ∨ s.Signalled

/-- The thread is blocked up to a later time. -/
def Late (s : Scheduler) (t next : ℕ) : Prop :=
  ∃ deadline, (s.threads t).pc.blocked? = some deadline ∧ ∀ d, deadline = some d → next < d

/-- A timer added now, on this address, comes before all others. -/
def InFront (s : Scheduler) (ms addr : ℕ) : Prop :=
  ∀ i ∈ s.timers.timers, u64 (s.now + ms) < (s.timers.heap i).next ∨
    u64 (s.now + ms) = (s.timers.heap i).next ∧ addr < (s.timers.heap i).addr

/-- The timers added in front while a thread was blocked up to a later time, thread by thread, as
long as the thread has not woken and the timer has not fired. -/
def early (s : Scheduler) (a : Action) (e : ℕ → ℕ → Prop) : ℕ → ℕ → Prop :=
  match a with
  | .addTimer _ ms _ _ addr => fun t i =>
    if i = s.timers.created then s.InFront ms addr ∧ s.Late t (u64 (s.now + ms)) else e t i
  | .wake t' _ => fun t i => t ≠ t' ∧ e t i
  | .listExpiredCb .. => fun t i => i ∉ s.timers.due s.now ∧ e t i
  | _ => e

/-- The machine of the interleaved threads, watched for the timers added in front. -/
def watched : Machine (Scheduler × (ℕ → ℕ → Prop)) Action := machine.observe early

/-- A watched run is a run of the scheduler. -/
theorem run_of_watched {c : Scheduler × (ℕ → ℕ → Prop)} {as : List Action}
    (h : watched.run (s, e) as = some c) : machine.run s as = some c.1 :=
  Machine.run_of_observe h

/-- **No wakeup is lost**: a task that a blocked thread may run is served, and a timer added in
front while a thread was blocked up to a later time has signalled it. -/
structure Wakeful (s : Scheduler) (e : ℕ → ℕ → Prop) : Prop where
  tasks : ∀ ft ∈ s.queue, ∀ t, (s.threads t).pc.blocked?.isSome → s.canRun t ft → s.Served ft
  timers : ∀ t i, e t i → i ∈ s.timers.timers → s.Signalled

/-- A fiber of the queue that leaves the state `EXEC` is served. -/
def Released (s : Scheduler) (f : ℕ) : Prop :=
  ∀ ft ∈ s.queue, ft.task = .fiber f → ∀ t, (s.threads t).pc.blocked?.isSome →
    ft.elsewhere t = false →
      (∃ t', (s.threads t').pc.active ∧ ft.elsewhere t' = false) ∨ s.Signalled

/-- **The step leaves nothing to a blocked thread alone**: what it puts in the queue or makes fit
to run, what a thread that blocks leaves in the queue, and what remains when the pipe is emptied,
is for no blocked thread, or served; no timer is added in front, before the deadline of a blocked
thread that is not signalled. -/
def Attended (s : Scheduler) (e : ℕ → ℕ → Prop) : Action → Prop
  | .schedule _ tasks => ∀ x ∈ tasks, ∀ task ∈ x.1, ∀ t, (s.threads t).pc.blocked?.isSome →
      s.canRun t { task := task, thread := x.2 } → s.Served { task := task, thread := x.2 }
  | .addTimer _ ms _ _ addr => s.InFront ms addr → ∀ t, s.Late t (u64 (s.now + ms)) → s.Signalled
  | .drain _ =>
    (∀ ft ∈ s.queue, ∀ t, (s.threads t).pc.blocked?.isSome → s.canRun t ft →
      (∃ t', (s.threads t').pc.active ∧ s.canRun t' ft) ∨ ∃ t', (s.threads t').tickle = .write) ∧
    ∀ t i, e t i → i ∈ s.timers.timers → ∃ t', (s.threads t').tickle = .write
  | .yield t _ => ∀ kind f, (s.threads t).pc = .running kind f → s.Released f
  | .step t => (s.threads t).tickle = .none →
    match (s.threads t).pc with
    | .idle (.wait _) _ => ∀ ft ∈ s.queue, s.canRun t ft → s.Served ft
    | .idle .finish f | .hold _ f => s.Released f
    | _ => True
  | _ => True

/-! ## Blocked threads and `tickle` -/

theorem idling_of_blocked {pc : Pc} (h : pc.blocked?.isSome) : pc.idling := by
  cases pc <;> simp [Pc.blocked?] at h
  rfl

/-- **While a thread is blocked, `tickle` writes nothing.** -/
theorem tickle_returns (h : s.Inv) (hb : (s.threads t).pc.blocked?.isSome)
    (ht : (s.threads t').tickle = .test) :
    s.tickleStep t' = some (s.put t' { s.threads t' with tickle := .none }) := by
  have hpos := h.idle_pos (idling_of_blocked hb)
  simp [tickleStep, ht, hpos]

/-- A timer in front is the first of the set. -/
theorem inFront_iff (wf : s.timers.Wf) {ms addr : ℕ} {cb : Option ℕ} {recurring : Bool}
    {r : (ℕ × Bool) × TimerManager ℕ} (hr : s.timers.addTimer s.now ms cb recurring addr = some r) :
    s.InFront ms addr ↔ r.2.timers.head? = some s.timers.created := by
  obtain ⟨-, hadd⟩ := TimerManager.addTimer_spec wf hr
  have hless : ∀ i ∈ s.timers.timers, r.2.less s.timers.created i ↔
      u64 (s.now + ms) < (s.timers.heap i).next ∨
        u64 (s.now + ms) = (s.timers.heap i).next ∧ addr < (s.timers.heap i).addr := by
    intro i hi
    have hne : i ≠ s.timers.created := (wf.bound i hi).ne
    rw [TimerManager.less_iff, hadd.heap, hadd.heap, if_pos rfl, if_neg hne]
  have hmem : s.timers.created ∈ r.2.timers := (hadd.mem _).mpr (.inl rfl)
  cases htimers : r.2.timers with
  | nil => simp [htimers] at hmem
  | cons i rest =>
    have hsorted := List.pairwise_cons.mp (htimers ▸ hadd.sorted)
    simp only [List.head?_cons, Option.some.injEq]
    constructor
    · intro hfront
      by_contra hne
      have hi := ((hadd.mem i).mp (by simp [htimers])).resolve_left hne
      have hrest : s.timers.created ∈ rest := by
        rw [htimers] at hmem
        exact (List.mem_cons.mp hmem).resolve_left (Ne.symm hne)
      exact r.2.less_irrefl i (r.2.less_trans _ _ _ (hsorted.1 _ hrest)
        ((hless i hi).mpr (hfront i hi)))
    · rintro rfl j hj
      refine (hless j hj).mp (hsorted.1 j ?_)
      have hj' := (hadd.mem j).mpr (.inr hj)
      rw [htimers] at hj'
      exact (List.mem_cons.mp hj').resolve_left (wf.bound j hj).ne

/-! ## Moves -/

theorem Signalled.move {th' : Thread} (h : s.Signalled)
    (hthreads : s'.threads = Function.update s.threads t th')
    (hwrite : (s.threads t).tickle = .write → th'.tickle = .write ∨ 0 < s'.pipe)
    (hpipe : s.pipe ≤ s'.pipe) : s'.Signalled := by
  rcases h with h | ⟨t', ht'⟩
  · exact .inl (Nat.lt_of_lt_of_le h hpipe)
  · rcases eq_or_ne t' t with rfl | hne
    · rcases hwrite ht' with hw | hp
      · exact .inr ⟨t', by rw [hthreads, Function.update_self]; exact hw⟩
      · exact .inl hp
    · exact .inr ⟨t', by rw [hthreads, Function.update_of_ne hne]; exact ht'⟩

theorem Served.move {th' : Thread} (h : s.Served ft)
    (hthreads : s'.threads = Function.update s.threads t th')
    (hactive : (s.threads t).pc.active → s.canRun t ft → th'.pc.active)
    (hwrite : (s.threads t).tickle = .write → th'.tickle = .write ∨ 0 < s'.pipe)
    (hpipe : s.pipe ≤ s'.pipe) (hexec : ft.executing s'.fibers = false) : s'.Served ft := by
  rcases h with ⟨t₀, hact, hrun₀⟩ | hsig
  · rcases eq_or_ne t₀ t with rfl | hne
    · refine .inl ⟨t₀, ?_, hrun₀.1, hexec⟩
      rw [hthreads, Function.update_self]
      exact hactive hact hrun₀
    · exact .inl ⟨t₀, by rw [hthreads, Function.update_of_ne hne]; exact hact, hrun₀.1, hexec⟩
  · exact .inr (hsig.move hthreads hwrite hpipe)

/-- **A thread moves** without being blocked: unless it may run no entry of the queue it stays
active, and what becomes fit to run, or is set, is served. -/
theorem Wakeful.move (h : s.Wakeful e) {th' : Thread}
    (hthreads : s'.threads = Function.update s.threads t th')
    (hblocked : ∀ d, th'.pc.blocked? = some d → (s.threads t).pc.blocked? = some d)
    (hactive : (s.threads t).pc.active → th'.pc.active ∨ ∀ ft ∈ s'.queue, ¬ s.canRun t ft)
    (hwrite : (s.threads t).tickle = .write → th'.tickle = .write ∨ 0 < s'.pipe)
    (hpipe : s.pipe ≤ s'.pipe)
    (htasks : ∀ ft ∈ s'.queue, ft.executing s'.fibers = false →
      ft ∈ s.queue ∧ ft.executing s.fibers = false ∨
        ∀ t', (s.threads t').pc.blocked?.isSome → ft.elsewhere t' = false → s'.Served ft)
    (htimers : ∀ t' i, e' t' i → i ∈ s'.timers.timers →
      e t' i ∧ i ∈ s.timers.timers ∨ s'.Signalled) : s'.Wakeful e' := by
  have hback : ∀ t' d, (s'.threads t').pc.blocked? = some d →
      (s.threads t').pc.blocked? = some d := by
    intro t' d hd
    rcases eq_or_ne t' t with rfl | hne
    · rw [hthreads, Function.update_self] at hd
      exact hblocked d hd
    · rwa [hthreads, Function.update_of_ne hne] at hd
  refine ⟨fun ft hft t' ht' hrun => ?_, fun t' i he hi => ?_⟩
  · obtain ⟨d, hd⟩ := Option.isSome_iff_exists.mp ht'
    have hb : (s.threads t').pc.blocked?.isSome := by rw [hback t' d hd]; rfl
    rcases htasks ft hft hrun.2 with ⟨hmem, hexec⟩ | hserved
    · exact (h.tasks ft hmem t' hb ⟨hrun.1, hexec⟩).move hthreads
        (fun hact hrun₀ => (hactive hact).resolve_right fun hno => hno ft hft hrun₀) hwrite hpipe
        hrun.2
    · exact hserved t' hb hrun.1
  · rcases htimers t' i he hi with ⟨he, hi⟩ | hsig
    · exact (h.timers t' i he hi).move hthreads hwrite hpipe
    · exact hsig

/-- A thread moves and stores a state of a fiber, or creates one. -/
theorem Wakeful.store (h : s.Wakeful e) {th' : Thread} {fiber : Fiber}
    (hthreads : s'.threads = Function.update s.threads t th')
    (hblocked : ∀ d, th'.pc.blocked? = some d → (s.threads t).pc.blocked? = some d)
    (hactive : (s.threads t).pc.active → th'.pc.active)
    (htickle : (s.threads t).tickle = .write → th'.tickle = .write)
    (hfibers : s'.fibers = Function.update s.fibers f fiber)
    (hreleased : (s.fibers f).state = .exec → fiber.state ≠ .exec → s.Released f)
    (hqueue : s'.queue = s.queue) (hpipe : s'.pipe = s.pipe) (htimers : s'.timers = s.timers) :
    s'.Wakeful e := by
  have hwrite := fun hw => Or.inl (b := 0 < s'.pipe) (htickle hw)
  refine h.move hthreads hblocked (fun ha => .inl (hactive ha)) hwrite hpipe.ge
    (fun ft hft hexec => ?_) fun t' i he hi => .inl ⟨he, by rwa [htimers] at hi⟩
  rw [hqueue] at hft
  by_cases hleaves : ft.executing s.fibers = false
  · exact .inl ⟨hft, hleaves⟩
  -- the entry is the fiber, which has left the state `EXEC`
  obtain ⟨htask, hold, hnew⟩ : ft.task = .fiber f ∧ (s.fibers f).state = .exec ∧
      fiber.state ≠ .exec := by
    unfold FiberAndThread.executing at hexec hleaves
    cases htask : ft.task with
    | cb c => simp [htask] at hleaves
    | fiber g =>
      simp only [htask, hfibers, decide_eq_false_iff_not, not_not] at hexec hleaves
      rcases eq_or_ne g f with rfl | hne
      · rw [Function.update_self] at hexec
        exact ⟨rfl, hleaves, hexec⟩
      · rw [Function.update_of_ne hne] at hexec
        exact absurd hleaves hexec
  refine .inr fun t' hb helse => ?_
  rcases hreleased hold hnew ft hft htask t' hb helse with ⟨t₀, hact, helse₀⟩ | hsig
  · refine .inl ⟨t₀, ?_, helse₀, hexec⟩
    rcases eq_or_ne t₀ t with rfl | hne
    · rw [hthreads, Function.update_self]
      exact hactive hact
    · rw [hthreads, Function.update_of_ne hne]
      exact hact
  · exact .inr (hsig.move hthreads hwrite hpipe.ge)

/-- A thread moves and leaves fibers, queue, pipe and timers as they are. -/
theorem Wakeful.turn (h : s.Wakeful e) {th' : Thread}
    (hthreads : s'.threads = Function.update s.threads t th')
    (hblocked : ∀ d, th'.pc.blocked? = some d → (s.threads t).pc.blocked? = some d)
    (hactive : (s.threads t).pc.active → th'.pc.active)
    (htickle : (s.threads t).tickle = .write → th'.tickle = .write)
    (hfibers : s'.fibers = s.fibers) (hqueue : s'.queue = s.queue) (hpipe : s'.pipe = s.pipe)
    (htimers : s'.timers = s.timers) : s'.Wakeful e :=
  h.store hthreads hblocked hactive htickle (hfibers.trans (Function.update_eq_self 0 _).symm)
    (fun hold hnew => absurd hold hnew) hqueue hpipe htimers

theorem Wakeful.goto (h : s.Wakeful e) {pc : Pc} (hblocked : pc.blocked? = none)
    (hactive : (s.threads t).pc.active → pc.active) : (s.goto t pc).Wakeful e :=
  h.turn rfl (fun d hd => by rw [hblocked] at hd; cases hd) hactive id rfl rfl rfl rfl

/-- A byte in the pipe, or about to be, serves everything. -/
theorem wakeful_of_signalled (h : s.Signalled) : s.Wakeful e :=
  ⟨fun _ _ _ _ _ => .inr h, fun _ _ _ _ => h⟩

theorem queue_scheduleAll {queue : List FiberAndThread} {tasks : List (Option Task × Option ℕ)}
    (h : ft ∈ (scheduleAll queue tasks).2) :
    ft ∈ queue ∨ (some ft.task, ft.thread) ∈ tasks := by
  induction tasks generalizing queue with
  | nil => exact .inl h
  | cons x tasks ih =>
    obtain ⟨task, thread⟩ := x
    rcases ih h with h | h
    · cases task with
      | none => exact .inl h
      | some task =>
        rcases List.mem_append.mp h with h | h
        · exact .inl h
        · obtain rfl := List.mem_singleton.mp h
          exact .inr (by simp)
    · exact .inr (List.mem_cons_of_mem _ h)

/-- Tasks put in the queue by a thread that is not in `tickle`. -/
theorem Wakeful.schedule (h : s.Wakeful e) (ht : (s.threads t).tickle = .none)
    {tasks : List (Option Task × Option ℕ)}
    (hserved : ∀ x ∈ tasks, ∀ task ∈ x.1, ∀ t, (s.threads t).pc.blocked?.isSome →
      s.canRun t { task := task, thread := x.2 } → s.Served { task := task, thread := x.2 }) :
    (s.schedule t tasks).Wakeful e := by
  have hno : (s.threads t).tickle = .write → (if (scheduleAll s.queue tasks).1 then
      Tickle.test else .none) = .write ∨ 0 < s.pipe := by
    rw [ht]
    exact fun hw => by cases hw
  refine h.move (t := t) rfl (fun _ => id) (fun ha => .inl ha) hno (Nat.le_refl _)
    (fun ft hft hexec => ?_) fun t' i he hi => .inl ⟨he, hi⟩
  rcases queue_scheduleAll hft with hft | hft
  · exact .inl ⟨hft, hexec⟩
  · refine .inr fun t' hb helse => ?_
    exact (hserved _ hft ft.task rfl t' hb ⟨helse, hexec⟩).move rfl (fun ha _ => ha) hno
      (Nat.le_refl _) hexec

/-- An active thread serves what it puts in the queue for any thread. -/
theorem Wakeful.scheduleOwn (h : s.Wakeful e) (ht : (s.threads t).tickle = .none)
    (hact : (s.threads t).pc.active) (tasks : List (Option Task)) :
    (s.schedule t (tasks.map fun task => (task, none))).Wakeful e := by
  refine h.schedule ht fun x hx task _ t' _ hrun => ?_
  obtain ⟨task', -, rfl⟩ := List.mem_map.mp hx
  exact .inl ⟨t, hact, rfl, hrun.2⟩

/-- `Fiber::reset` on a fiber that does not run. -/
theorem Wakeful.reset (h : s.Wakeful e) {s₁ : Scheduler} {pc : Pc}
    (hreset : s.resetFiber f = some s₁) (hblocked : pc.blocked? = none)
    (hactive : (s.threads t).pc.active → pc.active) : (s₁.goto t pc).Wakeful e := by
  obtain ⟨hstate, rfl⟩ := eq_of_resetFiber hreset
  refine h.store rfl (fun d hd => by rw [hblocked] at hd; cases hd) hactive id rfl
    (fun hexec _ => ?_) rfl rfl rfl
  rw [hexec] at hstate
  simp [Fiber.State.finished] at hstate

/-- The next fiber is not in the queue. -/
theorem Inv.released_created (h : s.Inv) : s.Released s.created := by
  intro ft hft htask
  have hknown := h.queue ft hft
  rw [htask] at hknown
  exact absurd (of_decide_eq_true hknown) (Nat.lt_irrefl _)

theorem Thread.tickle_of_free (h : th.free) : th.tickle = .none := by
  unfold Thread.free at h
  simp only [Bool.and_eq_true, decide_eq_true_eq] at h
  exact h.1

theorem Thread.active_of_atEvents (h : th.atEvents) : th.tickle = .none ∧ th.pc.active := by
  unfold Thread.atEvents at h
  simp only [Bool.and_eq_true, decide_eq_true_eq] at h
  refine ⟨h.1, ?_⟩
  have hpc := h.2
  split at hpc
  · rename_i hpc'
    rw [hpc']
    rfl
  · cases hpc

/-! ## Steps -/

theorem timers_getNextTimer (m : TimerManager ℕ) (now : ℕ) :
    (m.getNextTimer now).2.timers = m.timers := by
  simp only [TimerManager.getNextTimer]
  split
  · rfl
  · split_ifs <;> rfl

/-- `Timer::cancel` adds no timer. -/
theorem mem_of_cancel {m : TimerManager ℕ} (wf : m.Wf) {i j : ℕ} {r : Bool × TimerManager ℕ}
    (hr : m.cancel i = some r) (hj : j ∈ r.2.timers) : j ∈ m.timers := by
  cases hcb : (m.heap i).cb with
  | none =>
    rw [TimerManager.cancel_empty hcb] at hr
    obtain rfl := Option.some.inj hr
    exact hj
  | some cb =>
    obtain ⟨m', hm', hl⟩ := TimerManager.cancel_spec wf (i := i) (by simp [hcb])
    obtain rfl := Option.some.inj (hm'.symm.trans hr)
    exact ((hl.mem j).mp hj).2

theorem Wakeful.tickleStep (h : s.Wakeful e) (hs : s.tickleStep t = some s') : s'.Wakeful e := by
  simp only [Scheduler.tickleStep] at hs
  split at hs
  · cases hs
  · rename_i htickle
    have hwrite : ∀ tickle', (s.threads t).tickle = .write → tickle' = Tickle.write :=
      fun _ hw => by rw [htickle] at hw; cases hw
    split_ifs at hs <;> cases hs <;> exact h.turn rfl (fun _ => id) id (hwrite _) rfl rfl rfl rfl
  · cases hs
    exact wakeful_of_signalled (.inl (Nat.succ_pos _))

theorem Wakeful.idleStep (h : s.Wakeful e) {stage : Stage} (htickle : (s.threads t).tickle = .none)
    (hok : s.Attended e (.step t)) (hpc : (s.threads t).pc = .idle stage f)
    (hs : s.idleStep t f stage = some s') : s'.Wakeful e := by
  cases stage with
  | top =>
    cases hs
    refine h.move (t := t) rfl (fun _ hd => by cases hd) (fun ha => ?_) .inl (Nat.le_refl _)
      (fun ft hft hexec => .inl ⟨hft, hexec⟩) fun t' i he hi => .inl ⟨he, ?_⟩
    · rw [hpc] at ha
      cases ha
    · exact timers_getNextTimer s.timers s.now ▸ hi
  | pending next =>
    simp only [Scheduler.idleStep] at hs
    split_ifs at hs <;> cases hs <;>
      exact h.goto rfl fun ha => by rw [hpc] at ha; cases ha
  | queue next =>
    simp only [Scheduler.idleStep] at hs
    split_ifs at hs <;> cases hs <;>
      exact h.goto rfl fun ha => by rw [hpc] at ha; cases ha
  | wait next =>
    simp only [Attended, hpc] at hok
    cases hs
    have hmove : ∀ ft pc, ft.executing s.fibers = false → s.Served ft → (s.goto t pc).Served ft :=
      fun ft pc hexec hserved =>
        hserved.move rfl (fun ha _ => by rw [hpc] at ha; cases ha) .inl (Nat.le_refl _) hexec
    -- for the thread that blocks the queue is looked at anew
    refine ⟨fun ft hft t' hb hrun => ?_, fun t' i he hi => ?_⟩
    · rcases eq_or_ne t' t with rfl | hne
      · exact hmove ft _ hrun.2 (hok htickle ft hft hrun)
      · rw [Scheduler.goto, threads_put_of_ne hne] at hb
        exact hmove ft _ hrun.2 (h.tasks ft hft t' hb hrun)
    · exact (h.timers t' i he hi).move rfl .inl (Nat.le_refl _)
  | blocked next deadline => cases hs
  | expire => cases hs
  | cbs cbs =>
    have hact : (s.threads t).pc.active := by rw [hpc]; rfl
    cases hs
    split_ifs
    · exact h.goto rfl fun _ => rfl
    · have hcbs := h.scheduleOwn htickle hact (cbs.map fun cb => cb.map .cb)
      rw [List.map_map] at hcbs
      exact hcbs.goto rfl fun _ => rfl
  | events =>
    cases hs
    exact h.goto rfl fun _ => rfl
  | out =>
    cases hs
    exact h.goto rfl fun _ => rfl
  | finish =>
    simp only [Attended, hpc] at hok
    cases hs
    exact h.store rfl (fun _ hd => by cases hd) (fun _ => rfl) id rfl
      (fun _ _ => hok htickle) rfl rfl rfl

theorem Wakeful.runStep (h : s.Wakeful e) (hinv : s.Inv) (hok : s.Attended e (.step t))
    (htickle : (s.threads t).tickle = .none) (hs : s.runStep t = some s') : s'.Wakeful e := by
  have hnone : ∀ tickle, (s.threads t).tickle = .write → tickle = Tickle.write :=
    fun _ hw => by rw [htickle] at hw; cases hw
  cases hpc : (s.threads t).pc with
  | outside => simp [Scheduler.runStep, hpc] at hs
  | running kind g => simp [Scheduler.runStep, hpc] at hs
  | stopped => simp [Scheduler.runStep, hpc] at hs
  | idle stage g =>
    simp only [Scheduler.runStep, hpc] at hs
    exact h.idleStep htickle hok hpc hs
  | scan =>
    simp only [Scheduler.runStep, hpc] at hs
    cases hs
    refine h.move (t := t) rfl (fun _ hd => by cases hd) (fun _ => ?_) (fun hw => .inl (hnone _ hw))
      (Nat.le_refl _) (fun ft hft hexec => .inl ⟨mem_scan hft, hexec⟩)
      fun t' i he hi => .inl ⟨he, hi⟩
    cases htask : (Scheduler.scan s.fibers t s.queue).1 with
    | some task => exact .inl rfl
    | none =>
      -- a thread that finds nothing leaves nothing that it could run
      obtain ⟨hrest, hskip⟩ := scan_eq_none htask
      refine .inr fun ft hft hrun => ?_
      rcases hskip ft (mem_scan hft) with helse | hexec
      · rw [hrun.1] at helse
        cases helse
      · rw [hrun.2] at hexec
        cases hexec
  | dispatch task =>
    cases task with
    | none =>
      have hact : ∀ pc : Pc, (s.threads t).pc.active → pc.active := fun _ ha => by
        rw [hpc] at ha
        cases ha
      simp only [Scheduler.runStep, hpc] at hs
      split at hs
      · cases hs
      · split_ifs at hs <;> cases hs
        · exact h.goto rfl (hact _)
        · exact h.turn rfl (fun _ hd => by cases hd) (hact _) id rfl rfl rfl rfl
    | some task =>
      cases task with
      | fiber g =>
        simp only [Scheduler.runStep, hpc] at hs
        split_ifs at hs <;> cases hs
        · exact h.turn rfl (fun _ hd => by cases hd) (fun _ => rfl) id rfl rfl rfl rfl
        · exact h.goto rfl fun _ => rfl
      | cb c =>
        simp only [Scheduler.runStep, hpc] at hs
        split at hs
        · rename_i g _
          obtain ⟨s₁, hreset, rfl⟩ := Option.map_eq_some_iff.mp hs
          exact h.reset hreset rfl fun _ => rfl
        · cases hs
          exact h.store rfl (fun _ hd => by cases hd) (fun _ => rfl) id rfl
            (fun _ _ => hinv.released_created) rfl rfl rfl
  | enter kind g =>
    simp only [Scheduler.runStep, hpc] at hs
    split_ifs at hs
    cases hs
    exact h.store rfl (fun _ hd => by cases hd) (fun ha => by rw [hpc] at ha; exact ha) id rfl
      (fun _ hne => absurd rfl hne) rfl rfl rfl
  | load kind g =>
    cases kind <;> simp only [Scheduler.runStep, hpc] at hs <;> cases hs <;>
      exact h.goto rfl fun ha => by rw [hpc] at ha; exact ha
  | saving kind g =>
    simp only [Scheduler.runStep, hpc] at hs
    cases hs
    exact h.store rfl (fun _ hd => by cases hd) (fun _ => rfl) id rfl
      (fun hexec hne => absurd hexec hne) rfl rfl rfl
  | returned kind g =>
    cases kind <;> simp only [Scheduler.runStep, hpc] at hs <;> cases hs <;>
      exact h.turn rfl (fun _ hd => by cases hd) (fun _ => rfl) id rfl rfl rfl rfl
  | testReady kind g =>
    simp only [Scheduler.runStep, hpc] at hs
    split_ifs at hs <;> cases hs <;> exact h.goto rfl fun _ => rfl
  | ready kind g =>
    have hact : (s.threads t).pc.active := by rw [hpc]; rfl
    simp only [Scheduler.runStep, hpc] at hs
    cases hs
    exact (h.scheduleOwn htickle hact [some (.fiber g)]).turn (t := t) rfl
      (fun _ hd => by cases hd) (fun _ => rfl) id rfl rfl rfl rfl
  | testFinished kind g =>
    simp only [Scheduler.runStep, hpc] at hs
    split_ifs at hs <;> cases hs <;> exact h.goto rfl fun _ => rfl
  | hold kind g =>
    simp only [Attended, hpc] at hok
    simp only [Scheduler.runStep, hpc] at hs
    cases hs
    exact h.store rfl (fun _ hd => by cases hd) (fun _ => rfl) id rfl (fun _ _ => hok htickle)
      rfl rfl rfl
  | clear g =>
    simp only [Scheduler.runStep, hpc] at hs
    obtain ⟨s₁, hreset, rfl⟩ := Option.map_eq_some_iff.mp hs
    exact h.reset hreset rfl fun _ => rfl

/-- **A step that meets `Attended` loses no wakeup.** -/
theorem Wakeful.step {c c' : Scheduler × (ℕ → ℕ → Prop)} {a : Action} (h : c.1.Wakeful c.2)
    (hinv : c.1.Inv) (hok : c.1.Attended c.2 a) (hs : watched.step c a = some c') :
    c'.1.Wakeful c'.2 := by
  obtain ⟨s, e⟩ := c
  obtain ⟨s', e'⟩ := c'
  obtain ⟨hs, rfl⟩ := Machine.observe_step.mp hs
  simp only [machine] at h hinv hok hs ⊢
  cases a with
  | start t =>
    simp only [Scheduler.step] at hs
    split_ifs at hs with hpc
    cases hs
    exact h.store (t := t) rfl (fun _ hd => by cases hd)
      (fun ha => by rw [hpc.1] at ha; cases ha) id rfl (fun _ _ => hinv.released_created)
      rfl rfl rfl
  | newFiber t =>
    simp only [Scheduler.step] at hs
    split_ifs at hs
    cases hs
    exact h.store (t := t) (Function.update_eq_self ..).symm (fun _ => id) id id rfl
      (fun _ _ => hinv.released_created) rfl rfl rfl
  | schedule t tasks =>
    simp only [Scheduler.step] at hs
    split_ifs at hs with hfree
    cases hs
    exact h.schedule (Thread.tickle_of_free hfree.1) hok
  | addTimer t ms cb recurring addr =>
    simp only [Scheduler.step] at hs
    split_ifs at hs with hfree
    obtain ⟨r, hr, rfl⟩ := Option.map_eq_some_iff.mp hs
    have hwrite : ∀ tickle, (s.threads t).tickle = .write → tickle = Tickle.write :=
      fun _ hw => by rw [Thread.tickle_of_free hfree] at hw; cases hw
    obtain ⟨-, hadd⟩ := TimerManager.addTimer_spec hinv.timers hr
    refine h.move (t := t) rfl (fun _ => id) .inl (fun hw => .inl (hwrite _ hw)) (Nat.le_refl _)
      (fun ft hft hexec => .inl ⟨hft, hexec⟩) fun t' i he hi => ?_
    -- a new early timer has signalled the thread; the old ones are as before
    simp only [early] at he
    split_ifs at he with hnew
    · exact .inr ((hok he.1 t' he.2).move rfl (fun hw => .inl (hwrite _ hw)) (Nat.le_refl _))
    · exact .inl ⟨he, ((hadd.mem i).mp hi).resolve_left hnew⟩
  | cancel t i =>
    simp only [Scheduler.step] at hs
    split_ifs at hs
    obtain ⟨r, hr, rfl⟩ := Option.map_eq_some_iff.mp hs
    exact ⟨h.tasks, fun t' i he hi => h.timers t' i he (mem_of_cancel hinv.timers hr hi)⟩
  | stop t =>
    simp only [Scheduler.step] at hs
    split_ifs at hs
    cases hs
    exact ⟨h.tasks, h.timers⟩
  | tickle t =>
    simp only [Scheduler.step] at hs
    split_ifs at hs with hfree
    cases hs
    exact h.turn rfl (fun _ => id) id
      (fun hw => by rw [Thread.tickle_of_free hfree] at hw; cases hw) rfl rfl rfl rfl
  | step t =>
    simp only [Scheduler.step] at hs
    split_ifs at hs with htickle
    · exact h.runStep hinv hok htickle hs
    · exact h.tickleStep hs
  | yield t state =>
    simp only [Scheduler.step] at hs
    split at hs
    · rename_i kind f hpc
      split_ifs at hs with hstate
      cases hs
      exact h.store rfl (fun _ hd => by cases hd)
        (fun _ => rfl) id rfl (fun _ _ => hok kind f hpc) rfl rfl rfl
    · cases hs
  | wake t interrupted =>
    simp only [Scheduler.step] at hs
    split at hs
    · rename_i next _ f hpc
      cases hs
      -- the thread is not blocked any more
      have hblocked :
          (Pc.idle (if interrupted then .wait next else .expire) f).blocked? = none := by
        cases interrupted <;> rfl
      have hgo := h.goto (t := t) hblocked fun ha => by rw [hpc] at ha; cases ha
      exact ⟨hgo.tasks, fun t' i he hi => hgo.timers t' i he.2 hi⟩
    · cases hs
  | listExpiredCb t probe =>
    simp only [Scheduler.step] at hs
    split at hs
    · rename_i hpc
      obtain ⟨r, hr, rfl⟩ := Option.map_eq_some_iff.mp hs
      obtain ⟨m', hm', hl⟩ := TimerManager.listExpiredCb_spec hinv.timers.toOrdered s.now probe
      obtain rfl := Option.some.inj (hm'.symm.trans hr)
      exact h.move (t := t) rfl (fun _ hd => by cases hd) (fun _ => .inl rfl) .inl (Nat.le_refl _)
        (fun ft hft hexec => .inl ⟨hft, hexec⟩)
        fun t' i he hi => .inl ⟨he.2, ((hl.mem i).mp hi).1⟩
    · cases hs
  | drain t =>
    simp only [Scheduler.step] at hs
    split_ifs at hs
    cases hs
    -- the bytes go, and what they stood for has to be served otherwise
    refine ⟨fun ft hft t' hb hrun => ?_, fun t' i he hi => .inr (hok.2 t' i he hi)⟩
    exact (hok.1 ft hft t' hb hrun).imp_right .inr
  | trigger t task =>
    simp only [Scheduler.step] at hs
    split_ifs at hs with hat
    cases hs
    obtain ⟨htickle, hact⟩ := Thread.active_of_atEvents hat.1
    exact h.scheduleOwn htickle hact [some task]
  | events n =>
    cases hs
    exact ⟨h.tasks, h.timers⟩
  | clock n =>
    cases hs
    exact ⟨h.tasks, h.timers⟩

/-! ## Runs -/

end Scheduler

end Sylar

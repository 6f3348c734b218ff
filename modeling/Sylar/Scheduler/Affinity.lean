import Sylar.Scheduler.Steps

/-!
# Tasks that ask for a thread

The thread that a task asks for stands in its entry of the queue and not in the fiber. An entry for
a thread is taken by that thread; but `run` puts a `READY` fiber back, and an event schedules its
fiber, with an entry for no thread, and any thread may resume the fiber then.

## Main definitions

* `Pins`, `pinned`: the thread that a fiber was scheduled for
* `OnItsThread`: a scan takes a fiber that was dispatched for a thread on that thread
* `Kept`: a step makes no entry for another thread of such a fiber

## Main results

* `Aligned.step`: a step that is `Kept` leaves a fiber no entry for another thread
* `onItsThread_of_kept`: the fibers of a run whose steps are `Kept` stay on their threads
-/

namespace Sylar

open Foundation

namespace Scheduler

variable {s s' : Scheduler} {t t' f : ℕ} {a : Action} {ft : FiberAndThread}

/-! ## The history -/

/-- The threads that fibers were scheduled for. -/
structure Pins where
  /-- The thread argument of the last `schedule` of the fiber, until it terminates. -/
  pin : ℕ → Option ℕ
  /-- The fiber was dispatched since. -/
  dispatched : ℕ → Bool
  /-- The entry that the thread's last scan took. -/
  entry : ℕ → Option FiberAndThread

namespace Pins

def new : Pins where
  pin := fun _ => none
  dispatched := fun _ => false
  entry := fun _ => none

def set (p : Pins) (f : ℕ) (thread : Option ℕ) (dispatched : Bool) : Pins :=
  { p with
    pin := Function.update p.pin f thread
    dispatched := Function.update p.dispatched f dispatched }

/-- `schedule` is called with a task and a thread: with the thread that a fiber has nothing changes,
with another one the fiber waits for its first dispatch there. -/
def ask (p : Pins) : Option Task × Option ℕ → Pins
  | (some (.fiber f), thread) => if p.pin f = thread then p else p.set f thread false
  | _ => p

/-- The fiber that the entry dispatches for the thread that the fiber was scheduled for. -/
def binds (p : Pins) (ft : FiberAndThread) : Option ℕ :=
  match ft.task with
  | .fiber f => if ft.thread.isSome ∧ p.pin f = ft.thread then some f else none
  | .cb _ => none

/-- A scan on thread `t` takes an entry. -/
def scanned (p : Pins) (t : ℕ) (next : Option FiberAndThread) : Pins :=
  { p with
    entry := Function.update p.entry t next
    dispatched := match next.bind p.binds with
      | some f => Function.update p.dispatched f true
      | none => p.dispatched }

/-- The fiber was dispatched for thread `u`, and neither terminated nor was scheduled for another
thread since. -/
def On (p : Pins) (f u : ℕ) : Prop := p.dispatched f = true ∧ p.pin f = some u

end Pins

/-- The entry that a scan on thread `t` takes. -/
def next (s : Scheduler) (t : ℕ) : Option FiberAndThread := s.queue.find? (eligible s.fibers t)

/-- The fiber that thread `t` makes, or makes again, for a callback. -/
def callee (s : Scheduler) (t : ℕ) : ℕ := (s.threads t).cb_fiber.getD s.created

/-- The history after a step. -/
def pins (s : Scheduler) (a : Action) (p : Pins) : Pins :=
  match a with
  | .schedule _ tasks => tasks.foldl Pins.ask p
  | .start _ | .newFiber _ => p.set s.created none false
  | .yield t state =>
    match (s.threads t).pc with
    | .running _ f => if state.finished then p.set f none false else p
    | _ => p
  | .step t =>
    if (s.threads t).tickle = .none then
      match (s.threads t).pc with
      | .scan => p.scanned t (s.next t)
      -- the fiber of a callback is dispatched for the thread of the callback's entry
      | .dispatch (some (.cb _)) => p.set (s.callee t) ((p.entry t).bind (·.thread)) true
      | _ => p
    else p
  | _ => p

/-- The machine with the history. -/
def pinned : Machine (Scheduler × Pins) Action := machine.observe pins

/-- **A task is resumed on its thread**: an entry for a thread is taken by that thread, and a fiber
that was dispatched for a thread is taken by that thread, whatever entry it has. -/
def OnItsThread (c : Scheduler × Pins) (a : Action) : Prop :=
  ∀ t, c.1.scanner a = some t → ∀ ft ∈ c.1.next t,
    (∀ u, ft.thread = some u → t = u) ∧
      ∀ f u, ft.task = .fiber f → c.2.On f u → t = u

/-- **A step makes no entry for another thread**: `run` puts back, and an event schedules, no fiber
that was dispatched for a thread; and a fiber is dispatched for a thread only when the queue has no
entry of it for another thread or for none. -/
def Kept (c : Scheduler × Pins) : Action → Prop
  | .step t => (c.1.threads t).tickle = .none →
    match (c.1.threads t).pc with
    | .scan => ∀ ft ∈ c.1.next t, ∀ f ∈ c.2.binds ft, ∀ ft' ∈ c.1.left (.step t),
      ft'.task = .fiber f → ft'.thread = ft.thread
    | .dispatch (some (.cb _)) => ∀ ft ∈ c.2.entry t, ∀ u, ft.thread = some u →
      ∀ ft' ∈ c.1.queue, ft'.task = .fiber (c.1.callee t) → ft'.thread = some u
    | .ready _ f => ∀ u, ¬ c.2.On f u
    | _ => True
  | .trigger _ task => ∀ f, task = .fiber f → ∀ u, ¬ c.2.On f u
  | _ => True

/-! ## Entries -/

/-- The entries of a fiber that was dispatched for a thread are for that thread. -/
def Aligned (queue : List FiberAndThread) (p : Pins) : Prop :=
  ∀ f u, p.On f u → ∀ ft ∈ queue, ft.task = .fiber f → ft.thread = some u

variable {queue queue' : List FiberAndThread} {p p' : Pins}

theorem Aligned.mono (h : Aligned queue p) (hqueue : ∀ ft ∈ queue', ft ∈ queue)
    (hon : ∀ f u, p'.On f u → p.On f u) : Aligned queue' p' :=
  fun f u hf ft hft => h f u (hon f u hf) ft (hqueue ft hft)

/-- A fiber gets a thread and waits for its dispatch, or loses it. -/
theorem Aligned.set (h : Aligned queue p) {thread : Option ℕ} :
    Aligned queue (p.set f thread false) := by
  intro g u ⟨hdispatched, hpin⟩
  simp only [Pins.set] at hdispatched hpin
  rcases eq_or_ne g f with rfl | hne
  · rw [Function.update_self] at hdispatched
    cases hdispatched
  · rw [Function.update_of_ne hne] at hdispatched hpin
    exact h g u ⟨hdispatched, hpin⟩

theorem Aligned.append (h : Aligned queue p)
    (hnew : ∀ f u, p.On f u → ∀ ft ∈ queue', ft.task = .fiber f → ft.thread = some u) :
    Aligned (queue ++ queue') p := by
  intro f u hf ft hft
  rcases List.mem_append.mp hft with hft | hft
  · exact h f u hf ft hft
  · exact hnew f u hf ft hft

/-- A task is scheduled with a thread argument. -/
theorem Aligned.ask (h : Aligned queue p) (x : Option Task × Option ℕ) :
    Aligned (queue ++ entriesOf [x]) (p.ask x) := by
  obtain ⟨task, thread⟩ := x
  rcases task with _ | (f | c)
  · exact (List.append_nil queue).symm ▸ h
  · have hmem : ∀ ft ∈ entriesOf [(some (.fiber f), thread)],
        ft = { task := .fiber f, thread := thread } := fun ft hft => List.mem_singleton.mp hft
    simp only [Pins.ask]
    split_ifs with hpin
    · refine h.append fun g u hg ft hft htask => ?_
      obtain rfl := hmem ft hft
      cases htask
      exact hpin.symm.trans hg.2
    · refine h.set.append fun g u hg ft hft htask => ?_
      obtain rfl := hmem ft hft
      cases htask
      have hdispatched := hg.1
      simp only [Pins.set, Function.update_self] at hdispatched
      cases hdispatched
  · refine h.append fun g u _ ft hft htask => ?_
    obtain rfl : ft = { task := .cb c, thread := thread } := List.mem_singleton.mp hft
    cases htask

theorem Aligned.asks (h : Aligned queue p) (tasks : List (Option Task × Option ℕ)) :
    Aligned (queue ++ entriesOf tasks) (tasks.foldl Pins.ask p) := by
  induction tasks generalizing queue p with
  | nil => exact (List.append_nil queue).symm ▸ h
  | cons x tasks ih =>
    have hcons : entriesOf (x :: tasks) = entriesOf [x] ++ entriesOf tasks :=
      List.filterMap_append (l := [x])
    rw [hcons, ← List.append_assoc]
    exact ih (h.ask x)

/-! ## Steps -/

theorem mem_left (h : ft ∈ s.left a) : ft ∈ s.queue := by
  unfold left at h
  split at h
  · exact List.mem_of_mem_eraseP h
  · exact h

/-- A scan dispatches the fiber of the entry that it takes. -/
theorem Aligned.scan (h : Aligned s.queue p) (htickle : (s.threads t).tickle = .none)
    (hpc : (s.threads t).pc = .scan) (hok : Kept (s, p) (.step t)) :
    Aligned (s.left (.step t)) (p.scanned t (s.next t)) := by
  have hkept := hok htickle
  simp only [hpc] at hkept
  intro f u ⟨hdispatched, hpin⟩ ft hft htask
  simp only [Pins.scanned] at hdispatched hpin
  cases hbinds : (s.next t).bind p.binds with
  | none =>
    rw [hbinds] at hdispatched
    exact h f u ⟨hdispatched, hpin⟩ ft (mem_left hft) htask
  | some g =>
    rw [hbinds] at hdispatched
    rcases eq_or_ne f g with rfl | hne
    · obtain ⟨ft₀, hnext, hbound⟩ := Option.bind_eq_some_iff.mp hbinds
      rw [hkept ft₀ hnext f hbound ft hft htask]
      unfold Pins.binds at hbound
      split at hbound
      · split_ifs at hbound with hboth
        cases hbound
        exact hboth.2.symm.trans hpin
      · cases hbound
    · simp only [Function.update_of_ne hne] at hdispatched
      exact h f u ⟨hdispatched, hpin⟩ ft (mem_left hft) htask

/-- A callback is handed to a fiber. -/
theorem Aligned.call (h : Aligned s.queue p) (htickle : (s.threads t).tickle = .none) {c : ℕ}
    (hpc : (s.threads t).pc = .dispatch (some (.cb c))) (hok : Kept (s, p) (.step t)) :
    Aligned s.queue (p.set (s.callee t) ((p.entry t).bind (·.thread)) true) := by
  have hkept := hok htickle
  simp only [hpc] at hkept
  intro f u ⟨hdispatched, hpin⟩ ft hft htask
  simp only [Pins.set] at hdispatched hpin
  rcases eq_or_ne f (s.callee t) with rfl | hne
  · rw [Function.update_self] at hpin
    obtain ⟨ft₀, hentry, hthread⟩ := Option.bind_eq_some_iff.mp hpin
    exact hkept ft₀ hentry u hthread ft hft htask
  · rw [Function.update_of_ne hne] at hdispatched hpin
    exact h f u ⟨hdispatched, hpin⟩ ft hft htask

/-- **A step leaves a fiber that was dispatched for a thread no entry for another one.** -/
theorem Aligned.step (h : Aligned s.queue p) (hok : Kept (s, p) a)
    (hs : machine.step s a = some s') : Aligned s'.queue (s.pins a p) := by
  rw [queue_step hs]
  have hquiet : s.left a = s.queue → s.puts a = [] →
      Aligned (s.left a ++ entriesOf (s.puts a)) p := by
    intro hleft hputs
    rw [hleft, hputs]
    exact (List.append_nil s.queue).symm ▸ h
  cases a with
  | step t =>
    by_cases htickle : (s.threads t).tickle = .none
    · have hputs := puts_step htickle
      rw [pins, if_pos htickle]
      cases hpc : (s.threads t).pc with
      | scan =>
        simp only [hpc] at hputs
        rw [hputs]
        exact (List.append_nil (s.left (.step t))).symm ▸ h.scan htickle hpc hok
      | dispatch task =>
        simp only [hpc] at hputs
        have hleft := left_step (s := s) (t := t) (by simp [hpc])
        rcases task with _ | (g | c)
        · exact hquiet hleft hputs
        · exact hquiet hleft hputs
        · rw [hleft, hputs]
          exact (List.append_nil s.queue).symm ▸ h.call htickle hpc hok
      -- the fiber is queued again for any thread, so nobody may have asked for it
      | ready kind g =>
        have hkept := hok htickle
        simp only [hpc] at hputs hkept
        rw [left_step (by simp [hpc]), hputs]
        refine h.append fun f u hf ft hft htask => ?_
        obtain rfl : ft = { task := .fiber g, thread := none } := List.mem_singleton.mp hft
        cases htask
        exact absurd hf (hkept u)
      | idle stage g =>
        have hleft := left_step (s := s) (t := t) (by simp [hpc])
        cases stage with
        -- callbacks of timers are no fibers
        | cbs cbs =>
          simp only [hpc] at hputs
          rw [hleft, hputs]
          refine h.append fun f u _ ft hft htask => ?_
          obtain ⟨cb, -, hcb⟩ := List.mem_map.mp (mem_entriesOf.mp hft)
          rw [htask] at hcb
          cases cb <;> cases hcb
        | _ =>
          simp only [hpc] at hputs
          exact hquiet hleft hputs
      | _ =>
        simp only [hpc] at hputs
        exact hquiet (left_step (by simp [hpc])) hputs
    · rw [pins, if_neg htickle]
      refine hquiet ?_ (if_neg htickle)
      rw [left, scanner, if_neg fun h => htickle h.1]
  | schedule t tasks => exact h.asks tasks
  -- the fiber of an event goes to any thread as well
  | trigger t task =>
    refine h.append fun f u hf ft hft htask => ?_
    obtain rfl : ft = { task := task, thread := none } := List.mem_singleton.mp hft
    exact absurd hf (hok f htask u)
  | start t | newFiber t => exact (List.append_nil s.queue).symm ▸ h.set
  | yield t state =>
    rw [pins]
    have hnil : Aligned (s.left (.yield t state) ++ entriesOf (s.puts (.yield t state))) p :=
      hquiet rfl rfl
    split
    · split_ifs
      · exact hnil.set
      · exact hnil
    · exact hnil
  | _ => exact hquiet rfl rfl

/-! ## Runs -/

/-- **A scan takes a fiber on its thread**, if the entries of the fiber are for that thread. -/
theorem Aligned.onItsThread (h : Aligned s.queue p) (a : Action) : OnItsThread (s, p) a := by
  intro t _ ft hft
  obtain ⟨heligible, hmem⟩ := And.intro (List.find?_some hft) (List.mem_of_find?_eq_some hft)
  have hthread : ∀ u, ft.thread = some u → t = u := by
    intro u hu
    have hhere : ft.elsewhere t = false := by
      simp only [eligible, Bool.and_eq_true, Bool.not_eq_true'] at heligible
      exact heligible.1
    rw [FiberAndThread.elsewhere, hu, Option.isSome_some, Bool.true_and,
      bne_eq_false_iff_eq] at hhere
    exact (Option.some.inj hhere).symm
  refine ⟨hthread, fun f u htask hf => hthread u ?_⟩
  exact h f u hf ft hmem htask

/-- **Fibers stay on their threads** in a run whose steps make no entry for another thread. -/
theorem onItsThread_of_kept {now : ℕ} {as : List Action}
    (hok : pinned.Meets Kept (new now, .new) as) : pinned.Meets OnItsThread (new now, .new) as := by
  refine Machine.meets_of_keeps (I := fun c => Aligned c.1.queue c.2) (fun c a c' hc hok hs => ?_)
    (fun c a hc => hc.onItsThread a) (fun _ _ hf => by cases hf.1) hok
  obtain ⟨hstep, hpins⟩ := Machine.observe_step.mp hs
  rw [hpins]
  exact hc.step hok hstep

/-- A fiber that is scheduled for thread 0 and yields `HOLD`. -/
def heldRun : List Action :=
  [.start 0, .newFiber 2, .schedule 2 [(some (.fiber 1), some 0)], .step 0, .step 0, .step 0,
    .step 0, .yield 0 .hold]

theorem onItsThread_of_kept_held : pinned.Meets OnItsThread (new 0, .new) heldRun := by
  refine onItsThread_of_kept ?_
  refine (Machine.meets_cons rfl).mpr ⟨trivial, (Machine.meets_cons rfl).mpr ⟨trivial,
    (Machine.meets_cons rfl).mpr ⟨trivial, (Machine.meets_cons rfl).mpr ⟨?_,
      (Machine.meets_cons rfl).mpr ⟨fun _ => trivial,
        (Machine.meets_cons rfl).mpr ⟨fun _ => trivial,
          (Machine.meets_cons rfl).mpr ⟨fun _ => trivial, (Machine.meets_cons rfl).mpr
            ⟨trivial, trivial⟩⟩⟩⟩⟩⟩⟩⟩
  intro _ ft _ f _ ft' hft'
  cases hft'

/-- **A fiber that leaves its thread**: it is scheduled for thread 0, dispatched there and yields
`READY`; `run` puts it back for no thread, and thread 1 takes it. -/
theorem fiber_leaves_thread : ∃ c, pinned.run (new 0, .new) [.start 0, .start 1, .newFiber 2,
      .schedule 2 [(some (.fiber 2), some 0)], .step 0, .step 0, .step 0, .step 0,
      .yield 0 .ready, .step 0, .step 0, .step 0, .step 0] = some c ∧
    c.1.scanner (.step 1) = some 1 ∧ c.1.next 1 = some { task := .fiber 2, thread := none } ∧
    c.2.On 2 0 ∧ ¬ OnItsThread c (.step 1) := by
  refine ⟨_, rfl, rfl, rfl, ⟨rfl, rfl⟩, fun h => ?_⟩
  exact absurd ((h 1 rfl _ rfl).2 2 0 rfl ⟨rfl, rfl⟩) (by decide)

end Scheduler

end Sylar

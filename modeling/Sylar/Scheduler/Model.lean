import Sylar.Timer.Model

/-!
# The scheduler of an IO manager

Threads take tasks from one queue and run them: a fiber by switching to its context, a callback
on a fiber that the thread keeps for callbacks. A thread without a task switches to its idle
fiber, which waits in `epoll_wait` for input, for the next timer, or for a byte in the tickle
pipe. The sections under the queue's mutex, the loads and stores of a fiber's state, the switches
of context and the atomic counters are separate steps; the steps of all threads interleave.

Fibers are heap objects, numbered in the order of their creation. A fiber is `saved` when its last
`swapOut` has completed, or it has not run since `makecontext`. A thread is outside the scheduler
until it enters `run`; threads outside, and fibers while they run, call `schedule` and `addTimer`
as they like. A failed assertion leads nowhere.

## Main definitions

* `Fiber`, `Task`, `Thread`, `Scheduler`: fibers, the queue's tasks, threads and the state
* `scheduleAll`, `scan`: the sections under the queue's mutex
* `tickleStep`, `idleStep`, `runStep`: the steps of `tickle`, `idle` and `run`
* `Action`, `step`, `machine`: the interleaved steps of the threads
-/

namespace Sylar

open Foundation

/-- The state of a fiber. -/
inductive Fiber.State
  | init
  | hold
  | exec
  | term
  | ready
  | except
  deriving DecidableEq, Repr

/-- `TERM` or `EXCEPT`. -/
def Fiber.State.finished : Fiber.State → Bool
  | .term | .except => true
  | _ => false

structure Fiber where
  state : Fiber.State := .init
  saved : Bool := true
  deriving DecidableEq, Repr

namespace Scheduler

/-- A fiber or a callback. -/
inductive Task
  | fiber (f : ℕ)
  | cb (c : ℕ)
  deriving DecidableEq, Repr

/-- An entry of the queue; `thread` is the thread it has to run on, if any. -/
structure FiberAndThread where
  task : Task
  thread : Option ℕ := none
  deriving DecidableEq, Repr

/-- What a thread switches to: a fiber of the queue, its fiber for callbacks, or its idle fiber. -/
inductive Kind
  | fiber
  | cb
  | idle
  deriving DecidableEq, Repr

/-- A call of `tickle`: before the test for idle threads, or before the write. -/
inductive Tickle
  | none
  | test
  | write
  deriving DecidableEq, Repr

/-- Where the idle fiber is in `idle`. -/
inductive Stage
  /-- Before `getNextTimer`. -/
  | top
  /-- `stopping`: before the look at the pending events. -/
  | pending (next_timeout : ℕ)
  /-- `stopping`: before the look at the queue. -/
  | queue (next_timeout : ℕ)
  /-- Before `epoll_wait`. -/
  | wait (next_timeout : ℕ)
  /-- In `epoll_wait`, which returns at the deadline if there is one. -/
  | blocked (next_timeout : ℕ) (deadline : Option ℕ)
  /-- Before `listExpiredCb`. -/
  | expire
  /-- Before the callbacks are scheduled. -/
  | cbs (cbs : List (Option ℕ))
  /-- At the events. -/
  | events
  /-- Before `swapOut`. -/
  | out
  /-- After the loop. -/
  | finish
  deriving DecidableEq, Repr

/-- Where a thread is. -/
inductive Pc
  | outside
  /-- Before the section that looks for a task. -/
  | scan
  /-- Before the choice what to run. -/
  | dispatch (task : Option Task)
  /-- Before the store of `EXEC` in `swapIn`. -/
  | enter (kind : Kind) (f : ℕ)
  /-- Before the switch to the fiber. -/
  | load (kind : Kind) (f : ℕ)
  | running (kind : Kind) (f : ℕ)
  | idle (stage : Stage) (f : ℕ)
  /-- Before the switch from the fiber in `swapOut`. -/
  | saving (kind : Kind) (f : ℕ)
  /-- `swapIn` has returned. -/
  | returned (kind : Kind) (f : ℕ)
  /-- Before the test for `READY`. -/
  | testReady (kind : Kind) (f : ℕ)
  /-- Before the fiber is scheduled again. -/
  | ready (kind : Kind) (f : ℕ)
  /-- Before the test for `TERM` and `EXCEPT`. -/
  | testFinished (kind : Kind) (f : ℕ)
  /-- Before the store of `HOLD`. -/
  | hold (kind : Kind) (f : ℕ)
  /-- Before `cb_fiber->reset(nullptr)`. -/
  | clear (f : ℕ)
  | stopped
  deriving DecidableEq, Repr

/-- A thread, with the locals of `run` and the call of `tickle` it is in. -/
structure Thread where
  pc : Pc := .outside
  tickle : Tickle := .none
  cb_fiber : Option ℕ := none
  idle_fiber : Option ℕ := none
  deriving DecidableEq, Repr

end Scheduler

open Scheduler in
structure Scheduler where
  fibers : ℕ → Fiber
  /-- The number of fibers created. -/
  created : ℕ
  /-- `m_fibers`. -/
  queue : List FiberAndThread
  activeThreadCount : ℕ
  idleThreadCount : ℕ
  stopping : Bool
  autoStop : Bool
  pendingEventCount : ℕ
  timers : TimerManager ℕ
  /-- The bytes in the tickle pipe. -/
  pipe : ℕ
  now : ℕ
  threads : ℕ → Thread

namespace Scheduler

/-- The scheduler, started, before any thread has entered `run`. -/
def new (now : ℕ) : Scheduler where
  fibers := fun _ => {}
  created := 0
  queue := []
  activeThreadCount := 0
  idleThreadCount := 0
  stopping := false
  autoStop := false
  pendingEventCount := 0
  timers := .new now
  pipe := 0
  now := now
  threads := fun _ => {}

def put (s : Scheduler) (t : ℕ) (thread : Thread) : Scheduler :=
  { s with threads := Function.update s.threads t thread }

def goto (s : Scheduler) (t : ℕ) (pc : Pc) : Scheduler := s.put t { s.threads t with pc := pc }

def setFiber (s : Scheduler) (f : ℕ) (fiber : Fiber) : Scheduler :=
  { s with fibers := Function.update s.fibers f fiber }

def setState (s : Scheduler) (f : ℕ) (state : Fiber.State) : Scheduler :=
  s.setFiber f { s.fibers f with state := state }

/-- `new Fiber`. -/
def newFiber (s : Scheduler) : Scheduler :=
  { s.setFiber s.created {} with created := s.created + 1 }

/-- `Fiber::reset`, on a fiber that has finished or not run. -/
def resetFiber (s : Scheduler) (f : ℕ) : Option Scheduler :=
  if (s.fibers f).state.finished ∨ (s.fibers f).state = .init then some (s.setFiber f {}) else none

theorem eq_of_resetFiber {s s' : Scheduler} {f : ℕ} (h : s.resetFiber f = some s') :
    ((s.fibers f).state.finished ∨ (s.fibers f).state = .init) ∧ s' = s.setFiber f {} := by
  unfold resetFiber at h
  split_ifs at h with hstate
  exact ⟨hstate, (Option.some.inj h).symm⟩

/-! ## The queue -/

/-- `scheduleNoLock`: whether the queue was empty, and the queue after it. -/
def scheduleNoLock (queue : List FiberAndThread) (task : Option Task) (thread : Option ℕ) :
    Bool × List FiberAndThread :=
  (queue.isEmpty, match task with
    -- neither a fiber nor a callback: nothing is queued
    | none => queue
    | some task => queue ++ [{ task := task, thread := thread }])

/-- The section of `schedule`, for one task or several. -/
def scheduleAll (queue : List FiberAndThread) :
    List (Option Task × Option ℕ) → Bool × List FiberAndThread
  | [] => (false, queue)
  | (task, thread) :: rest =>
    let r := scheduleNoLock queue task thread
    let r' := scheduleAll r.2 rest
    (r'.1 || r.1, r'.2)

/-- `schedule`, up to its call of `tickle`. -/
def schedule (s : Scheduler) (t : ℕ) (tasks : List (Option Task × Option ℕ)) : Scheduler :=
  let r := scheduleAll s.queue tasks
  { s with queue := r.2 }.put t { s.threads t with tickle := if r.1 then .test else .none }

/-- The entry has to run on another thread. -/
def FiberAndThread.elsewhere (ft : FiberAndThread) (t : ℕ) : Bool :=
  ft.thread.isSome && ft.thread != some t

/-- The entry is a fiber that runs. -/
def FiberAndThread.executing (ft : FiberAndThread) (fibers : ℕ → Fiber) : Bool :=
  match ft.task with
  | .fiber f => (fibers f).state = .exec
  | .cb _ => false

/-- The section of `run` on thread `t`: the task it takes, `tickle_me`, and the queue after it. -/
def scan (fibers : ℕ → Fiber) (t : ℕ) :
    List FiberAndThread → Option Task × Bool × List FiberAndThread
  | [] => (none, false, [])
  | ft :: rest =>
    -- for another thread: passed over, and a tickle is owed
    if ft.elsewhere t then
      let r := scan fibers t rest
      (r.1, true, ft :: r.2.2)
    -- still running on some thread: passed over, with no tickle
    else if ft.executing fibers then
      let r := scan fibers t rest
      (r.1, r.2.1, ft :: r.2.2)
    else
      (some ft.task, false, rest)

/-! ## The steps of a thread -/

/-- A step of `tickle`. -/
def tickleStep (s : Scheduler) (t : ℕ) : Option Scheduler :=
  match (s.threads t).tickle with
  | .none => none
  | .test =>
    -- `hasIdleThreads` returns before the write to the pipe
    if 0 < s.idleThreadCount then some (s.put t { s.threads t with tickle := .none })
    else some (s.put t { s.threads t with tickle := .write })
  | .write => some ({ s with pipe := s.pipe + 1 }.put t { s.threads t with tickle := .none })

/-- The conversion to `int`. -/
def toInt (n : ℕ) : Int := Int.bmod n (2 ^ 32)

/-- The timeout that `idle` passes to `epoll_wait`. -/
def epollTimeout (next_timeout : ℕ) : Int :=
  let MAX_TIMEOUT : ℕ := 5000
  let next_timeout :=
    if next_timeout ≠ 2 ^ 64 - 1 then
      -- the comparison is one of `int`, so that a large timeout may be negative here
      if MAX_TIMEOUT < toInt next_timeout then MAX_TIMEOUT else next_timeout
    else MAX_TIMEOUT
  toInt next_timeout

/-- A step of `idle`, except where it is in `epoll_wait`, at `listExpiredCb` or at an event. -/
def idleStep (s : Scheduler) (t f : ℕ) : Stage → Option Scheduler
  | .top =>
    let r := s.timers.getNextTimer s.now
    some ({ s with timers := r.2 }.goto t (.idle (.pending r.1) f))
  -- `stopping` reads the pending events and the queue in two steps: others may act in between
  | .pending next =>
    if s.pendingEventCount = 0 ∧ next = 2 ^ 64 - 1 then some (s.goto t (.idle (.queue next) f))
    else some (s.goto t (.idle (.wait next) f))
  | .queue next =>
    if s.autoStop ∧ s.stopping ∧ s.queue.isEmpty ∧ s.activeThreadCount = 0 then
      some (s.goto t (.idle .finish f))
    else some (s.goto t (.idle (.wait next) f))
  | .wait next =>
    let timeout := epollTimeout next
    let deadline := if timeout < 0 then none else some (s.now + timeout.toNat)
    some (s.goto t (.idle (.blocked next deadline) f))
  | .cbs cbs =>
    let s' := if cbs.isEmpty then s else s.schedule t (cbs.map fun cb => (cb.map .cb, none))
    some (s'.goto t (.idle .events f))
  | .events => some (s.goto t (.idle .out f))
  | .out => some (s.goto t (.saving .idle f))
  -- the function of the idle fiber ends
  | .finish => some ((s.setState f .term).goto t (.saving .idle f))
  | .blocked .. | .expire => none

/-- A step of `run`, or of the switches it makes. -/
def runStep (s : Scheduler) (t : ℕ) : Option Scheduler :=
  let thread := s.threads t
  match thread.pc with
  | .scan =>
    let r := Scheduler.scan s.fibers t s.queue
    some ({ s with
      queue := r.2.2
      activeThreadCount := s.activeThreadCount + if r.1.isSome then 1 else 0 }.put t
      { thread with pc := .dispatch r.1, tickle := if r.2.1 then .test else .none })
  | .dispatch (some (.fiber f)) =>
    -- it finished while it was queued: `is_active` gives the count back
    if (s.fibers f).state.finished then
      some ({ s with activeThreadCount := s.activeThreadCount - 1 }.goto t .scan)
    else some (s.goto t (.enter .fiber f))
  | .dispatch (some (.cb _)) =>
    match thread.cb_fiber with
    -- the fiber of the last callback is used again
    | some f => (s.resetFiber f).map fun s => s.goto t (.enter .cb f)
    | none => some (s.newFiber.put t
        { thread with cb_fiber := some s.created, pc := .enter .cb s.created })
  | .dispatch none =>
    match thread.idle_fiber with
    | none => none
    | some f =>
      if (s.fibers f).state = .term then some (s.goto t .stopped)
      else some ({ s with idleThreadCount := s.idleThreadCount + 1 }.goto t (.enter .idle f))
  | .enter kind f =>
    -- the assertion of `swapIn`
    if (s.fibers f).state = .exec then none
    else some ((s.setFiber f { state := .exec, saved := false }).goto t (.load kind f))
  | .load .idle f => some (s.goto t (.idle .top f))
  | .load kind f => some (s.goto t (.running kind f))
  | .idle stage f => s.idleStep t f stage
  | .saving kind f =>
    some ((s.setFiber f { s.fibers f with saved := true }).goto t (.returned kind f))
  | .returned .idle f =>
    some ({ s with idleThreadCount := s.idleThreadCount - 1 }.goto t (.testFinished .idle f))
  | .returned kind f =>
    some ({ s with activeThreadCount := s.activeThreadCount - 1 }.goto t (.testReady kind f))
  | .testReady kind f =>
    if (s.fibers f).state = .ready then some (s.goto t (.ready kind f))
    else some (s.goto t (.testFinished kind f))
  | .ready kind f =>
    let s := s.schedule t [(some (.fiber f), none)]
    let thread := s.threads t
    some (s.put t { thread with
      pc := .scan
      -- a callback that yields keeps its fiber, and the thread takes a new one next time
      cb_fiber := if kind = .cb then none else thread.cb_fiber })
  | .testFinished kind f =>
    -- a callback's fiber is emptied for the next one
    if (s.fibers f).state.finished then
      some (s.goto t (if kind = .cb then .clear f else .scan))
    else some (s.goto t (.hold kind f))
  | .hold kind f =>
    some ((s.setState f .hold).put t { thread with
      pc := .scan
      cb_fiber := if kind = .cb then none else thread.cb_fiber })
  | .clear f => (s.resetFiber f).map fun s => s.goto t .scan
  | .outside | .running .. | .stopped => none

/-! ## Interleaved threads -/

/-- A step of thread `t`, or of the world around the scheduler. -/
inductive Action
  /-- A thread enters `run`. -/
  | start (t : ℕ)
  | newFiber (t : ℕ)
  | schedule (t : ℕ) (tasks : List (Option Task × Option ℕ))
  | addTimer (t ms : ℕ) (cb : Option ℕ) (recurring : Bool) (addr : ℕ)
  | cancel (t i : ℕ)
  /-- `stop`, and each call of `tickle` that it makes. -/
  | stop (t : ℕ)
  | tickle (t : ℕ)
  /-- The next step of `tickle`, `run` or `idle`. -/
  | step (t : ℕ)
  /-- The running fiber yields or finishes, with this state. -/
  | yield (t : ℕ) (state : Fiber.State)
  /-- `epoll_wait` returns. -/
  | wake (t : ℕ) (interrupted : Bool)
  | listExpiredCb (t probe : ℕ)
  /-- `idle` reads the pipe until it is empty. -/
  | drain (t : ℕ)
  /-- `idle` triggers an event. -/
  | trigger (t : ℕ) (task : Task)
  /-- Events are registered and consumed. -/
  | events (pendingEventCount : ℕ)
  | clock (now : ℕ)
  deriving DecidableEq

/-- A thread that is outside the scheduler or runs a task, and not inside a call. -/
def Thread.free (thread : Thread) : Bool :=
  thread.tickle = .none &&
    match thread.pc with
    | .outside | .running .. => true
    | _ => false

/-- A thread at the events of `idle`, and not inside a call. -/
def Thread.atEvents (thread : Thread) : Bool :=
  thread.tickle = .none &&
    match thread.pc with
    | .idle .events _ => true
    | _ => false

/-- A task whose fiber, if it is one, has been created. -/
def Task.known (created : ℕ) : Task → Bool
  | .fiber f => f < created
  | .cb _ => true

/-- `addTimer`, and `onTimerInsertedAtFront`, up to the call of `tickle`. -/
def addTimer (s : Scheduler) (t ms : ℕ) (cb : Option ℕ) (recurring : Bool) (addr : ℕ) :
    Option Scheduler :=
  (s.timers.addTimer s.now ms cb recurring addr).map fun r =>
    { s with timers := r.2 }.put t
      { s.threads t with tickle := if r.1.2 then .test else .none }

/-- The step of an action, when it is enabled. -/
def step (s : Scheduler) : Action → Option Scheduler
  | .start t =>
    if (s.threads t).pc = .outside ∧ (s.threads t).tickle = .none then
      some (s.newFiber.put t { s.threads t with pc := .scan, idle_fiber := some s.created })
    else none
  | .newFiber t => if (s.threads t).free then some s.newFiber else none
  | .schedule t tasks =>
    if (s.threads t).free ∧ tasks.all fun x => x.1.all (·.known s.created) then
      some (s.schedule t tasks)
    else none
  | .addTimer t ms cb recurring addr =>
    if (s.threads t).free then s.addTimer t ms cb recurring addr else none
  | .cancel t i =>
    if (s.threads t).free ∧ i < s.timers.created then
      (s.timers.cancel i).map fun r => { s with timers := r.2 }
    else none
  | .stop t =>
    if (s.threads t).free then some { s with stopping := true, autoStop := true } else none
  | .tickle t =>
    if (s.threads t).free then some (s.put t { s.threads t with tickle := .test }) else none
  | .step t => if (s.threads t).tickle = .none then s.runStep t else s.tickleStep t
  | .yield t state =>
    match (s.threads t).pc with
    | .running kind f =>
      if (s.threads t).tickle = .none ∧ state ≠ .init ∧ state ≠ .exec then
        some ((s.setState f state).goto t (.saving kind f))
      else none
    | _ => none
  -- `EINTR` goes back to `epoll_wait`
  | .wake t interrupted =>
    match (s.threads t).pc with
    | .idle (.blocked next _) f =>
      some (s.goto t (.idle (if interrupted then .wait next else .expire) f))
    | _ => none
  | .listExpiredCb t probe =>
    match (s.threads t).pc with
    | .idle .expire f =>
      (s.timers.listExpiredCb s.now probe).map fun r =>
        { s with timers := r.2 }.goto t (.idle (.cbs r.1.2) f)
    | _ => none
  | .drain t => if (s.threads t).atEvents then some { s with pipe := 0 } else none
  | .trigger t task =>
    if (s.threads t).atEvents ∧ task.known s.created then
      some (s.schedule t [(some task, none)])
    else none
  | .events pendingEventCount => some { s with pendingEventCount := pendingEventCount }
  | .clock now => some { s with now := now }

/-- The machine of the interleaved threads. -/
def machine : Machine Scheduler Action where
  step := step

end Scheduler

end Sylar

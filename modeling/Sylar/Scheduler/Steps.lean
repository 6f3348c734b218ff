import Sylar.Scheduler.Invariant

/-!
# What a step of the scheduler changes

One thread moves at a time and stores only to fibers in its hands. A scan takes at most one entry
out of the queue, and everything else appends to it. The active threads are those between the scan
that takes a task and the end of their turn on it.

## Main definitions

* `entriesOf`: the entries that `schedule` makes of its arguments
* `eligible`: the entries that a thread may take
* `scanner`, `puts`: the thread whose scan a step is, and what the step schedules
* `Pc.turn`: the thread is between a scan that takes a task and the end of its turn

## Main results

* `threads_step`, `fibers_step`: a step moves one thread, and stores to what that thread holds
* `queue_step`: the queue after a step
* `Tally.step`: `m_activeThreadCount` is the number of threads in a turn
-/

namespace Sylar

open Foundation

namespace Scheduler

variable {s s' : Scheduler} {t t' f : ℕ} {th : Thread} {a : Action}

/-! ## The queue -/

/-- The entries that `schedule` puts in the queue. -/
def entriesOf (tasks : List (Option Task × Option ℕ)) : List FiberAndThread :=
  tasks.filterMap fun x => x.1.map fun task => { task := task, thread := x.2 }

theorem scheduleAll_snd {queue : List FiberAndThread} {tasks : List (Option Task × Option ℕ)} :
    (scheduleAll queue tasks).2 = queue ++ entriesOf tasks := by
  induction tasks generalizing queue with
  | nil => exact (List.append_nil _).symm
  | cons x tasks ih =>
    obtain ⟨task, thread⟩ := x
    cases task with
    | none => exact ih
    | some task => exact ih.trans (List.append_assoc ..)

theorem mem_entriesOf {tasks : List (Option Task × Option ℕ)} {ft : FiberAndThread} :
    ft ∈ entriesOf tasks ↔ (some ft.task, ft.thread) ∈ tasks := by
  simp only [entriesOf, List.mem_filterMap, Option.map_eq_some_iff]
  constructor
  · rintro ⟨⟨task, thread⟩, hx, task', rfl, rfl⟩
    exact hx
  · intro h
    exact ⟨_, h, ft.task, rfl, rfl⟩

/-- Thread `t` may take the entry. -/
def eligible (fibers : ℕ → Fiber) (t : ℕ) (ft : FiberAndThread) : Bool :=
  !ft.elsewhere t && !ft.executing fibers

/-- A scan takes the first entry that the thread may take. -/
theorem scan_eq (fibers : ℕ → Fiber) (t : ℕ) (queue : List FiberAndThread) :
    (scan fibers t queue).1 = (queue.find? (eligible fibers t)).map FiberAndThread.task ∧
      (scan fibers t queue).2.2 = queue.eraseP (eligible fibers t) := by
  induction queue with
  | nil => exact ⟨rfl, rfl⟩
  | cons ft queue ih =>
    rw [List.find?_cons, List.eraseP_cons]
    cases helse : ft.elsewhere t with
    | true => simpa [scan, eligible, helse] using ih
    | false =>
      cases hexec : ft.executing fibers with
      | true => simpa [scan, eligible, helse, hexec] using ih
      | false => simp [scan, eligible, helse, hexec]

/-- The thread whose scan the step is. -/
def scanner (s : Scheduler) : Action → Option ℕ
  | .step t => if (s.threads t).tickle = .none ∧ (s.threads t).pc = .scan then some t else none
  | _ => none

/-- What the step schedules. -/
def puts (s : Scheduler) : Action → List (Option Task × Option ℕ)
  | .schedule _ tasks => tasks
  | .trigger _ task => [(some task, none)]
  | .step t =>
    if (s.threads t).tickle = .none then
      match (s.threads t).pc with
      | .ready _ f => [(some (.fiber f), none)]
      | .idle (.cbs cbs) _ => cbs.map fun cb => (cb.map .cb, none)
      | _ => []
    else []
  | _ => []

/-- What is left of the queue before the step appends to it. -/
def left (s : Scheduler) (a : Action) : List FiberAndThread :=
  match s.scanner a with
  | some t => s.queue.eraseP (eligible s.fibers t)
  | none => s.queue

theorem queue_tickleStep (hs : s.tickleStep t = some s') : s'.queue = s.queue := by
  simp only [Scheduler.tickleStep] at hs
  split at hs
  · cases hs
  · split_ifs at hs <;> cases hs <;> rfl
  · cases hs
    rfl

theorem puts_step (htickle : (s.threads t).tickle = .none) : s.puts (.step t) =
    match (s.threads t).pc with
    | .ready _ f => [(some (.fiber f), none)]
    | .idle (.cbs cbs) _ => cbs.map fun cb => (cb.map .cb, none)
    | _ => [] := by
  rw [puts, if_pos htickle]

/-- A step that is no scan. -/
theorem left_step (hpc : (s.threads t).pc ≠ .scan) : s.left (.step t) = s.queue := by
  rw [left, scanner, if_neg fun h => hpc h.2]

theorem scanner_scan (htickle : (s.threads t).tickle = .none) (hpc : (s.threads t).pc = .scan) :
    s.scanner (.step t) = some t := if_pos ⟨htickle, hpc⟩

theorem queue_runStep (htickle : (s.threads t).tickle = .none) (hs : s.runStep t = some s') :
    s'.queue = s.left (.step t) ++ entriesOf (s.puts (.step t)) := by
  -- only a scan takes, and only `ready` and the callbacks of `idle` put
  have hquiet : (s.threads t).pc ≠ .scan → s.puts (.step t) = [] → s'.queue = s.queue →
      s'.queue = s.left (.step t) ++ entriesOf (s.puts (.step t)) := by
    intro hpc hputs hqueue
    rw [left_step hpc, hputs, hqueue]
    exact (List.append_nil _).symm
  have hputs := puts_step htickle
  cases hpc : (s.threads t).pc with
  | outside => simp [Scheduler.runStep, hpc] at hs
  | running kind g => simp [Scheduler.runStep, hpc] at hs
  | stopped => simp [Scheduler.runStep, hpc] at hs
  | scan =>
    simp only [hpc] at hputs
    simp only [Scheduler.runStep, hpc] at hs
    cases hs
    rw [left, scanner_scan htickle hpc, hputs]
    exact (scan_eq ..).2.trans (List.append_nil _).symm
  | ready kind g =>
    simp only [hpc] at hputs
    simp only [Scheduler.runStep, hpc] at hs
    cases hs
    rw [left_step (by simp [hpc]), hputs]
    exact scheduleAll_snd
  | idle stage g =>
    simp only [Scheduler.runStep, hpc] at hs
    cases stage with
    | cbs cbs =>
      simp only [hpc] at hputs
      cases hs
      rw [left_step (by simp [hpc]), hputs]
      cases cbs with
      | nil => exact (List.append_nil _).symm
      | cons cb cbs => exact scheduleAll_snd
    | pending next =>
      simp only [hpc] at hputs
      simp only [Scheduler.idleStep] at hs
      refine hquiet (by simp [hpc]) hputs ?_
      split_ifs at hs <;> cases hs <;> rfl
    | queue next =>
      simp only [hpc] at hputs
      simp only [Scheduler.idleStep] at hs
      refine hquiet (by simp [hpc]) hputs ?_
      split_ifs at hs <;> cases hs <;> rfl
    | blocked next deadline => cases hs
    | expire => cases hs
    | _ =>
      simp only [hpc] at hputs
      cases hs
      exact hquiet (by simp [hpc]) hputs rfl
  | dispatch task =>
    simp only [hpc] at hputs
    refine hquiet (by simp [hpc]) hputs ?_
    rcases task with _ | (g | c) <;> simp only [Scheduler.runStep, hpc] at hs
    · split at hs
      · cases hs
      · split_ifs at hs <;> cases hs <;> rfl
    · split_ifs at hs <;> cases hs <;> rfl
    · split at hs
      · obtain ⟨s₁, hreset, rfl⟩ := Option.map_eq_some_iff.mp hs
        obtain ⟨-, rfl⟩ := eq_of_resetFiber hreset
        rfl
      · cases hs
        rfl
  | clear g =>
    simp only [hpc] at hputs
    refine hquiet (by simp [hpc]) hputs ?_
    simp only [Scheduler.runStep, hpc] at hs
    obtain ⟨s₁, hreset, rfl⟩ := Option.map_eq_some_iff.mp hs
    obtain ⟨-, rfl⟩ := eq_of_resetFiber hreset
    rfl
  | load kind g =>
    simp only [hpc] at hputs
    refine hquiet (by simp [hpc]) hputs ?_
    cases kind <;> simp only [Scheduler.runStep, hpc] at hs <;> cases hs <;> rfl
  | returned kind g =>
    simp only [hpc] at hputs
    refine hquiet (by simp [hpc]) hputs ?_
    cases kind <;> simp only [Scheduler.runStep, hpc] at hs <;> cases hs <;> rfl
  | enter kind g | testReady kind g | testFinished kind g | saving kind g | hold kind g =>
    simp only [hpc] at hputs
    refine hquiet (by simp [hpc]) hputs ?_
    simp only [Scheduler.runStep, hpc] at hs
    try split_ifs at hs
    all_goals cases hs
    all_goals rfl

/-- **The queue after a step**: a scan has taken an entry, and what is scheduled is at the end. -/
theorem queue_step (hs : machine.step s a = some s') :
    s'.queue = s.left a ++ entriesOf (s.puts a) := by
  have hquiet : s.left a = s.queue → s.puts a = [] → s'.queue = s.queue →
      s'.queue = s.left a ++ entriesOf (s.puts a) := by
    intro hleft hputs hqueue
    rw [hleft, hputs, hqueue]
    exact (List.append_nil _).symm
  simp only [machine] at hs
  cases a with
  | step t =>
    simp only [Scheduler.step] at hs
    split_ifs at hs with htickle
    · exact queue_runStep htickle hs
    · refine hquiet ?_ (if_neg htickle) (queue_tickleStep hs)
      rw [left, scanner, if_neg fun h => htickle h.1]
  | schedule t tasks =>
    simp only [Scheduler.step] at hs
    split_ifs at hs
    cases hs
    exact scheduleAll_snd
  | trigger t task =>
    simp only [Scheduler.step] at hs
    split_ifs at hs
    cases hs
    exact scheduleAll_snd
  | yield t state =>
    refine hquiet rfl rfl ?_
    simp only [Scheduler.step] at hs
    split at hs
    · split_ifs at hs
      cases hs
      rfl
    · cases hs
  | wake t interrupted =>
    refine hquiet rfl rfl ?_
    simp only [Scheduler.step] at hs
    split at hs <;> cases hs
    rfl
  | listExpiredCb t probe =>
    refine hquiet rfl rfl ?_
    simp only [Scheduler.step] at hs
    split at hs
    · obtain ⟨r, -, rfl⟩ := Option.map_eq_some_iff.mp hs
      rfl
    · cases hs
  | addTimer t ms cb recurring addr | cancel t i =>
    refine hquiet rfl rfl ?_
    simp only [Scheduler.step] at hs
    split_ifs at hs
    obtain ⟨r, -, rfl⟩ := Option.map_eq_some_iff.mp hs
    rfl
  | start t | newFiber t | stop t | tickle t | drain t =>
    refine hquiet rfl rfl ?_
    simp only [Scheduler.step] at hs
    split_ifs at hs
    cases hs
    rfl
  | events n | clock n =>
    cases hs
    exact hquiet rfl rfl rfl

/-! ## Threads -/

/-- The thread that moves; nobody does when only the world changes. -/
def Action.thread : Action → ℕ
  | .start t | .newFiber t | .schedule t _ | .addTimer t .. | .cancel t _ | .stop t | .tickle t
  | .step t | .yield t _ | .wake t _ | .listExpiredCb t _ | .drain t | .trigger t _ => t
  | .events _ | .clock _ => 0

/-- The thread is between the scan that took its task and the end of its turn on the task. -/
def Pc.turn : Pc → Bool
  | .dispatch task => task.isSome
  | .enter kind _ | .load kind _ | .running kind _ | .saving kind _ | .returned kind _ =>
    kind ≠ .idle
  | _ => false

/-- Where thread `t` goes from where it is. -/
inductive Turn (s : Scheduler) (t : ℕ) : Pc → Pc → Prop
  | start : Turn s t .outside .scan
  | scan : Turn s t .scan
      (.dispatch ((s.queue.find? (eligible s.fibers t)).map FiberAndThread.task))
  | discard {f : ℕ} : (s.fibers f).state.finished → Turn s t (.dispatch (some (.fiber f))) .scan
  | pick {f : ℕ} : (s.fibers f).state.finished = false →
      Turn s t (.dispatch (some (.fiber f))) (.enter .fiber f)
  | call {c f : ℕ} : (s.threads t).cb_fiber.getD s.created = f →
      Turn s t (.dispatch (some (.cb c))) (.enter .cb f)
  | quit : Turn s t (.dispatch none) .stopped
  | idle {f : ℕ} : Turn s t (.dispatch none) (.enter .idle f)
  | enter {kind : Kind} {f : ℕ} : Turn s t (.enter kind f) (.load kind f)
  | load {kind : Kind} {f : ℕ} : kind ≠ .idle → Turn s t (.load kind f) (.running kind f)
  | loadIdle {f : ℕ} : Turn s t (.load .idle f) (.idle .top f)
  | stage {stage stage' : Stage} {f : ℕ} : (∀ cbs, stage' ≠ .cbs cbs) →
      Turn s t (.idle stage f) (.idle stage' f)
  | expire {cbs : List (Option ℕ)} {f : ℕ} : Turn s t (.idle .expire f) (.idle (.cbs cbs) f)
  | out {stage : Stage} {f : ℕ} : Turn s t (.idle stage f) (.saving .idle f)
  | yield {kind : Kind} {f : ℕ} : Turn s t (.running kind f) (.saving kind f)
  | save {kind : Kind} {f : ℕ} : Turn s t (.saving kind f) (.returned kind f)
  | finish {kind : Kind} {f : ℕ} : kind ≠ .idle → Turn s t (.returned kind f) (.testReady kind f)
  | finishIdle {f : ℕ} : Turn s t (.returned .idle f) (.testFinished .idle f)
  | ready {kind : Kind} {f : ℕ} : (s.fibers f).state = .ready →
      Turn s t (.testReady kind f) (.ready kind f)
  | notReady {kind : Kind} {f : ℕ} : Turn s t (.testReady kind f) (.testFinished kind f)
  | requeue {kind : Kind} {f : ℕ} : Turn s t (.ready kind f) .scan
  | finished {kind : Kind} {f : ℕ} : Turn s t (.testFinished kind f) .scan
  | clear {kind : Kind} {f : ℕ} : Turn s t (.testFinished kind f) (.clear f)
  | hold {kind : Kind} {f : ℕ} : Turn s t (.testFinished kind f) (.hold kind f)
  | held {kind : Kind} {f : ℕ} : Turn s t (.hold kind f) .scan
  | cleared {f : ℕ} : Turn s t (.clear f) .scan

/-- What a step of thread `t` does to a fiber: nothing, unless the thread holds or makes the fiber,
and only a running fiber becomes `READY`. -/
def Stores (s : Scheduler) (t : ℕ) (s' : Scheduler) (f : ℕ) : Prop :=
  s'.fibers f = s.fibers f ∨ ((s.threads t).holds f ∨ f = s.created) ∧
    ((s'.fibers f).state = .ready →
      (s.fibers f).state = .ready ∨ ∃ kind, (s.threads t).pc = .running kind f)

/-- **What a step changes**: one thread moves, a fiber that it does not hold stays as it is, and the
count of active threads follows its turn. -/
structure Moves (s : Scheduler) (t : ℕ) (s' : Scheduler) : Prop where
  threads : ∀ t', t' ≠ t → s'.threads t' = s.threads t'
  pc : (s'.threads t).pc = (s.threads t).pc ∨ Turn s t (s.threads t).pc (s'.threads t).pc
  stores : ∀ f, s.Stores t s' f
  active : ((s.threads t).pc.turn → 0 < s.activeThreadCount) →
    s'.activeThreadCount + (s.threads t).pc.turn.toNat =
      s.activeThreadCount + (s'.threads t).pc.turn.toNat

/-- A step by which a thread goes on. -/
structure Goes (s : Scheduler) (t : ℕ) (s' : Scheduler) : Prop extends s.Moves t s' where
  turn : Turn s t (s.threads t).pc (s'.threads t).pc

theorem Moves.of_put {th' : Thread} (hthreads : s'.threads = Function.update s.threads t th')
    (hpc : th'.pc = (s.threads t).pc ∨ Turn s t (s.threads t).pc th'.pc)
    (hfibers : ∀ f, s.Stores t s' f)
    (hactive : ((s.threads t).pc.turn → 0 < s.activeThreadCount) →
      s'.activeThreadCount + (s.threads t).pc.turn.toNat =
        s.activeThreadCount + th'.pc.turn.toNat) : s.Moves t s' := by
  have hself : s'.threads t = th' := by rw [hthreads, Function.update_self]
  refine ⟨fun t' hne => ?_, ?_, hfibers, ?_⟩
  · rw [hthreads, Function.update_of_ne hne]
  · rwa [hself]
  · rwa [hself]

theorem Goes.of_put {th' : Thread} {pc : Pc} (hpc : (s.threads t).pc = pc)
    (hthreads : s'.threads = Function.update s.threads t th') (hturn : Turn s t pc th'.pc)
    (hfibers : ∀ f, s.Stores t s' f)
    (hactive : (pc.turn → 0 < s.activeThreadCount) →
      s'.activeThreadCount + pc.turn.toNat = s.activeThreadCount + th'.pc.turn.toNat) :
    s.Goes t s' := by
  subst hpc
  refine ⟨.of_put hthreads (.inr hturn) hfibers hactive, ?_⟩
  rwa [hthreads, Function.update_self]

/-- A thread that stays in its turn, or out of one. -/
theorem Goes.of_turn {th' : Thread} {pc : Pc} (hpc : (s.threads t).pc = pc)
    (hthreads : s'.threads = Function.update s.threads t th') (hturn : Turn s t pc th'.pc)
    (hfibers : ∀ f, s.Stores t s' f)
    (hactive : s'.activeThreadCount = s.activeThreadCount)
    (hsame : pc.turn = th'.pc.turn) : s.Goes t s' := by
  refine .of_put hpc hthreads hturn hfibers fun _ => ?_
  rw [hactive, hsame]

theorem Moves.of_turn {th' : Thread} {pc : Pc} (hpc : (s.threads t).pc = pc)
    (hthreads : s'.threads = Function.update s.threads t th') (hturn : Turn s t pc th'.pc)
    (hfibers : ∀ f, s.Stores t s' f)
    (hactive : s'.activeThreadCount = s.activeThreadCount) (hsame : pc.turn = th'.pc.turn) :
    s.Moves t s' :=
  (Goes.of_turn hpc hthreads hturn hfibers hactive hsame).toMoves

/-- A thread that stays where it is. -/
theorem Moves.of_stay {th' : Thread} (hthreads : s'.threads = Function.update s.threads t th')
    (hpc : th'.pc = (s.threads t).pc)
    (hfibers : ∀ f, s.Stores t s' f)
    (hactive : s'.activeThreadCount = s.activeThreadCount) : s.Moves t s' := by
  refine .of_put hthreads (.inl hpc) hfibers fun _ => ?_
  rw [hactive, hpc]

theorem Moves.fibers (hm : s.Moves t s') (f : ℕ) :
    s'.fibers f = s.fibers f ∨ (s.threads t).holds f ∨ f = s.created :=
  (hm.stores f).imp id And.left

theorem Moves.ready (hm : s.Moves t s') (h : (s'.fibers f).state = .ready) :
    (s.fibers f).state = .ready ∨ ∃ kind, (s.threads t).pc = .running kind f := by
  rcases hm.stores f with heq | ⟨-, hready⟩
  · exact .inl (heq ▸ h)
  · exact hready h

/-- A store to one fiber. -/
theorem stores_of {g : ℕ} {x : Fiber} (hfibers : s'.fibers = Function.update s.fibers g x)
    (hg : (s.threads t).holds g ∨ g = s.created)
    (hx : x.state = .ready →
      (s.fibers g).state = .ready ∨ ∃ kind, (s.threads t).pc = .running kind g) (f : ℕ) :
    s.Stores t s' f := by
  rcases eq_or_ne f g with rfl | hne
  · refine .inr ⟨hg, fun h => hx ?_⟩
    rwa [hfibers, Function.update_self] at h
  · exact .inl (by rw [hfibers, Function.update_of_ne hne])

/-- A store of another state than `READY`. -/
theorem stores_of_ne {g : ℕ} {x : Fiber} (hfibers : s'.fibers = Function.update s.fibers g x)
    (hg : (s.threads t).holds g ∨ g = s.created) (hx : x.state ≠ .ready) (f : ℕ) :
    s.Stores t s' f :=
  stores_of hfibers hg (fun h => absurd h hx) f

theorem moves_tickleStep (hs : s.tickleStep t = some s') : s.Moves t s' := by
  simp only [Scheduler.tickleStep] at hs
  split at hs
  · cases hs
  · split_ifs at hs <;> cases hs <;> exact .of_stay rfl rfl (fun _ => .inl rfl) rfl
  · cases hs
    exact .of_stay rfl rfl (fun _ => .inl rfl) rfl

theorem goes_idleStep {stage : Stage} (hpc : (s.threads t).pc = .idle stage f)
    (hs : s.idleStep t f stage = some s') : s.Goes t s' := by
  cases stage with
  | pending next | queue next =>
    simp only [Scheduler.idleStep] at hs
    split_ifs at hs <;> cases hs <;>
      exact .of_turn hpc rfl (.stage fun _ h => by cases h) (fun _ => .inl rfl) rfl rfl
  | cbs cbs =>
    cases hs
    split_ifs
    · exact .of_turn hpc rfl (.stage fun _ h => by cases h) (fun _ => .inl rfl) rfl rfl
    · exact .of_turn hpc (Function.update_idem ..) (.stage fun _ h => by cases h)
        (fun _ => .inl rfl) rfl rfl
  | blocked next deadline => cases hs
  | expire => cases hs
  | out =>
    cases hs
    exact .of_turn hpc rfl .out (fun _ => .inl rfl) rfl rfl
  | finish =>
    cases hs
    exact .of_turn hpc rfl .out
      (stores_of_ne rfl (.inl (.inl (by rw [hpc]; rfl))) fun h => by cases h) rfl rfl
  | top | wait next | events =>
    cases hs
    exact .of_turn hpc rfl (.stage fun _ h => by cases h) (fun _ => .inl rfl) rfl rfl

theorem goes_runStep (hs : s.runStep t = some s') : s.Goes t s' := by
  cases hpc : (s.threads t).pc with
  | outside => simp [Scheduler.runStep, hpc] at hs
  | running kind g => simp [Scheduler.runStep, hpc] at hs
  | stopped => simp [Scheduler.runStep, hpc] at hs
  | idle stage g =>
    simp only [Scheduler.runStep, hpc] at hs
    exact goes_idleStep hpc hs
  | scan =>
    simp only [Scheduler.runStep, hpc] at hs
    cases hs
    refine .of_put (t := t) hpc rfl ?_ (fun _ => .inl rfl) fun _ => ?_
    · rw [(scan_eq s.fibers t s.queue).1]
      exact .scan
    · simp only [Pc.turn]
      cases (Scheduler.scan s.fibers t s.queue).1 <;> rfl
  | dispatch task =>
    rcases task with _ | (g | c) <;> simp only [Scheduler.runStep, hpc] at hs
    · split at hs
      · cases hs
      · split_ifs at hs <;> cases hs
        · exact .of_turn hpc rfl .quit (fun _ => .inl rfl) rfl rfl
        · exact .of_turn hpc rfl .idle (fun _ => .inl rfl) rfl rfl
    · split_ifs at hs with hfin <;> cases hs
      -- a finished fiber: the turn of the scan is given back
      · exact .of_put hpc rfl (.discard hfin) (fun _ => .inl rfl) fun hpos =>
          Nat.sub_add_cancel (hpos rfl)
      · exact .of_turn hpc rfl (.pick (by simpa using hfin)) (fun _ => .inl rfl) rfl rfl
    · split at hs
      · rename_i g hcb
        obtain ⟨s₁, hreset, rfl⟩ := Option.map_eq_some_iff.mp hs
        obtain ⟨-, rfl⟩ := eq_of_resetFiber hreset
        exact .of_turn hpc rfl (.call (by rw [hcb]; rfl))
          (stores_of_ne rfl (.inl (.inr (.inl hcb))) (by decide)) rfl rfl
      · rename_i hcb
        cases hs
        exact .of_turn hpc rfl (.call (by rw [hcb]; rfl))
          (stores_of_ne rfl (.inr rfl) (by decide)) rfl rfl
  | enter kind g =>
    simp only [Scheduler.runStep, hpc] at hs
    split_ifs at hs
    cases hs
    exact .of_turn hpc rfl .enter
      (stores_of_ne rfl (.inl (.inl (by rw [hpc]; rfl))) (by decide)) rfl rfl
  | load kind g =>
    cases kind <;> simp only [Scheduler.runStep, hpc] at hs <;> cases hs
    · exact .of_turn hpc rfl (.load (by decide)) (fun _ => .inl rfl) rfl rfl
    · exact .of_turn hpc rfl (.load (by decide)) (fun _ => .inl rfl) rfl rfl
    · exact .of_turn hpc rfl .loadIdle (fun _ => .inl rfl) rfl rfl
  | saving kind g =>
    simp only [Scheduler.runStep, hpc] at hs
    cases hs
    exact .of_turn hpc rfl .save (stores_of rfl (.inl (.inl (by rw [hpc]; rfl))) .inl) rfl rfl
  | returned kind g =>
    -- a task of the queue gives its turn back, an idle fiber never had one
    have hfinish : ∀ kind, kind ≠ .idle → (s.threads t).pc = .returned kind g →
        s.Goes t ({ s with activeThreadCount := s.activeThreadCount - 1 }.goto t
          (.testReady kind g)) := by
      intro kind hkind hpc
      refine .of_put hpc rfl (.finish hkind) (fun _ => .inl rfl) fun hpos => ?_
      rw [Pc.turn, decide_eq_true hkind] at hpos ⊢
      exact Nat.sub_add_cancel (hpos rfl)
    cases kind <;> simp only [Scheduler.runStep, hpc] at hs <;> cases hs
    · exact hfinish _ (by decide) hpc
    · exact hfinish _ (by decide) hpc
    · exact .of_turn hpc rfl .finishIdle (fun _ => .inl rfl) rfl rfl
  | testReady kind g =>
    simp only [Scheduler.runStep, hpc] at hs
    split_ifs at hs with hready <;> cases hs
    · exact .of_turn hpc rfl (.ready hready) (fun _ => .inl rfl) rfl rfl
    · exact .of_turn hpc rfl .notReady (fun _ => .inl rfl) rfl rfl
  | ready kind g =>
    simp only [Scheduler.runStep, hpc] at hs
    cases hs
    -- the thread is put twice: for the tickle, and for where it goes
    exact .of_turn hpc (Function.update_idem ..) .requeue (fun _ => .inl rfl) rfl rfl
  | testFinished kind g =>
    simp only [Scheduler.runStep, hpc] at hs
    split_ifs at hs <;> cases hs
    · exact .of_turn hpc rfl .clear (fun _ => .inl rfl) rfl rfl
    · exact .of_turn hpc rfl .finished (fun _ => .inl rfl) rfl rfl
    · exact .of_turn hpc rfl .hold (fun _ => .inl rfl) rfl rfl
  | hold kind g =>
    simp only [Scheduler.runStep, hpc] at hs
    cases hs
    exact .of_turn hpc rfl .held
      (stores_of_ne rfl (.inl (.inl (by rw [hpc]; rfl))) fun h => by cases h) rfl rfl
  | clear g =>
    simp only [Scheduler.runStep, hpc] at hs
    obtain ⟨s₁, hreset, rfl⟩ := Option.map_eq_some_iff.mp hs
    obtain ⟨-, rfl⟩ := eq_of_resetFiber hreset
    exact .of_turn hpc rfl .cleared
      (stores_of_ne rfl (.inl (.inl (by rw [hpc]; rfl))) (by decide)) rfl rfl

/-- **Every step moves one thread.** -/
theorem moves_step (hs : machine.step s a = some s') : s.Moves a.thread s' := by
  simp only [machine] at hs
  have hself : ∀ t, s.threads = Function.update s.threads t (s.threads t) := fun t =>
    (Function.update_eq_self ..).symm
  cases a with
  | step t =>
    simp only [Scheduler.step] at hs
    split_ifs at hs
    · exact (goes_runStep hs).toMoves
    · exact moves_tickleStep hs
  | start t =>
    simp only [Scheduler.step] at hs
    split_ifs at hs with hpc
    cases hs
    exact .of_turn hpc.1 rfl .start (stores_of_ne rfl (.inr rfl) (by decide)) rfl rfl
  | newFiber t =>
    simp only [Scheduler.step] at hs
    split_ifs at hs
    cases hs
    exact .of_stay (hself t) rfl (stores_of_ne rfl (.inr rfl) (by decide)) rfl
  | yield t state =>
    simp only [Scheduler.step] at hs
    split at hs
    · rename_i kind g hpc
      split_ifs at hs
      cases hs
      exact .of_turn (t := t) hpc rfl .yield
        (stores_of rfl (.inl (.inl (by rw [hpc]; rfl))) fun _ => .inr ⟨kind, hpc⟩) rfl rfl
    · cases hs
  | wake t interrupted =>
    simp only [Scheduler.step] at hs
    split at hs
    · rename_i hpc
      cases hs
      exact .of_turn hpc rfl (.stage fun _ h => by split_ifs at h) (fun _ => .inl rfl) rfl rfl
    · cases hs
  | listExpiredCb t probe =>
    simp only [Scheduler.step] at hs
    split at hs
    · rename_i hpc
      obtain ⟨r, -, rfl⟩ := Option.map_eq_some_iff.mp hs
      exact .of_turn hpc rfl .expire (fun _ => .inl rfl) rfl rfl
    · cases hs
  | schedule t tasks | trigger t task | tickle t =>
    simp only [Scheduler.step] at hs
    split_ifs at hs
    cases hs
    exact .of_stay rfl rfl (fun _ => .inl rfl) rfl
  | addTimer t ms cb recurring addr =>
    simp only [Scheduler.step] at hs
    split_ifs at hs
    obtain ⟨r, -, rfl⟩ := Option.map_eq_some_iff.mp hs
    exact .of_stay rfl rfl (fun _ => .inl rfl) rfl
  | cancel t i =>
    simp only [Scheduler.step] at hs
    split_ifs at hs
    obtain ⟨r, -, rfl⟩ := Option.map_eq_some_iff.mp hs
    exact .of_stay (hself t) rfl (fun _ => .inl rfl) rfl
  | stop t | drain t =>
    simp only [Scheduler.step] at hs
    split_ifs at hs
    cases hs
    exact .of_stay (hself t) rfl (fun _ => .inl rfl) rfl
  | events n | clock n =>
    cases hs
    exact .of_stay (hself 0) rfl (fun _ => .inl rfl) rfl

/-! ## The active threads -/

/-- **`m_activeThreadCount` is the number of threads in a turn.** -/
def Tally (s : Scheduler) : Prop :=
  Counted (fun t => (s.threads t).pc.turn) s.activeThreadCount

theorem Tally.step (h : s.Tally) (hs : machine.step s a = some s') : s'.Tally := by
  have hm := moves_step hs
  exact Counted.move h a.thread (fun t' hne => by rw [hm.threads t' hne])
    (hm.active fun hturn => Counted.pos h (t := a.thread) hturn)

theorem tally_new (now : ℕ) : (new now).Tally := counted_zero fun _ => rfl

end Scheduler

end Sylar

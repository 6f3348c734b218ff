import Sylar.Scheduler.Steps

/-!
# What `stopping` says

`stopping` reads the flags, the queue and `m_activeThreadCount`. Work that is in neither of the two
is outside the answer: `run` gives up its count before it puts a `READY` fiber back into the queue,
and the callbacks of expired timers are with the idle fiber between `listExpiredCb` and `schedule`.

## Main definitions

* `stops`: `Scheduler::stopping` evaluates to true
* `Quiet`: no work is outstanding
* `StoppingSound`: `stopping` is true only if no work is outstanding
* `Settled`: a step gives up the last count, requests the stop or takes callbacks out of the timers
  only where nothing is lost to `stopping`

## Main results

* `stopping_iff`: one step keeps `StoppingSound` exactly if it is `Settled`
* `stopping_sound_iff`: a run keeps `StoppingSound` exactly if all its steps are `Settled`
-/

namespace Sylar

open Foundation

namespace Scheduler

variable {s s' : Scheduler} {t t' f : ℕ} {a : Action}

/-- `Scheduler::stopping`, which is also the last part of `IOManager::stopping`. -/
def stops (s : Scheduler) : Prop :=
  s.autoStop ∧ s.stopping ∧ s.queue = [] ∧ s.activeThreadCount = 0

/-- The thread has work that is not in the queue: a fiber that yielded `READY` and is not put back
yet, or callbacks of expired timers that are not scheduled yet. -/
def Pc.outstanding (fibers : ℕ → Fiber) : Pc → Prop
  | .saving kind f | .returned kind f => kind ≠ .idle ∧ (fibers f).state = .ready
  | .testReady _ f => (fibers f).state = .ready
  | .ready _ _ => True
  | .idle (.cbs cbs) _ => ∃ c, some c ∈ cbs
  | _ => False

/-- No thread has such work. -/
def Handed (s : Scheduler) : Prop := ∀ t, ¬ (s.threads t).pc.outstanding s.fibers

/-- **No work is outstanding.** -/
structure Quiet (s : Scheduler) : Prop where
  queue : s.queue = []
  turn : ∀ t, (s.threads t).pc.turn = false
  handed : s.Handed

/-- **`stopping` is sound**: it is true only if no work is outstanding. -/
def StoppingSound (s : Scheduler) : Prop := s.stops → s.Quiet

/-- The thread is about to give up its count in `m_activeThreadCount`. -/
def Pc.gives (fibers : ℕ → Fiber) : Pc → Bool
  | .returned kind _ => kind ≠ .idle
  | .dispatch (some (.fiber f)) => (fibers f).state.finished
  | _ => false

/-- The step takes nothing out of the view of `stopping`: the last count is given up, and the stop
is requested, while no thread has work that is not in the queue, and no callbacks are taken out of
the timers while `stopping` is true. -/
def Settled (s : Scheduler) : Action → Prop
  | .step t => (s.threads t).tickle = .none → (s.threads t).pc.gives s.fibers →
    s.autoStop → s.stopping → s.queue = [] → s.activeThreadCount = 1 → s.Handed
  | .stop _ => s.queue = [] → s.activeThreadCount = 0 → s.Handed
  | .listExpiredCb _ probe => s.stops →
    ∀ r ∈ s.timers.listExpiredCb s.now probe, ∀ c, some c ∉ r.1.2
  | _ => True

/-! ## Threads -/

/-- No thread runs its idle fiber as a task. -/
def Plain (s : Scheduler) : Prop := ∀ t f, (s.threads t).pc ≠ .running .idle f

theorem Plain.step (h : s.Plain) (hs : machine.step s a = some s') : s'.Plain := by
  intro t f hpc
  have hm := moves_step hs
  rcases eq_or_ne t a.thread with rfl | hne
  · rcases hm.pc with heq | hturn
    · exact h _ f (heq ▸ hpc)
    · rw [hpc] at hturn
      generalize (s.threads a.thread).pc = pc at hturn
      cases hturn with
      | load hkind => exact hkind rfl
  · exact h t f (hm.threads t hne ▸ hpc)

/-- The flags of `stopping` are as they were. -/
def SameFlags (s s' : Scheduler) : Prop := s'.autoStop = s.autoStop ∧ s'.stopping = s.stopping

theorem flags_idleStep {stage : Stage} (hs : s.idleStep t f stage = some s') : s.SameFlags s' := by
  cases stage with
  | pending next | queue next =>
    simp only [Scheduler.idleStep] at hs
    split_ifs at hs <;> cases hs <;> exact ⟨rfl, rfl⟩
  | cbs cbs =>
    cases hs
    split_ifs <;> exact ⟨rfl, rfl⟩
  | blocked next deadline => cases hs
  | expire => cases hs
  | top | wait next | events | out | finish =>
    cases hs
    exact ⟨rfl, rfl⟩

theorem flags_resetFiber {pc : Pc} (hs : s.resetFiber f = some s') :
    s.SameFlags (s'.goto t pc) := by
  obtain ⟨-, rfl⟩ := eq_of_resetFiber hs
  exact ⟨rfl, rfl⟩

theorem flags_runStep (hs : s.runStep t = some s') : s.SameFlags s' := by
  cases hpc : (s.threads t).pc with
  | outside => simp [Scheduler.runStep, hpc] at hs
  | running kind g => simp [Scheduler.runStep, hpc] at hs
  | stopped => simp [Scheduler.runStep, hpc] at hs
  | idle stage g =>
    simp only [Scheduler.runStep, hpc] at hs
    exact flags_idleStep hs
  | dispatch task =>
    rcases task with _ | (g | c) <;> simp only [Scheduler.runStep, hpc] at hs
    · split at hs
      · cases hs
      · split_ifs at hs <;> cases hs <;> exact ⟨rfl, rfl⟩
    · split_ifs at hs <;> cases hs <;> exact ⟨rfl, rfl⟩
    · split at hs
      · obtain ⟨s₁, hreset, rfl⟩ := Option.map_eq_some_iff.mp hs
        exact flags_resetFiber hreset
      · cases hs
        exact ⟨rfl, rfl⟩
  | clear g =>
    simp only [Scheduler.runStep, hpc] at hs
    obtain ⟨s₁, hreset, rfl⟩ := Option.map_eq_some_iff.mp hs
    exact flags_resetFiber hreset
  | enter kind g | testReady kind g | testFinished kind g =>
    simp only [Scheduler.runStep, hpc] at hs
    split_ifs at hs <;> cases hs <;> exact ⟨rfl, rfl⟩
  | load kind g | returned kind g =>
    cases kind <;> simp only [Scheduler.runStep, hpc] at hs <;> cases hs <;> exact ⟨rfl, rfl⟩
  | scan | saving kind g | ready kind g | hold kind g =>
    simp only [Scheduler.runStep, hpc] at hs
    cases hs
    exact ⟨rfl, rfl⟩

/-! ## Work that is not in the queue -/

/-- No thread gets such work, and no fiber becomes `READY`. -/
theorem Handed.move (h : s.Handed)
    (hready : ∀ f, (s'.fibers f).state = .ready → (s.fibers f).state = .ready)
    (hpc : ∀ t, (s'.threads t).pc = (s.threads t).pc ∨
      ((s'.threads t).pc.outstanding s'.fibers → (s.threads t).pc.outstanding s.fibers)) :
    s'.Handed := by
  intro t ht
  refine h t ?_
  rcases hpc t with heq | himp
  · rw [heq] at ht
    unfold Pc.outstanding at ht ⊢
    split at ht
    · exact ⟨ht.1, hready _ ht.2⟩
    · exact ⟨ht.1, hready _ ht.2⟩
    · exact hready _ ht
    · exact ht
    · exact ht
    · exact ht
  · exact himp ht

/-- A step of `run` gives no thread new work: the work of a thread that has some now was there
before. -/
theorem Handed.runStep (h : s.Handed) (hs : s.runStep t = some s') : s'.Handed := by
  have hg := goes_runStep hs
  have hready : ∀ f, (s'.fibers f).state = .ready → (s.fibers f).state = .ready := by
    intro f hf
    refine (hg.ready hf).resolve_right ?_
    rintro ⟨kind, hpc⟩
    simp [Scheduler.runStep, hpc] at hs
  refine h.move hready fun t' => ?_
  rcases eq_or_ne t' t with rfl | hne
  · refine .inr fun hout => ?_
    have hturn := hg.turn
    generalize hpc : (s.threads t').pc = pc at hturn
    generalize (s'.threads t').pc = pc' at hturn hout
    cases hturn with
    | save => exact ⟨hout.1, hready _ hout.2⟩
    | finish hkind => exact ⟨hkind, hready _ hout⟩
    | ready hstate => exact hstate
    | @stage stage stage' f hstage =>
      cases stage' with
      | cbs cbs => exact absurd rfl (hstage cbs)
      | _ => cases hout
    | expire =>
      simp only [Scheduler.runStep, hpc] at hs
      cases hs
    | out => exact absurd rfl hout.1
    | yield => simp [Scheduler.runStep, hpc] at hs
    | _ => cases hout
  · exact .inl (congrArg Thread.pc (hg.threads t' hne))

/-- Where a thread is about to give up its count, its step hides no work of a thread. -/
theorem handed_of_gives (hgives : (s.threads t).pc.gives s.fibers) (hs : s.runStep t = some s')
    (h : s'.Handed) : s.Handed := by
  have hg := goes_runStep hs
  have hfibers : s'.fibers = s.fibers := by
    cases hpc : (s.threads t).pc with
    | returned kind g =>
      cases kind <;> simp only [Scheduler.runStep, hpc] at hs <;> cases hs <;> rfl
    | dispatch task =>
      rcases task with _ | (g | c) <;> rw [hpc] at hgives <;> try cases hgives
      simp only [Scheduler.runStep, hpc] at hs
      split_ifs at hs <;> cases hs <;> rfl
    | _ =>
      rw [hpc] at hgives
      cases hgives
  intro t' ht'
  refine h t' ?_
  rw [hfibers]
  rcases eq_or_ne t' t with rfl | hne
  · have hturn := hg.turn
    generalize (s.threads t').pc = pc at hturn ht' hgives
    generalize (s'.threads t').pc = pc' at hturn
    cases hturn with
    | finish hkind => exact ht'.2
    | finishIdle => exact absurd rfl ht'.1
    | save | ready | notReady | requeue => cases hgives
    | _ => first | cases ht' | cases hgives
  · rwa [hg.threads t' hne]

/-! ## Steps -/

/-- If `stopping` becomes true, the last count was given up. -/
theorem stops_runStep (ht : s.Tally) (ht' : s'.Tally) (htickle : (s.threads t).tickle = .none)
    (hs : s.runStep t = some s') (hstops : s'.stops) : s.stops ∨
      (s.threads t).pc.gives s.fibers ∧ s.autoStop ∧ s.stopping ∧ s.queue = [] ∧
        s.activeThreadCount = 1 := by
  have hg := goes_runStep hs
  obtain ⟨hauto, hstopping⟩ := flags_runStep hs
  obtain ⟨hauto', hstopping', hqueue', hactive'⟩ := hstops
  rw [hauto] at hauto'
  rw [hstopping] at hstopping'
  -- nobody is counted in the new state, not this thread either
  have hidle : (s'.threads t).pc.turn = false := by
    unfold Tally at ht'
    rw [hactive'] at ht'
    exact ht'.eq_false t
  -- an entry is taken only by a scan, and then its thread is counted
  have hqueue : s.queue = [] := by
    have hleft := queue_runStep htickle hs
    rw [hqueue'] at hleft
    have hnil := (List.append_eq_nil_iff.mp hleft.symm).1
    by_cases hpc : (s.threads t).pc = .scan
    · have hturn := hg.turn
      rw [hpc] at hturn
      generalize (s'.threads t).pc = pc' at hturn hidle
      cases hturn with
      | scan =>
        have hnone : s.queue.find? (eligible s.fibers t) = none := by
          simpa [Pc.turn] using hidle
        rw [left, scanner_scan htickle hpc] at hnil
        rw [← hnil]
        exact (List.eraseP_of_forall_not fun x hx => List.find?_eq_none.mp hnone x hx).symm
    · rwa [left_step hpc] at hnil
  have hactive := hg.active fun hturn => Counted.pos ht (t := t) hturn
  rw [hactive', hidle, Bool.toNat_false, Nat.zero_add, Nat.add_zero] at hactive
  cases hturn : (s.threads t).pc.turn with
  | false =>
    rw [hturn] at hactive
    exact .inl ⟨hauto', hstopping', hqueue, hactive.symm⟩
  | true =>
    rw [hturn] at hactive
    refine .inr ⟨?_, hauto', hstopping', hqueue, hactive.symm⟩
    have hmove := hg.turn
    generalize (s.threads t).pc = pc at hmove hturn
    generalize (s'.threads t).pc = pc' at hmove hidle
    cases hmove with
    -- the steps that give a turn back are the end of a task and a finished fiber
    | discard hfin => exact hfin
    | finish hkind => exact decide_eq_true hkind
    | pick | call | save => exact absurd (hturn.symm.trans hidle) (by decide)
    | enter | load | yield => exact absurd (hturn.symm.trans hidle) (by decide)
    | _ => cases hturn

/-- While `stopping` is true no thread is in a turn. -/
theorem quiet_of_stops (ht : s.Tally) (hstops : s.stops) (h : s.Handed) : s.Quiet where
  queue := hstops.2.2.1
  turn := by
    unfold Tally at ht
    rw [hstops.2.2.2] at ht
    exact ht.eq_false
  handed := h

/-- A step that `stopping` does not see. -/
theorem StoppingSound.keep (h : s.StoppingSound) (ht' : s'.Tally) (hstops : s'.stops → s.stops)
    (hready : ∀ f, (s'.fibers f).state = .ready → (s.fibers f).state = .ready)
    (hpc : ∀ t, (s'.threads t).pc = (s.threads t).pc ∨
      ¬ (s'.threads t).pc.outstanding s'.fibers) : s'.StoppingSound := fun hs' =>
  quiet_of_stops ht' hs' ((h (hstops hs')).handed.move hready fun t =>
    (hpc t).imp id fun hnot hout => absurd hout hnot)

theorem ready_newFiber (h : (s.newFiber.fibers f).state = .ready) :
    (s.fibers f).state = .ready := by
  rcases eq_or_ne f s.created with rfl | hne
  · have hnew : s.newFiber.fibers s.created = {} := Function.update_self ..
    rw [hnew] at h
    cases h
  · have hold : s.newFiber.fibers f = s.fibers f := Function.update_of_ne hne ..
    rwa [hold] at h

theorem stopping_runStep (hp : s.StoppingSound) (ht : s.Tally) (ht' : s'.Tally)
    (htickle : (s.threads t).tickle = .none) (hs : s.runStep t = some s') :
    s'.StoppingSound ↔ s.Settled (.step t) := by
  constructor
  · intro hsound _ hgives hauto hstopping hqueue hactive
    obtain ⟨hauto', hstopping'⟩ := flags_runStep hs
    have hg := goes_runStep hs
    have hturn : (s.threads t).pc.turn = true ∧ (s'.threads t).pc.turn = false ∧
        (s.threads t).pc ≠ .scan ∧ s.puts (.step t) = [] := by
      have hputs := puts_step htickle
      have hmove := hg.turn
      generalize (s.threads t).pc = pc at hgives hmove hputs
      generalize (s'.threads t).pc = pc' at hmove
      cases hmove with
      | discard => exact ⟨rfl, rfl, (fun h => by cases h), hputs⟩
      | finish hkind => exact ⟨decide_eq_true hkind, rfl, (fun h => by cases h), hputs⟩
      | pick hfin => exact absurd (hgives.symm.trans hfin) (by decide)
      | finishIdle => simp [Pc.gives] at hgives
      | _ => cases hgives
    obtain ⟨hin, hout, hscan, hputs⟩ := hturn
    have hactive' := hg.active fun _ => by omega
    rw [hin, hout, hactive] at hactive'
    refine handed_of_gives hgives hs (hsound ⟨?_, ?_, ?_, ?_⟩).handed
    · rw [hauto', hauto]
    · rw [hstopping', hstopping]
    · rw [queue_runStep htickle hs, left_step hscan, hputs, hqueue]
      rfl
    · simpa using hactive'
  · intro hok hstops
    refine quiet_of_stops ht' hstops ?_
    rcases stops_runStep ht ht' htickle hs hstops with hstops | ⟨hgives, hauto, hstopping, hq, hone⟩
    · exact (hp hstops).handed.runStep hs
    · exact (hok htickle hgives hauto hstopping hq hone).runStep hs

/-- **One step keeps `stopping` sound exactly if it is settled.** -/
theorem stopping_iff (hp : s.StoppingSound) (ht : s.Tally) (hplain : s.Plain)
    (hs : machine.step s a = some s') : s'.StoppingSound ↔ s.Settled a := by
  have ht' := ht.step hs
  have hm := moves_step hs
  have hqueue := queue_step hs
  have hsame : ∀ f, (s.fibers f).state = .ready → (s.fibers f).state = .ready := fun _ => id
  simp only [machine] at hs
  cases a with
  | step t =>
    simp only [Scheduler.step] at hs
    split_ifs at hs with htickle
    · exact stopping_runStep hp ht ht' htickle hs
    · refine iff_of_true ?_ fun h => absurd h htickle
      simp only [Scheduler.tickleStep] at hs
      split at hs
      · cases hs
      · split_ifs at hs <;> cases hs <;>
          exact hp.keep ht' id hsame fun t' => .inl (pc_put rfl)
      · cases hs
        exact hp.keep ht' id hsame fun t' => .inl (pc_put rfl)
  | yield t state =>
    refine iff_of_true (fun hstops => ?_) trivial
    simp only [Scheduler.step] at hs
    split at hs
    · rename_i kind f hpc
      split_ifs at hs
      cases hs
      unfold Tally at ht
      -- a fiber that runs is counted, but for the idle fibers, which do not run here
      have hzero : s.activeThreadCount = 0 := hstops.2.2.2
      rw [hzero] at ht
      have hturn := ht.eq_false t
      simp only [hpc, Pc.turn, decide_eq_false_iff_not, not_not] at hturn
      exact absurd (hturn ▸ hpc) (hplain t f)
    · cases hs
  -- the callbacks leave the timers, and are not in the queue yet
  | listExpiredCb t probe =>
    simp only [Scheduler.step] at hs
    split at hs
    · rename_i f hpc
      obtain ⟨r, hr, rfl⟩ := Option.map_eq_some_iff.mp hs
      constructor
      · intro hsound hstops r' hr' c hc
        obtain rfl := Option.some.inj (hr.symm.trans hr')
        refine (hsound hstops).handed t ?_
        rw [Scheduler.goto, threads_put_self]
        exact ⟨c, hc⟩
      · intro hok hstops
        have hstops₀ : s.stops := hstops
        refine quiet_of_stops ht' hstops ((hp hstops₀).handed.move hsame fun t' => ?_)
        rcases eq_or_ne t' t with rfl | hne
        · refine .inr fun hout => ?_
          rw [Scheduler.goto, threads_put_self] at hout
          obtain ⟨c, hc⟩ := hout
          exact absurd hc (hok hstops₀ r hr c)
        · exact .inl (congrArg Thread.pc (hm.threads t' hne))
    · cases hs
  -- `stop` may come when all is quiet: what holds then holds of this state
  | stop t =>
    simp only [Scheduler.step] at hs
    split_ifs at hs
    cases hs
    constructor
    · intro hsound hq hactive
      exact (hsound ⟨rfl, rfl, hq, hactive⟩).handed
    · intro hok hstops
      exact quiet_of_stops ht' hstops (hok hstops.2.2.1 hstops.2.2.2)
  | start t =>
    refine iff_of_true ?_ trivial
    simp only [Scheduler.step] at hs
    split_ifs at hs
    cases hs
    refine hp.keep ht' id (fun _ => ready_newFiber) fun t' => ?_
    rcases eq_or_ne t' t with rfl | hne
    · refine .inr ?_
      rw [threads_put_self]
      exact id
    · exact .inl (congrArg Thread.pc (hm.threads t' hne))
  | newFiber t =>
    refine iff_of_true ?_ trivial
    simp only [Scheduler.step] at hs
    split_ifs at hs
    cases hs
    exact hp.keep ht' id (fun _ => ready_newFiber) fun t' => .inl rfl
  | schedule t tasks | trigger t task =>
    refine iff_of_true ?_ trivial
    simp only [Scheduler.step] at hs
    split_ifs at hs
    cases hs
    refine hp.keep ht' (fun hstops => ?_) hsame fun t' => .inl pc_schedule
    obtain ⟨hauto, hstopping, hq, hactive⟩ := hstops
    rw [hqueue] at hq
    exact ⟨hauto, hstopping, (List.append_eq_nil_iff.mp hq).1, hactive⟩
  | tickle t =>
    refine iff_of_true ?_ trivial
    simp only [Scheduler.step] at hs
    split_ifs at hs
    cases hs
    exact hp.keep ht' id hsame fun t' => .inl (pc_put rfl)
  | addTimer t ms cb recurring addr =>
    refine iff_of_true ?_ trivial
    simp only [Scheduler.step] at hs
    split_ifs at hs
    obtain ⟨r, -, rfl⟩ := Option.map_eq_some_iff.mp hs
    exact hp.keep ht' id hsame fun t' => .inl (pc_put rfl)
  | wake t interrupted =>
    refine iff_of_true ?_ trivial
    simp only [Scheduler.step] at hs
    split at hs
    · cases hs
      refine hp.keep ht' id hsame fun t' => ?_
      rcases eq_or_ne t' t with rfl | hne
      · refine .inr ?_
        rw [Scheduler.goto, threads_put_self]
        cases interrupted <;> exact id
      · exact .inl (congrArg Thread.pc (hm.threads t' hne))
    · cases hs
  | cancel t i =>
    refine iff_of_true ?_ trivial
    simp only [Scheduler.step] at hs
    split_ifs at hs
    obtain ⟨r, -, rfl⟩ := Option.map_eq_some_iff.mp hs
    exact hp.keep ht' id hsame fun t' => .inl rfl
  | drain t =>
    refine iff_of_true ?_ trivial
    simp only [Scheduler.step] at hs
    split_ifs at hs
    cases hs
    exact hp.keep ht' id hsame fun t' => .inl rfl
  | events n | clock n =>
    refine iff_of_true ?_ trivial
    cases hs
    exact hp.keep ht' id hsame fun t' => .inl rfl

/-! ## Runs -/

/-- **`stopping` is sound exactly in the runs whose steps are settled.** -/
theorem stopping_sound_iff {now : ℕ} {as : List Action} (hrun : machine.run (new now) as = some s) :
    machine.Keeps StoppingSound (new now) as ↔ machine.Meets Settled (new now) as := by
  refine Machine.keeps_iff_meets (I := fun s => s.Tally ∧ s.Plain)
    (fun s a s' h hs => ⟨h.1.step hs, h.2.step hs⟩)
    (fun s a s' h hp hs => stopping_iff hp h.1 h.2 hs) ⟨tally_new now, fun _ _ h => by cases h⟩
    (fun _ => ⟨rfl, fun _ => rfl, fun _ h => h⟩) hrun

/-- A stop that is requested while a thread runs a fiber. -/
def stopRun : List Action :=
  [.start 0, .newFiber 2, .schedule 2 [(some (.fiber 1), none)], .step 0, .step 0, .step 0, .step 0,
    .stop 3]

theorem stopping_sound_iff_stop :
    machine.Keeps StoppingSound (new 0) stopRun ↔ machine.Meets Settled (new 0) stopRun :=
  stopping_sound_iff rfl

/-- **`stopping` is true while a fiber waits to be put back**: thread 0 has given up the count of a
fiber that yielded `READY` when the idle fiber of thread 1 looks at the queue and the count, finds
both empty and ends its loop. -/
theorem ready_fiber_unseen : ∃ s s', machine.run (new 0) [.start 0, .start 1, .newFiber 2,
      .schedule 2 [(some (.fiber 2), none)], .step 0, .step 0, .step 0, .step 0,
      .step 1, .step 1, .step 1, .step 1, .step 1, .step 1, .stop 3,
      .yield 0 .ready, .step 0, .step 0, .step 0] = some s ∧
    machine.step s (.step 1) = some s' ∧ (s'.threads 1).pc = .idle .finish 1 ∧
    (s.threads 0).pc = .ready .fiber 2 ∧ ¬ s.StoppingSound := by
  refine ⟨_, _, rfl, rfl, rfl, rfl, fun h => ?_⟩
  exact (h ⟨rfl, rfl, rfl, rfl⟩).handed 0 trivial

/-- The callback of an expired timer, on its way from the timers to the queue. -/
theorem expired_callback_unseen : ∃ s, machine.run (new 0) [.start 0, .start 1,
      .addTimer 2 5 (some 7) false 1, .step 0, .step 0, .step 0, .step 0,
      .step 0, .step 0, .step 0, .stop 3, .clock 5, .wake 0 false, .listExpiredCb 0 2] = some s ∧
    (s.threads 0).pc = .idle (.cbs [some 7]) 0 ∧ ¬ s.StoppingSound := by
  refine ⟨_, rfl, rfl, fun h => ?_⟩
  exact (h ⟨rfl, rfl, rfl, rfl⟩).handed 0 ⟨7, List.mem_cons_self⟩

end Scheduler

end Sylar

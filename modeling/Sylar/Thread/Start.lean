import Sylar.Foundation.Transition
import Mathlib.Data.List.Range
import Mathlib.Logic.Function.Basic

/-!
# The start of a scheduler's threads

`Scheduler::start` builds its threads under the scheduler's mutex and keeps the id of each. The
constructor of `Thread` waits for a semaphore, which the new thread notifies when it has stored its
id, taken the callback and will not look at the object again; the callback, `Scheduler::run`, takes
the scheduler's mutex. So the ids are there, `start` does not wait for a thread that waits for it,
and an object may be destroyed at any time behind `start`.

## Main definitions

* `Worker`: a `Thread` with its thread
* `Starting.step`: the steps of `start`, of the threads, and of the owner of the objects
* `Starts`: what the start is for

## Main results

* `start_sound`: the ids and the callbacks, over every run, in which nothing is stuck
-/

namespace Sylar

open Foundation

/-- Where a thread is in `Thread::run`, by its next step. -/
inductive Worker.Pc
  /-- `t_thread`, and `t_thread_name = thread->m_name`. -/
  | name
  /-- `thread->m_id = GetThreadId()`. -/
  | id
  /-- `pthread_setname_np`. -/
  | setname
  /-- `cb.swap(thread->m_cb)`. -/
  | swap
  /-- `thread->m_semaphore.notify()`. -/
  | notify
  /-- `cb()`. -/
  | call
  /-- In `cb()`, which takes the scheduler's mutex. -/
  | running
  | done
  deriving DecidableEq, Repr

/-- A `Thread` with its thread: the object as long as it is `alive`, and the locals of `run`, `cb`
among them. -/
structure Worker where
  alive : Bool := true
  m_id : Option ℕ := none
  m_cb : Bool := true
  m_semaphore : ℕ := 0
  pc : Worker.Pc := .name
  cb : Bool := false
  calls : ℕ := 0
  deriving DecidableEq, Repr

/-- A scheduler that starts `m_threadCount` threads; `waiting` is whether `start` waits for the last
thread it has created, and `m_threads` are those that it has. -/
structure Starting where
  m_threadCount : ℕ
  m_threads : ℕ → Worker
  created : ℕ
  waiting : Bool
  m_threadIds : List (Option ℕ)

namespace Starting

/-- `start` has returned, and unlocked the scheduler's mutex. -/
def returned (s : Starting) : Bool := s.created = s.m_threadCount ∧ s.waiting = false

def new (m_threadCount : ℕ) : Starting where
  m_threadCount := m_threadCount
  m_threads := fun _ => {}
  created := 0
  waiting := false
  m_threadIds := []

def put (s : Starting) (i : ℕ) (w : Worker) : Starting :=
  { s with m_threads := Function.update s.m_threads i w }

/-- The next step of a thread with the id `tid`; a look at an object that is gone leads nowhere. -/
def advance (s : Starting) (tid : ℕ) (w : Worker) : Option Worker :=
  match w.pc with
  | .name => if w.alive then some { w with pc := .id } else none
  | .id => if w.alive then some { w with m_id := some tid, pc := .setname } else none
  | .setname => if w.alive then some { w with pc := .swap } else none
  | .swap => if w.alive then some { w with cb := w.m_cb, m_cb := w.cb, pc := .notify } else none
  | .notify =>
    if w.alive then some { w with m_semaphore := w.m_semaphore + 1, pc := .call } else none
  | .call => if w.cb then some { w with calls := w.calls + 1, pc := .running } else none
  -- the scheduler's mutex is locked until `start` returns
  | .running => if s.returned then some { w with pc := .done } else none
  | .done => none

/-- `start` creates the next thread, or its wait for the last one ends; a thread goes on; and behind
`start`, the owner of an object destroys it, which detaches its thread. -/
inductive Action
  | start
  | run (i : ℕ)
  | destroy (i : ℕ)
  deriving DecidableEq, Repr

/-- A step, where the `i`-th thread has the id `tid i`. -/
def step (tid : ℕ → ℕ) (s : Starting) : Action → Option Starting
  | .start =>
    if s.waiting then
      let i := s.created - 1
      let w := s.m_threads i
      if 0 < w.m_semaphore then
        some { s.put i { w with m_semaphore := w.m_semaphore - 1 } with
          waiting := false
          m_threadIds := s.m_threadIds ++ [w.m_id] }
      else none
    else if s.created < s.m_threadCount then
      some { s.put s.created {} with created := s.created + 1, waiting := true }
    else none
  | .run i =>
    if i < s.created then (s.advance (tid i) (s.m_threads i)).map (s.put i) else none
  | .destroy i =>
    if s.returned ∧ i < s.created ∧ (s.m_threads i).alive then
      some (s.put i { s.m_threads i with alive := false })
    else none

def machine (tid : ℕ → ℕ) : Machine Starting Action := ⟨step tid⟩

/-! ## The invariant -/

/-- How many steps a thread has made. -/
def rank : Worker.Pc → ℕ
  | .name => 0
  | .id => 1
  | .setname => 2
  | .swap => 3
  | .notify => 4
  | .call => 5
  | .running => 6
  | .done => 7

/-- A thread and its object, for whose semaphore `start` has waited or not. -/
structure WorkerSound (tid : ℕ) (waited : Bool) (w : Worker) : Prop where
  m_id : w.m_id = if 2 ≤ rank w.pc then some tid else none
  m_cb : w.m_cb = decide (rank w.pc < 4)
  cb : w.cb = decide (4 ≤ rank w.pc)
  calls : w.calls = if 6 ≤ rank w.pc then 1 else 0
  m_semaphore : w.m_semaphore = if 5 ≤ rank w.pc ∧ waited = false then 1 else 0
  notified : waited = true → 5 ≤ rank w.pc
  alive : rank w.pc < 5 → w.alive = true

/-- `start` has waited for the `i`-th thread. -/
def waited (s : Starting) (i : ℕ) : Bool := !(s.waiting && i + 1 == s.created)

/-- The invariant of the start. -/
structure Sound (tid : ℕ → ℕ) (s : Starting) : Prop where
  le : s.created ≤ s.m_threadCount
  pos : s.waiting = true → 0 < s.created
  worker : ∀ i < s.created, WorkerSound (tid i) (s.waited i) (s.m_threads i)
  alive : s.returned = false → ∀ i < s.created, (s.m_threads i).alive = true
  ids : s.m_threadIds =
    (List.range (s.created - if s.waiting then 1 else 0)).map fun i => some (tid i)

variable {tid : ℕ → ℕ} {s s' : Starting}

theorem sound_new (n : ℕ) : Sound tid (new n) where
  le := Nat.zero_le n
  pos h := nomatch h
  worker i hi := absurd hi (Nat.not_lt_zero i)
  alive _ i hi := absurd hi (Nat.not_lt_zero i)
  ids := rfl

/-- A step of a thread keeps what is about it, and the object. -/
theorem WorkerSound.advance {w w' : Worker} {t : ℕ} {b : Bool} (hw : WorkerSound t b w)
    (h : s.advance t w = some w') : WorkerSound t b w' ∧ w'.alive = w.alive := by
  obtain ⟨h₁, h₂, h₃, h₄, h₅, h₆, h₇⟩ := hw
  unfold Starting.advance at h
  cases hpc : w.pc <;> simp only [hpc] at h <;> try split_ifs at h
  all_goals try (simp only [reduceCtorEq] at h)
  all_goals
    obtain rfl := Option.some.inj h
    refine ⟨⟨?_, ?_, ?_, ?_, ?_, ?_, ?_⟩, rfl⟩ <;> simp_all [rank]

/-- `start` creates a thread. -/
theorem Sound.create (hs : Sound tid s) (hwaiting : s.waiting = false)
    (hlt : s.created < s.m_threadCount) :
    Sound tid { s.put s.created {} with created := s.created + 1, waiting := true } := by
  have hret : s.returned = false := by simp [returned, hlt.ne]
  refine ⟨hlt, fun _ => Nat.succ_pos _, fun i hi => ?_, fun _ i hi => ?_, ?_⟩
  · by_cases h : i = s.created
    · subst h
      refine ⟨?_, ?_, ?_, ?_, ?_, ?_, ?_⟩ <;> simp [put, rank, waited]
    · have hi : i < s.created + 1 := hi
      have hw := hs.worker i (by omega)
      have hne : (i == s.created) = false := by simpa using h
      simpa [put, h, hne, waited, hwaiting] using hw
  · by_cases h : i = s.created
    · simp [put, h]
    · have hi : i < s.created + 1 := hi
      simpa [put, h] using hs.alive hret i (by omega)
  · simpa [put, hwaiting] using hs.ids

/-- The wait of `start` for its last thread ends. -/
theorem Sound.wait (hs : Sound tid s) (hwaiting : s.waiting = true) {w : Worker}
    (hw : w = s.m_threads (s.created - 1)) (hsem : 0 < w.m_semaphore) :
    Sound tid { s.put (s.created - 1) { w with m_semaphore := w.m_semaphore - 1 } with
      waiting := false
      m_threadIds := s.m_threadIds ++ [w.m_id] } := by
  have hpos := hs.pos hwaiting
  have hret : s.returned = false := by simp [returned, hwaiting]
  have hlast := hs.worker (s.created - 1) (by omega)
  rw [← hw] at hlast
  have hrank : 5 ≤ rank w.pc := by
    by_contra h
    simp [hlast.m_semaphore, h] at hsem
  refine ⟨hs.le, fun h => (nomatch h), fun i hi => ?_, fun _ i hi => ?_, ?_⟩
  · by_cases h : i = s.created - 1
    · subst h
      obtain ⟨h₁, h₂, h₃, h₄, h₅, -, h₇⟩ := hlast
      have h₅' : w.m_semaphore ≤ 1 := by
        rw [h₅]
        split_ifs <;> omega
      refine ⟨?_, ?_, ?_, ?_, ?_, ?_, ?_⟩
      · simpa [put] using h₁
      · simpa [put] using h₂
      · simpa [put] using h₃
      · simpa [put] using h₄
      · have : w.m_semaphore - 1 = 0 := by omega
        simpa [put, waited] using this
      · exact fun _ => by simpa [put] using hrank
      · simpa [put] using h₇
    · have hi : i < s.created := hi
      have h' := hs.worker i hi
      have hne : (i + 1 == s.created) = false := by
        simp only [beq_eq_false_iff_ne]
        omega
      simpa [put, h, waited, hne] using h'
  · have h' := hs.alive hret i hi
    by_cases h : i = s.created - 1
    · subst h
      simpa [put, hw] using h'
    · simpa [put, h] using h'
  · have hid : w.m_id = some (tid (s.created - 1)) := by
      rw [hlast.m_id, if_pos (by omega)]
    have hrange : List.range s.created = List.range (s.created - 1) ++ [s.created - 1] := by
      rw [← List.range_succ]
      congr 1
      omega
    simp [put, hs.ids, hwaiting, hid, hrange]

/-- A step of one thread, or the end of its object. -/
theorem Sound.put (hs : Sound tid s) {i : ℕ} {w : Worker}
    (hw : i < s.created → WorkerSound (tid i) (s.waited i) w)
    (halive : s.returned = false → i < s.created → w.alive = true) : Sound tid (s.put i w) := by
  refine ⟨hs.le, hs.pos, fun j hj => ?_, fun hret j hj => ?_, hs.ids⟩
  · by_cases h : j = i
    · subst h
      simpa [Starting.put, waited] using hw hj
    · simpa [Starting.put, waited, h] using hs.worker j hj
  · by_cases h : j = i
    · subst h
      simpa [Starting.put] using halive hret hj
    · simpa [Starting.put, h] using hs.alive hret j hj

theorem step_sound {a : Action} (hs : Sound tid s) (h : s.step tid a = some s') :
    Sound tid s' := by
  cases a with
  | start =>
    simp only [step] at h
    split_ifs at h with hwaiting hsem hlt
    · exact Option.some.inj h ▸ hs.wait hwaiting rfl hsem
    · exact Option.some.inj h ▸ hs.create (by simpa using hwaiting) hlt
  | run i =>
    simp only [step] at h
    split_ifs at h with hi
    obtain ⟨w, hw, rfl⟩ := Option.map_eq_some_iff.mp h
    obtain ⟨hsound, halive⟩ := (hs.worker i hi).advance hw
    exact hs.put (fun _ => hsound) fun hret _ => halive.trans (hs.alive hret i hi)
  | destroy i =>
    simp only [step] at h
    split_ifs at h with hdestroy
    obtain ⟨hret, hi, -⟩ := hdestroy
    obtain rfl := Option.some.inj h
    refine hs.put (fun _ => ?_) fun hret' => by simp [hret] at hret'
    obtain ⟨h₁, h₂, h₃, h₄, h₅, h₆, -⟩ := hs.worker i hi
    -- behind `start`, every thread has notified its semaphore
    have hwaited : s.waited i = true := by
      have : s.waiting = false := by simpa [returned] using (of_decide_eq_true hret).2
      simp [waited, this]
    exact ⟨h₁, h₂, h₃, h₄, h₅, h₆, fun h => absurd (h₆ hwaited) (by simpa using h)⟩

/-- What the start of the threads is for. -/
structure Starts (tid : ℕ → ℕ) (s : Starting) : Prop where
  /-- `m_threadIds` are the ids of the threads, in order, with that of the last one when `start` has
  waited for it. -/
  ids : s.m_threadIds =
    (List.range (s.created - if s.waiting then 1 else 0)).map fun i => some (tid i)
  /-- A thread calls its callback once. -/
  calls : ∀ i < s.created, (s.m_threads i).calls ≤ 1 ∧
    ((s.m_threads i).pc = .done → (s.m_threads i).calls = 1)
  /-- A thread can go on to its end, but waits in the callback for `start` to return; so it never
  looks at an object that is gone. -/
  goes_on : ∀ i < s.created, (s.m_threads i).pc ≠ .done →
    ((s.m_threads i).pc = .running → s.returned = true) → (s.step tid (.run i)).isSome
  /-- Before `start` has returned, it or a thread can go on. -/
  returns : s.returned = false → ∃ a, (a = .start ∨ ∃ i, a = .run i) ∧ (s.step tid a).isSome

theorem WorkerSound.isSome_advance {w : Worker} {t : ℕ} {b : Bool} (hw : WorkerSound t b w)
    (hdone : w.pc ≠ .done) (hrunning : w.pc = .running → s.returned = true) :
    (s.advance t w).isSome := by
  have halive := hw.alive
  have hcb := hw.cb
  unfold Starting.advance
  cases hpc : w.pc with
  | name => simp [halive (by simp [hpc, rank])]
  | id => simp [halive (by simp [hpc, rank])]
  | setname => simp [halive (by simp [hpc, rank])]
  | swap => simp [halive (by simp [hpc, rank])]
  | notify => simp [halive (by simp [hpc, rank])]
  | call =>
    have hcb : w.cb = true := by simpa [hpc, rank] using hcb
    simp [hcb]
  | running => simp [hrunning hpc]
  | done => exact absurd hpc hdone

/-- **The start of the threads** of a scheduler, over every run. -/
theorem start_sound {n : ℕ} {as : List Action} (h : (machine tid).run (new n) as = some s) :
    Starts tid s := by
  have hs : Sound tid s :=
    (Machine.reaches_of_run h).invariant (sound_new n) fun _ _ _ hs _ => step_sound hs
  have hrun (i : ℕ) (hi : i < s.created) (hdone : (s.m_threads i).pc ≠ .done)
      (hrunning : (s.m_threads i).pc = .running → s.returned = true) :
      (s.step tid (.run i)).isSome := by
    have := (hs.worker i hi).isSome_advance hdone hrunning
    simpa [step, hi] using this
  refine ⟨hs.ids, fun i hi => ?_, hrun, fun hret => ?_⟩
  · rw [(hs.worker i hi).calls]
    refine ⟨by split_ifs <;> omega, fun hpc => ?_⟩
    simp [hpc, rank]
  cases hwaiting : s.waiting with
  | false =>
    have hne : s.created ≠ s.m_threadCount := by simpa [returned, hwaiting] using hret
    exact ⟨.start, .inl rfl, by simp [step, hwaiting, lt_of_le_of_ne hs.le hne]⟩
  | true =>
    have hpos := hs.pos hwaiting
    have hlast := hs.worker (s.created - 1) (by omega)
    by_cases hrank : 5 ≤ rank (s.m_threads (s.created - 1)).pc
    · have hwaited : s.waited (s.created - 1) = false := by
        simp [waited, hwaiting, Nat.sub_add_cancel hpos]
      have hsem : 0 < (s.m_threads (s.created - 1)).m_semaphore := by
        simp [hlast.m_semaphore, hrank, hwaited]
      exact ⟨.start, .inl rfl, by simp [step, hwaiting, hsem]⟩
    · -- the thread has still to notify its semaphore, and nothing keeps it from that
      refine ⟨.run _, .inr ⟨_, rfl⟩, hrun (s.created - 1) (by omega) ?_ ?_⟩ <;>
        intro hpc <;> simp [hpc, rank] at hrank

/-- Two threads, of which the first has ended and is destroyed while the second runs. -/
theorem start_sound_two : ∃ s, (machine fun i => 100 + i).run (new 2) [.start, .run 0, .run 0,
    .run 0, .run 0, .run 0, .start, .start, .run 0, .run 1, .run 1, .run 1, .run 1, .run 1,
    .start, .run 0, .destroy 0, .run 1] = some s ∧ Starts (fun i => 100 + i) s :=
  have h := Option.some_get (x := (machine fun i => 100 + i).run (new 2) [.start, .run 0, .run 0,
    .run 0, .run 0, .run 0, .start, .start, .run 0, .run 1, .run 1, .run 1, .run 1, .run 1,
    .start, .run 0, .destroy 0, .run 1]) (by decide)
  ⟨_, h.symm, start_sound h.symm⟩

end Starting

end Sylar

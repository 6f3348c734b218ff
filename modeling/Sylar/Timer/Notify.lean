import Sylar.Timer.Invariant

/-!
# Notifications of new front timers

Threads ask for the first deadline and sleep until then; a timer that is put in front of it must
wake them. One flag of the manager, shared by all of them, keeps `onTimerInsertedAtFront` from being
called again before the next question, and only insertions look at it: a refreshed timer, and a
recurring one that has expired, go back to the set without a notification.

A call runs in atomic steps: the reading of the clock, and each section under the lock of the
manager. The clock of the sections that read it under the lock is the present one; `addTimer` and
`listExpiredCb` read it before.

## Main definitions

* `Pc`, `Notifier`, `Notifier.machine`: the calls of all threads, interleaved
* `Poll`, `watched`: what a thread saw when it last asked, and whether it was notified since
* `Served`: no timer is earlier than what a thread saw, or it is notified

## Main results

* `addTimerPtr_front`: an insertion that does not notify is behind another timer, or after a
  notification
* `Inv.step`: every step keeps the invariant
* `served_of_reach`: every thread is served in every state of a run
-/

namespace Sylar

open Foundation

namespace TimerManager

variable {β : Type} {m m' : TimerManager β} {i j now : ℕ}

/-- Where a thread is in a call: `now` is the reading of the clock. -/
inductive Pc (β : Type)
  | idle
  | addTimer (now ms : ℕ) (cb : Option β) (recurring : Bool) (addr : ℕ)
  | listExpiredCb (now : ℕ)
  | expire (now : ℕ)
  /-- The lock is released, and `onTimerInsertedAtFront` is not called yet. -/
  | notify

/-- The clock reading of a call. -/
def Pc.now? : Pc β → Option ℕ
  | .addTimer now .. | .listExpiredCb now | .expire now => some now
  | .idle | .notify => none

/-- The manager with a clock and the calls of its threads. -/
structure Notifier (β : Type) where
  manager : TimerManager β
  clock : ℕ
  threads : ℕ → Pc β

namespace Notifier

/-- A step of the clock or of a thread. -/
inductive Action (β : Type)
  | tick (ms : ℕ)
  | newTimer (t ms : ℕ) (cb : Option β) (recurring : Bool) (addr : ℕ)
  | addTimer (t : ℕ)
  | cancel (t i : ℕ)
  | refresh (t i : ℕ)
  | reset (t i ms : ℕ) (from_now : Bool)
  | getNextTimer (t : ℕ)
  | listExpiredCb (t : ℕ)
  | empty (t : ℕ)
  | expire (t probe : ℕ)
  | onTimerInsertedAtFront (t : ℕ)

/-- The constructor, at a clock reading. -/
def new (now : ℕ) : Notifier β where
  manager := .new now
  clock := now
  threads := fun _ => .idle

def goto (s : Notifier β) (t : ℕ) (pc : Pc β) : Notifier β :=
  { s with threads := Function.update s.threads t pc }

/-- Where `addTimer(val, lock)` leaves its thread. -/
def afterInsert (at_front : Bool) : Pc β := if at_front then .notify else .idle

/-- The step of a thread, when it is where the step starts. -/
def step (s : Notifier β) : Action β → Option (Notifier β)
  | .tick ms => some { s with clock := s.clock + ms }
  | .newTimer t ms cb recurring addr =>
    match s.threads t with
    | .idle => some (s.goto t (.addTimer s.clock ms cb recurring addr))
    | _ => none
  | .addTimer t =>
    match s.threads t with
    | .addTimer now ms cb recurring addr =>
      (s.manager.addTimer now ms cb recurring addr).map fun r =>
        { s with manager := r.2 }.goto t (afterInsert r.1.2)
    | _ => none
  | .cancel t i =>
    match s.threads t with
    | .idle =>
      if i < s.manager.created then
        (s.manager.cancel i).map fun r => { s with manager := r.2 }
      else none
    | _ => none
  | .refresh t i =>
    match s.threads t with
    | .idle =>
      if i < s.manager.created then
        (s.manager.refresh s.clock i).map fun r => { s with manager := r.2 }
      else none
    | _ => none
  | .reset t i ms from_now =>
    match s.threads t with
    | .idle =>
      if i < s.manager.created then
        (s.manager.reset s.clock i ms from_now).map fun r =>
          { s with manager := r.2 }.goto t (afterInsert r.1.2)
      else none
    | _ => none
  | .getNextTimer t =>
    match s.threads t with
    | .idle => some { s with manager := (s.manager.getNextTimer s.clock).2 }
    | _ => none
  | .listExpiredCb t =>
    match s.threads t with
    | .idle => some (s.goto t (.listExpiredCb s.clock))
    | _ => none
  | .empty t =>
    match s.threads t with
    | .listExpiredCb now =>
      some (s.goto t (if s.manager.timers.isEmpty then .idle else .expire now))
    | _ => none
  | .expire t probe =>
    match s.threads t with
    | .expire now =>
      (s.manager.expire now probe).map fun r => { s with manager := r.2 }.goto t .idle
    | _ => none
  | .onTimerInsertedAtFront t =>
    match s.threads t with
    | .notify => some (s.goto t .idle)
    | _ => none

/-- The machine of the interleaved calls. -/
def machine (β : Type) : Machine (Notifier β) (Action β) where
  step := step

/-! ## What a thread saw -/

/-- What a thread saw when it last called `getNextTimer`: the first deadline, if there was a timer,
and whether `onTimerInsertedAtFront` was called since. -/
structure Poll where
  deadline : Option ℕ
  called : Bool := false

/-- The first deadline. -/
def front (m : TimerManager β) : Option ℕ := m.timers.head?.map fun i => (m.heap i).next

/-- The history of the questions, by thread. -/
def watched (s : Notifier β) (a : Action β) (polls : ℕ → Option Poll) : ℕ → Option Poll :=
  match a with
  | .getNextTimer t => Function.update polls t (some { deadline := front s.manager })
  | .onTimerInsertedAtFront _ => fun t => (polls t).map ({ · with called := true })
  | _ => polls

/-- **A thread is served**: no timer is earlier than the deadline it saw, or
`onTimerInsertedAtFront` was called since, or a thread is about to call it. -/
def Served (s : Notifier β) (poll : Poll) : Prop :=
  (∀ i ∈ s.manager.timers, ∃ d ∈ poll.deadline, d ≤ (s.manager.heap i).next) ∨
    poll.called = true ∨ ∃ t, s.threads t = .notify

/-- No clock reading plus an interval overflows, and the clock does not roll over. -/
def Fits (s : Notifier β) : Action β → Prop
  | .addTimer t =>
    match s.threads t with
    | .addTimer now ms .. => now + ms < 2 ^ 64
    | _ => True
  | .refresh _ i => (s.manager.heap i).cb.isSome → s.clock + (s.manager.heap i).ms < 2 ^ 64
  | .reset _ i ms from_now => (s.manager.heap i).cb.isSome →
    (if from_now then s.clock else (s.manager.heap i).next - (s.manager.heap i).ms) + ms < 2 ^ 64
  | .expire t _ =>
    match s.threads t with
    | .expire now => s.manager.rollover now = false ∧
      ∀ i ∈ s.manager.timers, (s.manager.heap i).recurring = true →
        now + (s.manager.heap i).ms < 2 ^ 64
    | _ => True
  | _ => True

end Notifier

/-! ## The sections -/

theorem u64_eq {n : ℕ} (h : n < 2 ^ 64) : u64 n = n := Nat.mod_eq_of_lt h

theorem u64Sub_eq {a b : ℕ} (hle : b ≤ a) (ha : a < 2 ^ 64) : u64Sub a b = a - b := by
  unfold u64Sub u64
  omega

/-- The deadlines are those of an interval that began before the present. -/
def Timed (clock : ℕ) (m : TimerManager β) : Prop :=
  ∀ i ∈ m.timers, (m.heap i).ms ≤ (m.heap i).next ∧ (m.heap i).next ≤ clock + (m.heap i).ms ∧
    (m.heap i).next < 2 ^ 64

/-- No timer is new or earlier, and the flag is as it was. -/
structure Later (m m' : TimerManager β) : Prop where
  tickled : m'.tickled = m.tickled
  timers : ∀ i ∈ m'.timers, i ∈ m.timers ∧ (m.heap i).next ≤ (m'.heap i).next

theorem Later.refl : Later m m := ⟨rfl, fun _ hi => ⟨hi, Nat.le_refl _⟩⟩

/-- No timer is earlier than all there were, unless the flag was set or `at_front` says so. -/
structure Behind (m m' : TimerManager β) (at_front : Bool) : Prop where
  tickled : m'.tickled = (m.tickled || at_front)
  timers : m.tickled = false → at_front = false → ∀ i ∈ m'.timers,
    ∃ j ∈ m.timers, (m.heap j).next ≤ (m'.heap i).next

theorem Later.behind (h : Later m m') : Behind m m' false where
  tickled := by rw [h.tickled, Bool.or_false]
  timers := fun _ _ i hi => ⟨i, h.timers i hi⟩

@[simp] theorem tickled_addTimerPtr (m : TimerManager β) (i : ℕ) :
    (m.addTimerPtr i).2.tickled = (m.tickled || (m.addTimerPtr i).1) := by
  simp only [addTimerPtr]
  cases h : m.tickled <;> split_ifs <;> simp_all [TimerManager.insert]

/-- **An insertion without a notification**: the flag is set, or another timer is in front. -/
theorem addTimerPtr_front (h : m.Ordered) (hi : i < m.created)
    (ha : ∀ j ∈ m.timers, (m.heap i).addr ≠ (m.heap j).addr)
    (hfront : (m.addTimerPtr i).1 = false) :
    m.tickled = true ∨ ∃ j ∈ m.timers, (m.heap j).next ≤ (m.heap i).next := by
  have hmem := fun j => Ordered.mem_insert (j := j) ha
  have hsorted := (h.insert hi ha).sorted
  simp only [addTimerPtr, Bool.and_eq_false_iff, Bool.not_eq_false'] at hfront
  refine hfront.symm.imp id fun hnot => ?_
  cases htimers : (m.insert i).timers with
  | nil =>
    have hmem' := (hmem i).mpr (.inl rfl)
    rw [htimers] at hmem'
    cases hmem'
  | cons j rest =>
    rw [htimers] at hnot hsorted
    have hne : j ≠ i := by
      rintro rfl
      have hsame : Same m.less j j := ⟨m.less_irrefl j, m.less_irrefl j⟩
      simp only [List.head?_cons, Option.any_some, decide_eq_false_iff_not] at hnot
      exact hnot hsame
    have hj : j ∈ m.timers := ((hmem j).mp (htimers ▸ List.mem_cons_self)).resolve_left hne
    have hless : m.less j i := by
      refine (List.pairwise_cons.mp hsorted).1 i ?_
      have hmem' := (hmem i).mpr (.inl rfl)
      rw [htimers, List.mem_cons] at hmem'
      exact hmem'.resolve_left hne.symm
    rw [less_iff] at hless
    exact ⟨j, hj, by omega⟩

theorem later_cancel (wf : m.Wf) {clock : ℕ} (ht : m.Timed clock) {r : Bool × TimerManager β}
    (hr : m.cancel i = some r) : Later m r.2 ∧ r.2.Timed clock := by
  cases h : (m.heap i).cb with
  | none =>
    rw [cancel_empty h] at hr
    cases hr
    exact ⟨.refl, ht⟩
  | some cb =>
    obtain ⟨m', hm', hl⟩ := cancel_spec wf (i := i) (by simp [h])
    obtain rfl := Option.some.inj (hm'.symm.trans hr)
    have hsame : ∀ j ∈ m'.timers, j ∈ m.timers ∧ m'.heap j = m.heap j := by
      intro j hj
      obtain ⟨hne, hj⟩ := (hl.mem j).mp hj
      exact ⟨hj, by rw [hl.heap, if_neg hne]⟩
    refine ⟨⟨?_, fun j hj => ?_⟩, fun j hj => ?_⟩
    · simp only [TimerManager.cancel] at hm'
      split_ifs at hm'
      all_goals cases hm'
      rfl
    · obtain ⟨hmem, heq⟩ := hsame j hj
      exact ⟨hmem, by rw [heq]⟩
    · obtain ⟨hmem, heq⟩ := hsame j hj
      rw [heq]
      exact ht j hmem

theorem later_refresh (wf : m.Wf) {clock : ℕ} (ht : m.Timed clock)
    (hfits : (m.heap i).cb.isSome → clock + (m.heap i).ms < 2 ^ 64) {r : Bool × TimerManager β}
    (hr : m.refresh clock i = some r) : Later m r.2 ∧ r.2.Timed clock := by
  cases h : (m.heap i).cb with
  | none =>
    rw [refresh_empty h] at hr
    cases hr
    exact ⟨.refl, ht⟩
  | some cb =>
    have hsome : (m.heap i).cb.isSome := by simp [h]
    obtain ⟨m', hm', hl⟩ := refresh_spec clock wf hsome
    obtain rfl := Option.some.inj (hm'.symm.trans hr)
    obtain ⟨-, hle, -⟩ := ht i (wf.armed i hsome)
    have hnext := u64_eq (hfits hsome)
    refine ⟨⟨?_, fun j hj => ?_⟩, fun j hj => ?_⟩
    · simp only [TimerManager.refresh] at hm'
      split_ifs at hm'
      all_goals cases hm'
      rfl
    · refine ⟨(hl.mem j).mp hj, ?_⟩
      rw [hl.heap]
      split_ifs with hji
      · rw [hji, hnext]
        exact hle
      · exact Nat.le_refl _
    · rw [hl.heap]
      split_ifs with hji
      · simp only [hnext]
        exact ⟨Nat.le_add_left _ _, Nat.le_refl _, hfits hsome⟩
      · exact ht j ((hl.mem j).mp hj)

theorem tickled_fire (now : ℕ) (es : List ℕ) (m : TimerManager β) :
    (fire now es m).2.tickled = m.tickled := by
  induction es generalizing m with
  | nil => rfl
  | cons i es ih =>
    rw [fire, ih, fireOne]
    split_ifs <;> rfl

theorem tickled_expire {probe : ℕ} {r : (List ℕ × List (Option β)) × TimerManager β}
    (hr : m.expire now probe = some r) : r.2.tickled = m.tickled := by
  simp only [expire] at hr
  split_ifs at hr
  · cases hr
    exact tickled_fire ..
  · split at hr
    · cases hr
    · split_ifs at hr <;> cases hr
      · rfl
      · exact tickled_fire ..

/-- A recurring timer that has expired comes back with a later deadline. -/
theorem later_expire (wf : m.Wf) {clock probe : ℕ} (ht : m.Timed clock) (hnow : now ≤ clock)
    (hroll : m.rollover now = false)
    (hfits : ∀ i ∈ m.timers, (m.heap i).recurring = true → now + (m.heap i).ms < 2 ^ 64)
    {r : (List ℕ × List (Option β)) × TimerManager β} (hr : m.expire now probe = some r) :
    Later m r.2 ∧ r.2.Timed clock ∧ r.2.Wf := by
  have hne : m.timers.isEmpty = false := by
    cases htimers : m.timers with
    | nil => simp [expire, hroll, htimers] at hr
    | cons => rfl
  have hlist : m.listExpiredCb now probe = some r := by
    rw [listExpiredCb, hne]
    exact hr
  obtain ⟨m', hm', hl⟩ := listExpiredCb_spec wf.toOrdered now probe
  obtain rfl := Option.some.inj (hm'.symm.trans hlist)
  have hdue : ∀ j ∈ m.due now, (m.heap j).next ≤ now := by
    intro j hj
    rw [due, hroll, if_neg (by decide), List.mem_filter] at hj
    exact of_decide_eq_true hj.2
  refine ⟨⟨tickled_expire hr, fun j hj => ?_⟩, fun j hj => ?_, wf.listExpiredCb hlist⟩
  · obtain ⟨hmem, hkeep⟩ := (hl.mem j).mp hj
    refine ⟨hmem, ?_⟩
    rw [hl.heap]
    split_ifs with hjdue
    · have hrec := hkeep.resolve_left (not_not.mpr hjdue)
      rw [firedTimer, if_pos hrec]
      simp only [u64_eq (hfits j hmem hrec)]
      exact (hdue j hjdue).trans (Nat.le_add_right _ _)
    · exact Nat.le_refl _
  · obtain ⟨hmem, hkeep⟩ := (hl.mem j).mp hj
    rw [hl.heap]
    split_ifs with hjdue
    · have hrec := hkeep.resolve_left (not_not.mpr hjdue)
      rw [firedTimer, if_pos hrec]
      simp only [u64_eq (hfits j hmem hrec)]
      exact ⟨Nat.le_add_left _ _, Nat.add_le_add_right hnow _, hfits j hmem hrec⟩
    · exact ht j hmem

theorem behind_addTimer (wf : m.Wf) {clock ms addr : ℕ} (ht : m.Timed clock) (hnow : now ≤ clock)
    (hfits : now + ms < 2 ^ 64) {cb : Option β} {recurring : Bool}
    {r : (ℕ × Bool) × TimerManager β} (hr : m.addTimer now ms cb recurring addr = some r) :
    Behind m r.2 r.1.2 ∧ r.2.Timed clock := by
  obtain ⟨-, hl⟩ := addTimer_spec wf hr
  have hfresh : m.created ∉ m.timers := fun hmem => Nat.lt_irrefl _ (wf.bound _ hmem)
  unfold TimerManager.addTimer at hr
  split_ifs at hr with haddr
  obtain rfl := Option.some.inj hr
  set m₁ : TimerManager β := { m.put m.created ⟨addr, recurring, ms, u64 (now + ms), cb⟩ with
    created := m.created + 1 } with hm₁
  have hord : m₁.Ordered := (wf.toOrdered.put hfresh _).congr rfl (Nat.le_succ _) fun _ _ =>
    ⟨rfl, rfl⟩
  have hself : m₁.heap m.created = ⟨addr, recurring, ms, u64 (now + ms), cb⟩ := heap_put_self
  have hother : ∀ j ∈ m.timers, m₁.heap j = m.heap j := by
    intro j hj
    apply heap_put_of_ne
    rintro rfl
    exact hfresh hj
  have haddrs : ∀ j ∈ m₁.timers, (m₁.heap m.created).addr ≠ (m₁.heap j).addr := by
    intro j hj heq
    rw [hself, hother j hj] at heq
    exact haddr j hj heq.symm
  refine ⟨⟨tickled_addTimerPtr _ _, fun htickled hfront i hi => ?_⟩, fun i hi => ?_⟩
  · rw [hl.heap]
    rcases (hl.mem i).mp hi with rfl | hi
    · obtain htrue | ⟨j, hj, hle⟩ := addTimerPtr_front hord (Nat.lt_succ_self _) haddrs hfront
      · exact Bool.noConfusion (htickled.symm.trans htrue)
      · rw [hself, hother j hj] at hle
        exact ⟨j, hj, by rwa [if_pos rfl]⟩
    · rw [if_neg (by rintro rfl; exact hfresh hi)]
      exact ⟨i, hi, Nat.le_refl _⟩
  · rw [hl.heap]
    rcases (hl.mem i).mp hi with rfl | hi
    · rw [if_pos rfl]
      simp only [u64_eq hfits]
      exact ⟨Nat.le_add_left _ _, Nat.add_le_add_right hnow _, hfits⟩
    · rw [if_neg (by rintro rfl; exact hfresh hi)]
      exact ht i hi

theorem behind_reset (wf : m.Wf) {clock ms : ℕ} {from_now : Bool} (ht : m.Timed clock)
    (hfits : (m.heap i).cb.isSome →
      (if from_now then clock else (m.heap i).next - (m.heap i).ms) + ms < 2 ^ 64)
    {r : (Bool × Bool) × TimerManager β} (hr : m.reset clock i ms from_now = some r) :
    Behind m r.2 r.1.2 ∧ r.2.Timed clock := by
  cases h : (m.heap i).cb with
  | none =>
    rw [reset_empty h] at hr
    cases hr
    exact ⟨Later.refl.behind, ht⟩
  | some cb =>
    have hsome : (m.heap i).cb.isSome := by simp [h]
    by_cases hsame : ms = (m.heap i).ms ∧ from_now = false
    · obtain ⟨rfl, rfl⟩ := hsame
      rw [reset_same hsome] at hr
      cases hr
      exact ⟨Later.refl.behind, ht⟩
    have hi := wf.armed i hsome
    obtain ⟨hms, hstart, hlt⟩ := ht i hi
    obtain ⟨f, m', hm', hl⟩ := reset_spec clock wf hsome hsame
    obtain rfl := Option.some.inj (hm'.symm.trans hr)
    have heq := Option.some.inj ((reset_eq clock wf hsome hsame).symm.trans hr)
    obtain ⟨hord, hmem, haddrs⟩ := wf.taken clock ms from_now hi
    have hnext : resetNext clock ms from_now (m.heap i) =
        (if from_now then clock else (m.heap i).next - (m.heap i).ms) + ms := by
      rw [resetNext, u64Sub_eq hms hlt, u64_eq (hfits hsome)]
    refine ⟨⟨?_, fun htickled hfront j hj => ?_⟩, fun j hj => ?_⟩
    · rw [← heq]
      exact tickled_addTimerPtr _ _
    · rw [hl.heap]
      split_ifs with hji
      -- the timer is not at the front, or the notice was given before
      · rw [← heq] at hfront
        obtain htrue | ⟨k, hk, hle⟩ := addTimerPtr_front hord (wf.bound i hi) haddrs hfront
        · exact Bool.noConfusion (htickled.symm.trans htrue)
        · obtain ⟨hki, hk⟩ := (hmem k).mp hk
          rw [heap_taken, heap_taken, if_neg hki, if_pos rfl] at hle
          exact ⟨k, hk, hle⟩
      · exact ⟨j, (hl.mem j).mp hj, Nat.le_refl _⟩
    · rw [hl.heap]
      split_ifs with hji
      · simp only [hnext]
        refine ⟨Nat.le_add_left _ _, Nat.add_le_add_right ?_ _, hfits hsome⟩
        split_ifs <;> omega
      · exact ht j ((hl.mem j).mp hj)

/-! ## Runs -/

namespace Notifier

variable {s s' : Notifier β} {t : ℕ} {polls : ℕ → Option Poll}

/-- A thread that is served because of a notification. -/
def Notified (s : Notifier β) (poll : Poll) : Prop :=
  poll.called = true ∨ ∃ t, s.threads t = .notify

/-- **The invariant**: a thread that is not notified saw a deadline that no timer is before, and
the flag is down. -/
structure Inv (s : Notifier β) (polls : ℕ → Option Poll) : Prop where
  wf : s.manager.Wf
  timed : s.manager.Timed s.clock
  readings : ∀ t, ∀ now ∈ (s.threads t).now?, now ≤ s.clock
  served : ∀ t, ∀ poll ∈ polls t, s.Notified poll ∨ s.manager.tickled = false ∧
    ∀ i ∈ s.manager.timers, ∃ d ∈ poll.deadline, d ≤ (s.manager.heap i).next

theorem Inv.serves (h : s.Inv polls) {poll : Poll} (hpoll : poll ∈ polls t) : s.Served poll :=
  (h.served t poll hpoll).symm.imp_left And.right

theorem inv_new (now : ℕ) : (new now : Notifier β).Inv fun _ => none where
  wf := .new now
  timed := fun _ hi => by cases hi
  readings := fun _ _ hnow => by cases hnow
  served := fun _ _ hpoll => by cases hpoll

theorem Notified.goto {poll : Poll} (h : s.Notified poll) (ht : s.threads t ≠ .notify)
    (pc : Pc β) : (s.goto t pc).Notified poll := by
  refine h.imp id ?_
  rintro ⟨t', ht'⟩
  refine ⟨t', ?_⟩
  have hne : t' ≠ t := by
    rintro rfl
    exact ht ht'
  exact (Function.update_of_ne hne ..).trans ht'

theorem readings_goto (h : ∀ t, ∀ now ∈ (s.threads t).now?, now ≤ s.clock) {pc : Pc β}
    (hpc : ∀ now ∈ pc.now?, now ≤ s.clock) (t : ℕ) :
    ∀ t', ∀ now ∈ ((s.goto t pc).threads t').now?, now ≤ s.clock := by
  intro t' now hnow
  simp only [goto] at hnow
  rcases eq_or_ne t' t with rfl | hne
  · rw [Function.update_self] at hnow
    exact hpc now hnow
  · rw [Function.update_of_ne hne] at hnow
    exact h t' now hnow

/-- A thread moves on. -/
theorem Inv.goto (h : s.Inv polls) (ht : s.threads t ≠ .notify) {pc : Pc β}
    (hpc : ∀ now ∈ pc.now?, now ≤ s.clock) : (s.goto t pc).Inv polls where
  wf := h.wf
  timed := h.timed
  readings := readings_goto h.readings hpc t
  served := fun t' poll hpoll => (h.served t' poll hpoll).imp_left (·.goto ht pc)

/-- A section that leaves every timer behind another one, or notifies. -/
theorem Inv.section (h : s.Inv polls) (ht : s.threads t ≠ .notify) {at_front : Bool}
    (hbehind : Behind s.manager m' at_front) (htimed : m'.Timed s.clock) (hwf : m'.Wf) :
    ({ s with manager := m' }.goto t (afterInsert at_front)).Inv polls where
  wf := hwf
  timed := htimed
  readings := readings_goto (s := { s with manager := m' }) h.readings
    (by cases at_front <;> exact fun _ hnow => by cases hnow) t
  served := by
    intro t' poll hpoll
    cases at_front with
    | true => exact .inl (.inr ⟨t, Function.update_self ..⟩)
    | false =>
      obtain hnotified | ⟨htickled, hle⟩ := h.served t' poll hpoll
      · exact .inl (hnotified.goto ht _)
      · refine .inr ⟨hbehind.tickled.trans (by rw [htickled, Bool.or_false]), fun i hi => ?_⟩
        obtain ⟨j, hj, hji⟩ := hbehind.timers htickled rfl i hi
        obtain ⟨d, hd, hdj⟩ := hle j hj
        exact ⟨d, hd, hdj.trans hji⟩

/-- A section of a thread that stays where it is. -/
theorem Inv.stay (h : s.Inv polls) (ht : s.threads t = .idle) (hlater : Later s.manager m')
    (htimed : m'.Timed s.clock) (hwf : m'.Wf) :
    ({ s with manager := m' } : Notifier β).Inv polls := by
  have hsection := h.section (t := t) (by rw [ht]; exact fun hpc => by cases hpc) hlater.behind
    htimed hwf
  have hsame : ({ s with manager := m' }.goto t (afterInsert false) : Notifier β) =
      { s with manager := m' } := by
    have hthreads : Function.update s.threads t .idle = s.threads := by
      rw [← ht, Function.update_eq_self]
    exact congrArg (Notifier.mk m' s.clock) hthreads
  rwa [hsame] at hsection

/-- No timer is before the front. -/
theorem front_le (h : m.Ordered) : ∀ i ∈ m.timers, ∃ d ∈ front m, d ≤ (m.heap i).next := by
  intro i hi
  have hsorted := h.sorted
  unfold front
  cases htimers : m.timers with
  | nil =>
    rw [htimers] at hi
    cases hi
  | cons j rest =>
    rw [htimers] at hi hsorted
    refine ⟨(m.heap j).next, rfl, ?_⟩
    rcases List.mem_cons.mp hi with rfl | hi
    · exact Nat.le_refl _
    · have hless := (List.pairwise_cons.mp hsorted).1 i hi
      rw [less_iff] at hless
      omega

/-- **Every step keeps the invariant.** -/
theorem Inv.step {a : Action β} (h : s.Inv polls) (hfits : s.Fits a) (hs : s.step a = some s') :
    s'.Inv (watched s a polls) := by
  cases a with
  | tick ms =>
    simp only [Notifier.step] at hs
    cases hs
    refine ⟨h.wf, fun i hi => ?_, fun t now hnow => ?_, h.served⟩
    · obtain ⟨hms, hle, hlt⟩ := h.timed i hi
      exact ⟨hms, hle.trans (Nat.add_le_add_right (Nat.le_add_right _ _) _), hlt⟩
    · exact (h.readings t now hnow).trans (Nat.le_add_right _ _)
  | newTimer t ms cb recurring addr =>
    simp only [Notifier.step] at hs
    split at hs
    · rename_i ht
      cases hs
      refine h.goto (by rw [ht]; exact fun hpc => by cases hpc) fun now hnow => ?_
      cases hnow
      exact Nat.le_refl _
    · cases hs
  -- the deadline was computed at the earlier reading of the clock
  | addTimer t =>
    simp only [Notifier.step] at hs
    split at hs
    · rename_i now ms cb recurring addr ht
      obtain ⟨r, hr, rfl⟩ := Option.map_eq_some_iff.mp hs
      simp only [Fits, ht] at hfits
      have hnow := h.readings t now (by rw [ht]; rfl)
      obtain ⟨hbehind, htimed⟩ := behind_addTimer h.wf h.timed hnow hfits hr
      exact h.section (by rw [ht]; exact fun hpc => by cases hpc) hbehind htimed (h.wf.addTimer hr)
    · cases hs
  -- the front can only go back, so what was polled stays early enough
  | cancel t i =>
    simp only [Notifier.step] at hs
    split at hs
    · rename_i ht
      split_ifs at hs
      obtain ⟨r, hr, rfl⟩ := Option.map_eq_some_iff.mp hs
      obtain ⟨hlater, htimed⟩ := later_cancel h.wf h.timed hr
      exact h.stay ht hlater htimed (h.wf.cancel hr)
    · cases hs
  | refresh t i =>
    simp only [Notifier.step] at hs
    split at hs
    · rename_i ht
      split_ifs at hs
      obtain ⟨r, hr, rfl⟩ := Option.map_eq_some_iff.mp hs
      obtain ⟨hlater, htimed⟩ := later_refresh h.wf h.timed hfits hr
      exact h.stay ht hlater htimed (h.wf.refresh hr)
    · cases hs
  | reset t i ms from_now =>
    simp only [Notifier.step] at hs
    split at hs
    · rename_i ht
      split_ifs at hs
      obtain ⟨r, hr, rfl⟩ := Option.map_eq_some_iff.mp hs
      obtain ⟨hbehind, htimed⟩ := behind_reset h.wf h.timed hfits hr
      exact h.section (by rw [ht]; exact fun hpc => by cases hpc) hbehind htimed (h.wf.reset hr)
    · cases hs
  | getNextTimer t =>
    simp only [Notifier.step] at hs
    split at hs
    · cases hs
      have hnext : (s.manager.getNextTimer s.clock).2 = { s.manager with tickled := false } := by
        simp only [TimerManager.getNextTimer]
        split
        · rfl
        · split_ifs <;> rfl
      have hwf : ({ s.manager with tickled := false } : TimerManager β).Wf :=
        { h.wf.toOrdered.congr rfl (Nat.le_refl _) (fun _ _ => ⟨rfl, rfl⟩) with
          armed := h.wf.armed }
      simp only [hnext, watched]
      -- the thread sees the front; for the others the flag that goes down is all that changes
      refine ⟨hwf, h.timed, h.readings, fun t' poll hpoll => ?_⟩
      rcases eq_or_ne t' t with rfl | hne
      · rw [Function.update_self] at hpoll
        cases hpoll
        exact .inr ⟨rfl, front_le hwf.toOrdered⟩
      · rw [Function.update_of_ne hne] at hpoll
        exact (h.served t' poll hpoll).imp id fun hsaw => ⟨rfl, hsaw.2⟩
    · cases hs
  | listExpiredCb t =>
    simp only [Notifier.step] at hs
    split at hs
    · rename_i ht
      cases hs
      refine h.goto (by rw [ht]; exact fun hpc => by cases hpc) fun now hnow => ?_
      cases hnow
      exact Nat.le_refl _
    · cases hs
  | empty t =>
    simp only [Notifier.step] at hs
    split at hs
    · rename_i now ht
      cases hs
      refine h.goto (by rw [ht]; exact fun hpc => by cases hpc) fun now' hnow => ?_
      refine h.readings t now' ?_
      rw [ht]
      split_ifs at hnow
      · cases hnow
      · exact hnow
    · cases hs
  | expire t probe =>
    simp only [Notifier.step] at hs
    split at hs
    · rename_i now ht
      obtain ⟨r, hr, rfl⟩ := Option.map_eq_some_iff.mp hs
      simp only [Fits, ht] at hfits
      have hnow := h.readings t now (by rw [ht]; rfl)
      obtain ⟨hlater, htimed, hwf⟩ := later_expire h.wf h.timed hnow hfits.1 hfits.2 hr
      exact h.section (by rw [ht]; exact fun hpc => by cases hpc) hlater.behind htimed hwf
    · cases hs
  | onTimerInsertedAtFront t =>
    simp only [Notifier.step] at hs
    split at hs
    · cases hs
      -- whatever a thread saw, it is notified now
      refine ⟨h.wf, h.timed, readings_goto h.readings (fun _ hnow => by cases hnow) t,
        fun t' poll hpoll => .inl (.inl ?_)⟩
      obtain ⟨poll', -, rfl⟩ := Option.map_eq_some_iff.mp hpoll
      rfl
    · cases hs

/-- **No missed notification**: in every state of a run without overflow or rollover, every thread
that asked for the first deadline is served. -/
theorem served_of_reach {now : ℕ} {c : Notifier β × (ℕ → Option Poll)}
    (h : ((machine β).observe watched).Reach (fun c a => c.1.Fits a) (new now, fun _ => none) c)
    {poll : Poll} (hpoll : poll ∈ c.2 t) : c.1.Served poll := by
  have hinv : c.1.Inv c.2 := h.invariant (P := fun c => c.1.Inv c.2) (inv_new now) ?_
  · exact hinv.serves hpoll
  · intro c a c' hc hfits hs
    obtain ⟨hstep, hhist⟩ := Machine.observe_step.mp hs
    rw [hhist]
    exact hc.step hfits hstep

/-- Thread 0 asks while there is no timer, thread 1 adds one and has not called
`onTimerInsertedAtFront` yet. -/
def addedRun : List (Action ℕ) :=
  [.getNextTimer 0, .newTimer 1 5 (some 0) false 1, .addTimer 1]

theorem served_of_reach_added : ∃ c : Notifier ℕ × (ℕ → Option Poll),
    ((machine ℕ).observe watched).run (new 0, fun _ => none) addedRun = some c ∧
      c.2 0 = some { deadline := none } ∧ c.1.manager.timers = [0] ∧
      c.1.Served { deadline := none } := by
  obtain ⟨c, hrun⟩ : ∃ c, ((machine ℕ).observe watched).run (new 0, fun _ => none) addedRun =
      some c := ⟨_, rfl⟩
  have hpoll : c.2 0 = some { deadline := none } := by
    cases hrun
    rfl
  have htimers : c.1.manager.timers = [0] := by
    cases hrun
    decide
  refine ⟨c, hrun, hpoll, htimers, ?_⟩
  refine served_of_reach (t := 0) (Machine.reach_of_meets hrun ?_) hpoll
  refine (Machine.meets_cons rfl).mpr ⟨trivial, ?_⟩
  refine (Machine.meets_cons rfl).mpr ⟨trivial, ?_⟩
  refine (Machine.meets_cons rfl).mpr ⟨?_, trivial⟩
  show 0 + 5 < 2 ^ 64
  omega

end Notifier

end TimerManager

end Sylar

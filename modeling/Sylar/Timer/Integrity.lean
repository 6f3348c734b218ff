import Sylar.Timer.Sections

/-!
# Integrity of the timer set

The deadline of a timer is the key by which the set is ordered, and it is a field of the object
that the set and its handles share. A section that changes it takes the timer out of the set before
and puts it back after. Here every section is split into the single operations on the set and on
the timer objects, in their order, and no operation changes the deadline of a timer that is in the
set at that moment.

## Main definitions

* `Prim`, `primMachine`: the single operations
* `Call.prims`, `expirePrims`, `Sections.prims`: the operations of a section
* `Frozen`: an operation changes no deadline of a timer in the set
* `Integrity`: what holds of the set between the sections

## Main results

* `run_prims`: a section is its operations, in order
* `frozen_prims`: no section changes a deadline in the set
* `set_integrity`: every reachable state, and every step from it
-/

namespace Sylar

open Foundation

namespace TimerManager

variable {β : Type} {m m' : TimerManager β} {i j now probe : ℕ}

/-! ## Single operations -/

/-- A single operation on the set or on a timer object. -/
inductive Prim (β : Type)
  /-- The constructor of a timer. -/
  | construct (t : Timer β)
  /-- `m_cb = nullptr`. -/
  | clearCb (i : ℕ)
  | setMs (i ms : ℕ)
  | setNext (i next : ℕ)
  | insert (i : ℕ)
  | erase (i : ℕ)
  /-- `m_timers.erase(m_timers.begin(), it)`, with what is behind `it`. -/
  | eraseFront (rest : List ℕ)
  /-- `m_tickled = true`, if the timer is at the front. -/
  | tickle (i : ℕ)
  | setTickled (b : Bool)
  | setPreviouseTime (now_ms : ℕ)

def Prim.apply (m : TimerManager β) : Prim β → TimerManager β
  | construct t => { m.put m.created t with created := m.created + 1 }
  | clearCb i => m.clearCb i
  | setMs i ms => m.put i { m.heap i with ms := ms }
  | setNext i next => m.setNext i next
  | insert i => m.insert i
  | erase i => m.erase i
  | eraseFront rest => { m with timers := rest }
  | tickle i =>
    if m.timers.head?.any (fun j => Same m.less i j) && !m.tickled then { m with tickled := true }
    else m
  | setTickled b => { m with tickled := b }
  | setPreviouseTime now_ms => { m with previouseTime := now_ms }

/-- The machine of the single operations. -/
def primMachine (β : Type) : Machine (TimerManager β) (Prim β) where
  step m p := some (p.apply m)

/-- The operation changes no deadline of a timer that is in the set. -/
def Frozen (m : TimerManager β) (p : Prim β) : Prop :=
  ∀ i ∈ m.timers, ((p.apply m).heap i).next = (m.heap i).next

/-! ## The operations of a section -/

/-- `addTimer(val, lock)`. -/
def insertPrims (i : ℕ) : List (Prim β) := [.insert i, .tickle i]

def cancelPrims (i : ℕ) (m : TimerManager β) : List (Prim β) :=
  if (m.heap i).cb.isSome then [.clearCb i, .erase i] else []

def refreshPrims (now i : ℕ) (m : TimerManager β) : List (Prim β) :=
  if (m.heap i).cb.isSome then
    .clearCb i :: if (m.clearCb i).find i then
      [.erase i, .setNext i (u64 (now + (m.heap i).ms)), .insert i] else []
  else []

def resetPrims (now i ms : ℕ) (from_now : Bool) (m : TimerManager β) : List (Prim β) :=
  if (m.heap i).cb.isSome ∧ ¬ (ms = (m.heap i).ms ∧ from_now = false) then
    .clearCb i :: if (m.clearCb i).find i then
      [.erase i, .setMs i ms, .setNext i (resetNext now ms from_now (m.heap i))] ++ insertPrims i
    else []
  else []

/-- The operations of a call with one section. -/
def Call.prims (now : ℕ) (m : TimerManager β) : Call β → List (Prim β)
  | .addTimer ms cb recurring addr =>
    .construct ⟨addr, recurring, ms, u64 (now + ms), cb⟩ :: insertPrims m.created
  | .cancel i => cancelPrims i m
  | .refresh i => refreshPrims now i m
  | .reset i ms from_now => resetPrims now i ms from_now m
  | .getNextTimer => [.setTickled false]
  | .listExpiredCb _ => []

/-- The loop of `listExpiredCb`. -/
def firePrims (now_ms : ℕ) : List ℕ → TimerManager β → List (Prim β)
  | [], _ => []
  | timer :: expired, m =>
    (if (m.heap timer).recurring then
      [.setNext timer (u64 (now_ms + (m.heap timer).ms)), .insert timer]
    else [.clearCb timer]) ++ firePrims now_ms expired (m.fireOne now_ms timer)

/-- The write-locked section of `listExpiredCb`. -/
def expirePrims (now_ms probe : ℕ) (m : TimerManager β) : List (Prim β) :=
  let e := m.expired now_ms probe (m.rollover now_ms)
  let pass := .eraseFront e.2 ::
    firePrims now_ms e.1 { m with timers := e.2, previouseTime := now_ms }
  .setPreviouseTime now_ms ::
    if m.rollover now_ms then pass
    else if m.timers.head?.any fun front => now_ms < (m.heap front).next then [] else pass

namespace Sections

/-- The operations of a section. -/
def prims (s : Sections β) : Action β → List (Prim β)
  | .call _ now c => c.prims now s.manager
  | .check .. => []
  | .expire t probe =>
    match s.checked t with
    | some now_ms => expirePrims now_ms probe s.manager
    | none => []

end Sections

/-! ## A section is its operations -/

@[simp] theorem run_cons (p : Prim β) (ps : List (Prim β)) :
    (primMachine β).run m (p :: ps) = (primMachine β).run (p.apply m) ps := rfl

theorem run_insertPrims (i : ℕ) :
    (primMachine β).run m (insertPrims i) = some (m.addTimerPtr i).2 := rfl

theorem run_firePrims (now_ms : ℕ) (es : List ℕ) :
    (primMachine β).run m (firePrims now_ms es m) = some (fire now_ms es m).2 := by
  induction es generalizing m with
  | nil => rfl
  | cons timer es ih =>
    have hone : (primMachine β).run m (if (m.heap timer).recurring then
        [.setNext timer (u64 (now_ms + (m.heap timer).ms)), .insert timer]
        else [.clearCb timer]) = some (m.fireOne now_ms timer) := by
      unfold fireOne
      split_ifs <;> rfl
    rw [firePrims, Machine.run_append, hone, Option.bind_some, ih]
    rfl

theorem run_cancelPrims {r : Bool × TimerManager β} (hr : m.cancel i = some r) :
    (primMachine β).run m (cancelPrims i m) = some r.2 := by
  unfold TimerManager.cancel at hr
  unfold cancelPrims
  dsimp only at hr
  split_ifs at hr ⊢
  · obtain rfl := Option.some.inj hr
    rfl
  · obtain rfl := Option.some.inj hr
    rfl

theorem run_refreshPrims {r : Bool × TimerManager β} (hr : m.refresh now i = some r) :
    (primMachine β).run m (refreshPrims now i m) = some r.2 := by
  have hms : ((m.clearCb i).erase i).heap i = { m.heap i with cb := none } := heap_put_self
  unfold TimerManager.refresh at hr
  unfold refreshPrims
  dsimp only at hr
  rw [hms] at hr
  split_ifs at hr ⊢
  · obtain rfl := Option.some.inj hr
    rfl
  · obtain rfl := Option.some.inj hr
    rfl
  · obtain rfl := Option.some.inj hr
    rfl

theorem put_put (i : ℕ) (t t' : Timer β) : (m.put i t).put i t' = m.put i t' := by
  rw [put, put, put, Function.update_idem]

/-- The operations of `reset` before the timer is put back. -/
theorem run_taken (now i ms : ℕ) (from_now : Bool) :
    (primMachine β).run m [.clearCb i, .erase i, .setMs i ms,
      .setNext i (resetNext now ms from_now (m.heap i))] = some (m.taken now i ms from_now) := by
  have hself : ((m.clearCb i).erase i).heap i = { m.heap i with cb := none } := heap_put_self
  rw [run_cons, run_cons, run_cons, run_cons, Machine.run_nil]
  simp only [Prim.apply, setNext, heap_put_self, put_put, hself, taken, resetTimer]

theorem run_resetPrims (wf : m.Wf) {ms : ℕ} {from_now : Bool}
    {r : (Bool × Bool) × TimerManager β} (hr : m.reset now i ms from_now = some r) :
    (primMachine β).run m (resetPrims now i ms from_now m) = some r.2 := by
  unfold resetPrims
  by_cases hcb : (m.heap i).cb.isSome
  · by_cases hsame : ms = (m.heap i).ms ∧ from_now = false
    · rw [if_neg fun h => h.2 hsame]
      obtain ⟨rfl, rfl⟩ := hsame
      rw [reset_same hcb] at hr
      obtain rfl := Option.some.inj hr
      rfl
    · have hi : i ∈ (m.clearCb i).timers := wf.armed i hcb
      rw [if_pos ⟨hcb, hsame⟩, if_pos (Ordered.find hi), ← List.cons_append, Machine.run_append,
        run_taken, Option.bind_some, run_insertPrims]
      rw [reset_eq now wf hcb hsame] at hr
      rw [← Option.some.inj hr]
  · have hnone : (m.heap i).cb = none := by simpa using hcb
    rw [if_neg fun h => hcb h.1]
    rw [reset_empty hnone] at hr
    obtain rfl := Option.some.inj hr
    rfl

/-- A call with one section. -/
theorem run_callPrims (wf : m.Wf) {c : Call β} {answer : Answer β}
    (hexec : m.exec now c = some (answer, m')) (hc : ∀ probe, c ≠ .listExpiredCb probe) :
    (primMachine β).run m (c.prims now m) = some m' := by
  cases c with
  | addTimer ms cb recurring addr =>
    obtain ⟨r, hr, heq⟩ := Option.map_eq_some_iff.mp hexec
    obtain ⟨-, rfl⟩ := Prod.mk.inj heq
    unfold TimerManager.addTimer at hr
    split_ifs at hr
    obtain rfl := Option.some.inj hr
    rfl
  | cancel i =>
    rw [TimerManager.exec] at hexec
    split_ifs at hexec
    obtain ⟨r, hr, heq⟩ := Option.map_eq_some_iff.mp hexec
    obtain ⟨-, rfl⟩ := Prod.mk.inj heq
    exact run_cancelPrims hr
  | refresh i =>
    rw [TimerManager.exec] at hexec
    split_ifs at hexec
    obtain ⟨r, hr, heq⟩ := Option.map_eq_some_iff.mp hexec
    obtain ⟨-, rfl⟩ := Prod.mk.inj heq
    exact run_refreshPrims hr
  | reset i ms from_now =>
    rw [TimerManager.exec] at hexec
    split_ifs at hexec
    obtain ⟨r, hr, heq⟩ := Option.map_eq_some_iff.mp hexec
    obtain ⟨-, rfl⟩ := Prod.mk.inj heq
    exact run_resetPrims wf hr
  | getNextTimer =>
    obtain ⟨-, rfl⟩ := Prod.mk.inj (Option.some.inj hexec)
    simp only [TimerManager.getNextTimer]
    split
    · rfl
    · split <;> rfl
  | listExpiredCb probe => exact absurd rfl (hc probe)

theorem run_expirePrims {r : (List ℕ × List (Option β)) × TimerManager β}
    (hr : m.expire now probe = some r) :
    (primMachine β).run m (expirePrims now probe m) = some r.2 := by
  have hpass : ∀ b, ({ m with previouseTime := now } : TimerManager β).expired now probe b =
      m.expired now probe b := fun _ => rfl
  have hfire : ∀ b, (primMachine β).run { m with previouseTime := now }
      (.eraseFront (m.expired now probe b).2 :: firePrims now (m.expired now probe b).1
        { m with timers := (m.expired now probe b).2, previouseTime := now }) =
      some (fire now (m.expired now probe b).1
        { m with timers := (m.expired now probe b).2, previouseTime := now }).2 := fun b =>
    run_firePrims now _
  unfold TimerManager.expire at hr
  unfold expirePrims
  rw [run_cons]
  cases hroll : m.rollover now with
  | true =>
    simp only [hroll, if_true, hpass] at hr ⊢
    rw [← Option.some.inj hr]
    exact hfire true
  | false =>
    cases hfront : m.timers.head? with
    | none => simp [hroll, hfront] at hr
    | some front =>
      simp only [hroll, Bool.false_eq_true, if_false, hfront, hpass, Option.any_some,
        decide_eq_true_eq] at hr ⊢
      split_ifs at hr ⊢
      · rw [← Option.some.inj hr]
        rfl
      · rw [← Option.some.inj hr]
        exact hfire false

/-! ## Deadlines in the set -/

@[simp] theorem meets_cons (ok : TimerManager β → Prim β → Prop) (p : Prim β)
    (ps : List (Prim β)) : (primMachine β).Meets ok m (p :: ps) ↔
      ok m p ∧ (primMachine β).Meets ok (p.apply m) ps :=
  Machine.meets_cons rfl

@[simp] theorem meets_nil (ok : TimerManager β → Prim β → Prop) :
    (primMachine β).Meets ok m [] := trivial

/-- A timer object that keeps its deadline, or is not in the set. -/
theorem next_put {t : Timer β} (h : i ∈ m.timers → t.next = (m.heap i).next) :
    ∀ j ∈ m.timers, ((m.put i t).heap j).next = (m.heap j).next := by
  intro j hj
  rcases eq_or_ne j i with rfl | hne
  · rw [heap_put_self, h hj]
  · rw [heap_put_of_ne hne]

theorem frozen_clearCb : Frozen m (.clearCb i) := next_put fun _ => rfl

theorem frozen_setMs (ms : ℕ) : Frozen m (.setMs i ms) := next_put fun _ => rfl

theorem frozen_setNext (hi : i ∉ m.timers) (next : ℕ) : Frozen m (.setNext i next) :=
  next_put fun hi' => absurd hi' hi

theorem frozen_construct (h : m.Ordered) (t : Timer β) : Frozen m (.construct t) :=
  next_put fun hmem => absurd (h.bound _ hmem) (Nat.lt_irrefl _)

theorem frozen_of_heap {p : Prim β} (h : (p.apply m).heap = m.heap) : Frozen m p := by
  intro j _
  rw [h]

theorem heap_tickle (m : TimerManager β) (i : ℕ) : (Prim.apply m (.tickle i)).heap = m.heap := by
  simp only [Prim.apply]
  split_ifs <;> rfl

theorem frozen_insertPrims (i : ℕ) : (primMachine β).Meets Frozen m (insertPrims i) := by
  rw [insertPrims, meets_cons, meets_cons]
  exact ⟨frozen_of_heap rfl, frozen_of_heap (heap_tickle _ i), meets_nil _⟩

/-- A timer that is erased is not in the set. -/
theorem notMem_erase (wf : m.Wf) (h : (m.heap i).cb.isSome) :
    i ∉ ((m.clearCb i).erase i).timers := by
  intro hi
  exact (((wf.toOrdered.clearCb i).mem_erase (wf.armed i h)).mp hi).1 rfl

theorem frozen_cancelPrims (i : ℕ) : (primMachine β).Meets Frozen m (cancelPrims i m) := by
  unfold cancelPrims
  split_ifs
  · rw [meets_cons, meets_cons]
    exact ⟨frozen_clearCb, frozen_of_heap rfl, meets_nil _⟩
  · exact meets_nil _

theorem frozen_refreshPrims (wf : m.Wf) (now i : ℕ) :
    (primMachine β).Meets Frozen m (refreshPrims now i m) := by
  unfold refreshPrims
  split_ifs with hcb
  · rw [meets_cons, meets_cons, meets_cons, meets_cons]
    exact ⟨frozen_clearCb, frozen_of_heap rfl, frozen_setNext (notMem_erase wf hcb) _,
      frozen_of_heap rfl, meets_nil _⟩
  · rw [meets_cons]
    exact ⟨frozen_clearCb, meets_nil _⟩
  · exact meets_nil _

theorem frozen_resetPrims (wf : m.Wf) (now i ms : ℕ) (from_now : Bool) :
    (primMachine β).Meets Frozen m (resetPrims now i ms from_now m) := by
  unfold resetPrims
  split_ifs with hcb
  · have hout : i ∉ (Prim.apply ((m.clearCb i).erase i) (.setMs i ms)).timers :=
      notMem_erase wf hcb.1
    simp only [List.cons_append, List.nil_append, meets_cons]
    exact ⟨frozen_clearCb, frozen_of_heap rfl, frozen_setMs ms, frozen_setNext hout _,
      frozen_insertPrims i⟩
  · rw [meets_cons]
    exact ⟨frozen_clearCb, meets_nil _⟩
  · exact meets_nil _

theorem mem_fireOne {now_ms : ℕ} (h : j ∈ (m.fireOne now_ms i).timers) :
    j = i ∨ j ∈ m.timers := by
  unfold fireOne at h
  split_ifs at h
  · exact mem_of_mem_insertBy h
  · exact .inr h

/-- The loop of `listExpiredCb`: a timer is put back when its own turn comes, and not before. -/
theorem frozen_firePrims (now_ms : ℕ) {es : List ℕ} (hnodup : es.Nodup)
    (hout : ∀ i ∈ es, i ∉ m.timers) :
    (primMachine β).Meets Frozen m (firePrims now_ms es m) := by
  induction es generalizing m with
  | nil => exact meets_nil _
  | cons timer es ih =>
    obtain ⟨htimer, hes⟩ := List.forall_mem_cons.mp hout
    obtain ⟨hnot, hnodup'⟩ := List.nodup_cons.mp hnodup
    have hrest := ih (m := m.fireOne now_ms timer) hnodup' fun i hi hmem => by
      rcases mem_fireOne hmem with rfl | hold
      · exact hnot hi
      · exact hes i hi hold
    unfold firePrims
    unfold fireOne at hrest ⊢
    split_ifs at hrest ⊢
    · simp only [List.cons_append, List.nil_append, meets_cons]
      exact ⟨frozen_setNext htimer _, frozen_of_heap rfl, hrest⟩
    · simp only [List.cons_append, List.nil_append, meets_cons]
      exact ⟨frozen_clearCb, hrest⟩

theorem frozen_expirePrims (wf : m.Wf) (now_ms probe : ℕ) :
    (primMachine β).Meets Frozen m (expirePrims now_ms probe m) := by
  obtain ⟨hdue, -, hrest⟩ := expired_due wf.toOrdered now_ms probe
  have hloop : (primMachine β).Meets Frozen
      { m with timers := (m.expired now_ms probe (m.rollover now_ms)).2, previouseTime := now_ms }
      (firePrims now_ms (m.expired now_ms probe (m.rollover now_ms)).1
        { m with
          timers := (m.expired now_ms probe (m.rollover now_ms)).2
          previouseTime := now_ms }) := by
    rw [hdue]
    exact frozen_firePrims now_ms (wf.nodup.sublist (due_sublist m now_ms)) fun i hi hmem =>
      ((hrest i).mp hmem).2 hi
  unfold expirePrims
  dsimp only
  rw [meets_cons]
  refine ⟨frozen_of_heap rfl, ?_⟩
  split_ifs
  · rw [meets_cons]
    exact ⟨frozen_of_heap rfl, hloop⟩
  · exact meets_nil _
  · rw [meets_cons]
    exact ⟨frozen_of_heap rfl, hloop⟩

/-- A call with one section. -/
theorem frozen_callPrims (wf : m.Wf) (now : ℕ) (c : Call β) :
    (primMachine β).Meets Frozen m (c.prims now m) := by
  cases c with
  | addTimer ms cb recurring addr =>
    rw [Call.prims, meets_cons]
    exact ⟨frozen_construct wf.toOrdered _, frozen_insertPrims _⟩
  | cancel i => exact frozen_cancelPrims i
  | refresh i => exact frozen_refreshPrims wf now i
  | reset i ms from_now => exact frozen_resetPrims wf now i ms from_now
  | getNextTimer =>
    rw [Call.prims, meets_cons]
    exact ⟨frozen_of_heap rfl, meets_nil _⟩
  | listExpiredCb probe => exact meets_nil _

/-! ## Between the sections -/

/-- **The integrity of the set**: it is strictly ordered, has no timer twice, and has every timer
with a callback; so these are found, and `cancel` erases no end. -/
structure Integrity (m : TimerManager β) : Prop where
  sorted : m.timers.Pairwise fun i j => (m.heap i).next < (m.heap j).next ∨
    (m.heap i).next = (m.heap j).next ∧ (m.heap i).addr < (m.heap j).addr
  once : m.timers.Nodup
  armed : ∀ i, (m.heap i).cb.isSome → i ∈ m.timers
  found : ∀ i, (m.heap i).cb.isSome → (m.clearCb i).find i = true
  cancelled : ∀ i, (m.cancel i).isSome

theorem Wf.integrity (wf : m.Wf) : Integrity m where
  sorted := wf.sorted.imp less_iff.mp
  once := wf.nodup
  armed := wf.armed
  found i hcb := by
    have hi : i ∈ (m.clearCb i).timers := wf.armed i hcb
    exact Ordered.find hi
  cancelled i := by
    cases hcb : (m.heap i).cb with
    | none =>
      rw [cancel_empty hcb]
      rfl
    | some cb =>
      obtain ⟨m', hcancel, -⟩ := cancel_spec wf (i := i) (by simp [hcb])
      rw [hcancel]
      rfl

namespace Sections

variable {s s' : Sections β} {a : Action β}

theorem run_prims (wf : s.manager.Wf) (h : Does s a s') :
    (primMachine β).run s.manager (s.prims a) = some s'.manager := by
  cases h with
  | call t now c answer m ht hexec hc => exact run_callPrims wf hexec hc
  | empty | check => rfl
  | expire t probe now_ms ht r hr =>
    rw [prims, ht]
    exact run_expirePrims hr

theorem frozen_prims (wf : s.manager.Wf) (a : Action β) :
    (primMachine β).Meets Frozen s.manager (s.prims a) := by
  cases a with
  | call t now c => exact frozen_callPrims wf now c
  | check t now_ms => exact meets_nil _
  | expire t probe =>
    cases ht : s.checked t with
    | some now_ms =>
      rw [prims, ht]
      exact frozen_expirePrims wf now_ms probe
    | none =>
      rw [prims, ht]
      exact meets_nil _

/-- **The timer set**: every reachable state has its integrity, and every step from it is made of
operations that change no deadline of a timer in the set. -/
theorem set_integrity {t₀ : ℕ} (h : (machine β).Reaches (start t₀) s) :
    Integrity s.manager ∧ ∀ a s', (machine β).step s a = some s' →
      (primMachine β).run s.manager (s.prims a) = some s'.manager ∧
      (primMachine β).Meets Frozen s.manager (s.prims a) := by
  have wf := wf_of_reaches h
  exact ⟨wf.integrity, fun a s' hstep => ⟨run_prims wf (does_of_step hstep), frozen_prims wf a⟩⟩

/-- With a timer of 5 ms, between the two sections of another thread. -/
theorem set_integrity_armed : ∃ s : Sections Unit, (machine Unit).run (start 0)
      [.call 0 0 (.addTimer 5 (some ()) true 0), .check 1 7] = some s ∧
    Integrity s.manager ∧ ∀ a s', (machine Unit).step s a = some s' →
      (primMachine Unit).run s.manager (s.prims a) = some s'.manager ∧
      (primMachine Unit).Meets Frozen s.manager (s.prims a) := by
  have hrun : (machine Unit).run (start 0)
      [.call 0 0 (.addTimer 5 (some ()) true 0), .check 1 7] = some _ := rfl
  exact ⟨_, hrun, set_integrity (Machine.reaches_of_run hrun)⟩

end Sections

end TimerManager

end Sylar

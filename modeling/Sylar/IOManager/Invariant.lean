import Mathlib.Algebra.BigOperators.Intervals
import Mathlib.Tactic.Ring
import Sylar.IOManager.Model

/-!
# What every run keeps

Whatever the interleaving, every context is consistent with its events, the pending count is the
number of events registered on all contexts ever allocated, no callback or fiber is consumed twice
and no assertion fails.

## Main definitions

* `FdContext.Consistent`: an event is registered exactly if one waiter waits for it
* `Placed`: every call is in flight, waiting in one context, or consumed once
* `Inv`: what holds in every run
* `Outcome`: what a section does to the table and to epoll

## Main results

* `Inv.consume`, `Inv.store`: what the sections do to the invariant
* `outcome_runLocked`: a section changes nothing, registers an event or consumes events
* `Inv.step`: every step keeps `Inv`
-/

namespace Sylar

open Foundation

namespace IOManager

variable {m m' : IOManager} {c c' fd k t : ℕ} {e e' : Event} {op : Op}

/-! ## Events and contexts -/

@[simp] theorem Events.has_insert (events : Events) (e e' : Event) :
    (events.insert e).has e' = (decide (e = e') || events.has e') := by
  cases e <;> cases e' <;> simp [Events.insert, Events.has]

@[simp] theorem Events.has_erase (events : Events) (e e' : Event) :
    (events.erase e).has e' = (!decide (e = e') && events.has e') := by
  cases e <;> cases e' <;> simp [Events.erase, Events.has]

theorem Events.count_insert {events : Events} (h : events.has e = false) :
    (events.insert e).count = events.count + 1 := by
  cases e <;> simp_all [Events.insert, Events.has, Events.count]; omega

theorem Events.count_erase {events : Events} (h : events.has e = true) :
    (events.erase e).count + 1 = events.count := by
  cases e <;> simp_all [Events.erase, Events.has, Events.count]; omega

theorem Events.count_eq_zero {events : Events} : events.count = 0 ↔ events = .none := by
  obtain ⟨r, w⟩ := events
  cases r <;> cases w <;> simp [Events.count, Events.none]

theorem Events.eq_none_iff {events : Events} : events = .none ↔ ∀ e, events.has e = false := by
  obtain ⟨r, w⟩ := events
  constructor
  · rintro h e
    cases h
    cases e <;> rfl
  · intro h
    have hr := h .read
    have hw := h .write
    simp only [Events.has] at hr hw
    simp [Events.none, hr, hw]

namespace FdContext

@[simp] theorem getContext_setContext (x : FdContext) (e e' : Event) (y : EventContext) :
    (x.setContext e y).getContext e' = if e = e' then y else x.getContext e' := by
  cases e <;> cases e' <;> rfl

@[simp] theorem events_setContext (x : FdContext) (e : Event) (y : EventContext) :
    (x.setContext e y).events = x.events := by
  cases e <;> rfl

@[simp] theorem fd_setContext (x : FdContext) (e : Event) (y : EventContext) :
    (x.setContext e y).fd = x.fd := by
  cases e <;> rfl

@[simp] theorem getContext_events (x : FdContext) (events : Events) (e : Event) :
    { x with events := events }.getContext e = x.getContext e := by
  cases e <;> rfl

end FdContext

/-- What waits in a context: the numbers of the calls that left it there. -/
def EventContext.waiters (x : EventContext) : List ℕ := x.fiber.toList ++ x.cb.toList

/-- An event is registered exactly if a scheduler and one of fiber and callback wait for it;
otherwise the context is empty. -/
def FdContext.Consistent (x : FdContext) : Prop :=
  ∀ e, if x.events.has e then
    (x.getContext e).scheduler.isSome ∧ (x.getContext e).waiters.length = 1
  else x.getContext e = {}

/-- The context without the event and its waiter. -/
def FdContext.cleared (x : FdContext) (e : Event) : FdContext :=
  { x with events := x.events.erase e }.resetContext e

theorem FdContext.Consistent.cleared {x : FdContext} (h : x.Consistent) (e : Event) :
    (x.cleared e).Consistent := by
  intro e'
  have he' := h e'
  simp only [FdContext.cleared, resetContext, events_setContext, Events.has_erase,
    getContext_setContext, getContext_events]
  by_cases heq : e = e'
  · simp [heq]
  · simpa [heq] using he'

theorem FdContext.Consistent.trigger {x : FdContext} (h : x.Consistent)
    (he : x.events.has e = true) :
    x.triggerEvent e = some (x.cleared e, (x.getContext e).waiters) := by
  have hctx := h e
  rw [if_pos he] at hctx
  obtain ⟨hs, hw⟩ := hctx
  obtain ⟨s, hs⟩ := Option.isSome_iff_exists.mp hs
  unfold triggerEvent
  rw [if_pos he]
  generalize x.getContext e = ctx at *
  obtain ⟨_, fiber, cb⟩ := ctx
  simp only at hs
  subst hs
  cases fiber <;> cases cb <;> simp_all [EventContext.waiters, FdContext.cleared, resetContext]

/-! ## What holds in every run -/

/-- The call a thread is in. -/
def Pc.call? : Pc → Option ℕ
  | .idle _ => none
  | .lookup _ call | .resize _ call | .locked _ call _ => some call

/-- What waits for an event of a context. -/
def held (m : IOManager) (c : ℕ) (e : Event) : List ℕ := ((m.heap c).getContext e).waiters

/-- Every call is in one place: in flight, waiting in one context, or consumed once. -/
structure Placed (m : IOManager) : Prop where
  consumed : (m.consumed.map Prod.snd).Nodup
  held : ∀ c e k, k ∈ m.held c e → k ∉ m.consumed.map Prod.snd
  held_unique : ∀ c e c' e' k, k ∈ m.held c e → k ∈ m.held c' e' → c = c' ∧ e = e'
  flying : ∀ t k, (m.threads t).call? = some k →
    k ∉ m.consumed.map Prod.snd ∧ ∀ c e, k ∉ m.held c e
  flying_unique : ∀ t t' k, (m.threads t).call? = some k → (m.threads t').call? = some k → t = t'
  bound : ∀ k, (∃ t, (m.threads t).call? = some k) ∨ (∃ c e, k ∈ m.held c e) ∨
    k ∈ m.consumed.map Prod.snd → k < m.calls

/-- **The invariant of every run.** -/
structure Inv (m : IOManager) : Prop where
  nodup : m.fdContexts.Nodup
  allocated : ∀ c ∈ m.fdContexts, c < m.allocated
  size : 32 ≤ m.fdContexts.length
  fd : ∀ i c, m.fdContexts[i]? = some c → (m.heap c).fd = i
  locked : ∀ t op k c, m.threads t = .locked op k c → c < m.allocated ∧ (m.heap c).fd = op.fd
  resize : ∀ t op k, m.threads t = .resize op k → 32 ≤ op.fd
  consistent : ∀ c, (m.heap c).Consistent
  pending : m.pendingEventCount = ∑ c ∈ Finset.range m.allocated, ((m.heap c).events.count : ℤ)
  placed : m.Placed
  running : m.aborted = false

/-! ## Moving between the steps of a call -/

theorem goto_threads_of_ne {pc : Pc} {t' : ℕ} (h : t' ≠ t) :
    (m.goto t pc).threads t' = m.threads t' := Function.update_of_ne h ..

@[simp] theorem goto_threads_self {pc : Pc} : (m.goto t pc).threads t = pc :=
  Function.update_self ..

/-- A thread that moves on carries its call along, or leaves it. -/
theorem Placed.goto (h : m.Placed) {pc : Pc}
    (hcall : ∀ k, pc.call? = some k → (m.threads t).call? = some k) : (m.goto t pc).Placed := by
  have hback : ∀ t' k, ((m.goto t pc).threads t').call? = some k →
      (m.threads t').call? = some k := by
    intro t' k hk
    rcases eq_or_ne t' t with rfl | hne
    · rw [goto_threads_self] at hk
      exact hcall k hk
    · rwa [goto_threads_of_ne hne] at hk
  exact
    { consumed := h.consumed
      held := h.held
      held_unique := h.held_unique
      flying := fun t' k hk => h.flying t' k (hback t' k hk)
      flying_unique := fun t₁ t₂ k h₁ h₂ => h.flying_unique t₁ t₂ k (hback _ _ h₁) (hback _ _ h₂)
      bound := fun k hk => h.bound k (hk.imp_left fun ⟨t', ht'⟩ => ⟨t', hback t' k ht'⟩) }

theorem Inv.goto (h : m.Inv) {pc : Pc}
    (hcall : ∀ k, pc.call? = some k → (m.threads t).call? = some k)
    (hl : ∀ op k c, pc = .locked op k c → c < m.allocated ∧ (m.heap c).fd = op.fd)
    (hr : ∀ op k, pc = .resize op k → 32 ≤ op.fd) : (m.goto t pc).Inv :=
  { h with
    locked := by
      intro t' op k c ht'
      rcases eq_or_ne t' t with rfl | hne
      · rw [goto_threads_self] at ht'
        exact hl op k c ht'
      · rw [goto_threads_of_ne hne] at ht'
        exact h.locked t' op k c ht'
    resize := by
      intro t' op k ht'
      rcases eq_or_ne t' t with rfl | hne
      · rw [goto_threads_self] at ht'
        exact hr op k ht'
      · rw [goto_threads_of_ne hne] at ht'
        exact h.resize t' op k ht'
    placed := h.placed.goto hcall }

/-- The start of a call. -/
theorem Inv.call (h : m.Inv) (op : Op) (hidle : ∃ r, m.threads t = .idle r) :
    ({ m with calls := m.calls + 1 }.goto t (.lookup op m.calls) : IOManager).Inv := by
  obtain ⟨r, hidle⟩ := hidle
  have hp := h.placed
  have hfresh : ∀ k, (∃ t, (m.threads t).call? = some k) ∨ (∃ c e, k ∈ m.held c e) ∨
      k ∈ m.consumed.map Prod.snd → k ≠ m.calls := fun k hk => (hp.bound k hk).ne
  have hthreads : ∀ t' k, (({ m with calls := m.calls + 1 }.goto t
      (.lookup op m.calls) : IOManager).threads t').call? = some k →
      t' = t ∧ k = m.calls ∨ t' ≠ t ∧ (m.threads t').call? = some k := by
    intro t' k hk
    rcases eq_or_ne t' t with rfl | hne
    · rw [goto_threads_self] at hk
      exact .inl ⟨rfl, (Option.some.inj hk).symm⟩
    · rw [goto_threads_of_ne hne] at hk
      exact .inr ⟨hne, hk⟩
  refine { h with locked := ?_, resize := ?_, placed := ?_ }
  · intro t' op' k c ht'
    rcases eq_or_ne t' t with rfl | hne
    · simp at ht'
    · rw [goto_threads_of_ne hne] at ht'
      exact h.locked t' op' k c ht'
  · intro t' op' k ht'
    rcases eq_or_ne t' t with rfl | hne
    · simp at ht'
    · rw [goto_threads_of_ne hne] at ht'
      exact h.resize t' op' k ht'
  · refine ⟨hp.consumed, hp.held, hp.held_unique, fun t' k hk => ?_, fun t₁ t₂ k h₁ h₂ => ?_,
      fun k hk => ?_⟩
    · rcases hthreads t' k hk with ⟨-, rfl⟩ | ⟨-, hk⟩
      · exact ⟨fun hc => hfresh _ (.inr (.inr hc)) rfl,
          fun c e hc => hfresh _ (.inr (.inl ⟨c, e, hc⟩)) rfl⟩
      · exact hp.flying t' k hk
    · rcases hthreads t₁ k h₁ with ⟨ht₁, hk₁⟩ | ⟨-, g₁⟩ <;>
        rcases hthreads t₂ k h₂ with ⟨ht₂, hk₂⟩ | ⟨-, g₂⟩
      · exact ht₁.trans ht₂.symm
      · exact absurd hk₁ (hfresh k (.inl ⟨t₂, g₂⟩))
      · exact absurd hk₂ (hfresh k (.inl ⟨t₁, g₁⟩))
      · exact hp.flying_unique t₁ t₂ k g₁ g₂
    · rcases hk with ⟨t', hk⟩ | hk
      · rcases hthreads t' k hk with ⟨-, rfl⟩ | ⟨-, hk⟩
        · exact Nat.lt_succ_self _
        · exact Nat.lt_succ_of_lt (hp.bound k (.inl ⟨t', hk⟩))
      · exact Nat.lt_succ_of_lt (hp.bound k (.inr hk))

/-! ## The sections -/

/-- The event of a context consumed, with its waiter. -/
def consume (f : Fate) (c : ℕ) (e : Event) (m : IOManager) : IOManager :=
  { m.putContext c ((m.heap c).cleared e) with
    pendingEventCount := m.pendingEventCount - 1
    consumed := m.consumed ++ (m.held c e).map (f, ·) }

theorem trigger_eq (hc : (m.heap c).Consistent) (he : (m.heap c).events.has e = true) :
    trigger c e m = consume .scheduled c e m := by
  rw [trigger, hc.trigger he]
  rfl

@[simp] theorem heap_consume (f : Fate) : (consume f c e m).heap c' =
    if c' = c then (m.heap c).cleared e else m.heap c' := Function.update_apply ..

theorem held_consume (f : Fate) :
    (consume f c e m).held c' e' = if c' = c ∧ e = e' then [] else m.held c' e' := by
  rw [held, heap_consume]
  by_cases hcc : c' = c
  · subst hcc
    by_cases hee : e = e'
    · simp [hee, FdContext.cleared, FdContext.resetContext, EventContext.waiters]
    · simp [hee, FdContext.cleared, FdContext.resetContext, held]
  · simp [hcc, held]

/-- A sum over all contexts, of which one changes. -/
theorem sum_count_update {n : ℕ} {heap : ℕ → FdContext} {x : FdContext} (hc : c < n) :
    ∑ i ∈ Finset.range n, ((Function.update heap c x i).events.count : ℤ) =
      ∑ i ∈ Finset.range n, ((heap i).events.count : ℤ) - (heap c).events.count +
        x.events.count := by
  have hmem : c ∈ Finset.range n := Finset.mem_range.mpr hc
  rw [← Finset.sum_erase_add _ _ hmem, ← Finset.sum_erase_add (Finset.range n) _ hmem,
    Function.update_self]
  have hrest : ∑ i ∈ (Finset.range n).erase c, ((Function.update heap c x i).events.count : ℤ) =
      ∑ i ∈ (Finset.range n).erase c, ((heap i).events.count : ℤ) :=
    Finset.sum_congr rfl fun i hi => by rw [Function.update_of_ne (Finset.ne_of_mem_erase hi)]
  rw [hrest]
  ring

theorem Placed.consume (h : m.Placed) (f : Fate) (hw : (m.held c e).Nodup) :
    (consume f c e m).Placed := by
  have hsnd : (m.consumed ++ (m.held c e).map (f, ·)).map Prod.snd =
      m.consumed.map Prod.snd ++ m.held c e := by
    simp [List.map_append, Function.comp_def]
  have hmem : ∀ k, k ∈ (IOManager.consume f c e m).consumed.map Prod.snd ↔
      k ∈ m.consumed.map Prod.snd ∨ k ∈ m.held c e := by
    intro k
    rw [← List.mem_append, ← hsnd]
    rfl
  have hheld : ∀ c' e' k, k ∈ (IOManager.consume f c e m).held c' e' →
      k ∈ m.held c' e' ∧ ¬ (c' = c ∧ e = e') := by
    intro c' e' k hk
    rw [held_consume] at hk
    split_ifs at hk with hif
    · cases hk
    · exact ⟨hk, hif⟩
  refine ⟨?_, fun c' e' k hk => ?_, fun c₁ e₁ c₂ e₂ k h₁ h₂ => ?_, fun t k hk => ?_,
    h.flying_unique, fun k hk => h.bound k ?_⟩
  · show ((m.consumed ++ (m.held c e).map (f, ·)).map Prod.snd).Nodup
    rw [hsnd, List.nodup_append']
    exact ⟨h.consumed, hw, fun k hk hk' => h.held c e k hk' hk⟩
  · obtain ⟨hk, hne⟩ := hheld c' e' k hk
    rw [hmem]
    rintro (hk' | hk')
    · exact h.held c' e' k hk hk'
    · obtain ⟨rfl, rfl⟩ := h.held_unique c' e' c e k hk hk'
      exact hne ⟨rfl, rfl⟩
  · exact h.held_unique c₁ e₁ c₂ e₂ k (hheld _ _ _ h₁).1 (hheld _ _ _ h₂).1
  · obtain ⟨hk₁, hk₂⟩ := h.flying t k hk
    rw [hmem]
    exact ⟨not_or.mpr ⟨hk₁, hk₂ c e⟩, fun c' e' hk' => hk₂ c' e' (hheld c' e' k hk').1⟩
  · rcases hk with hk | ⟨c', e', hk⟩ | hk
    · exact .inl hk
    · exact .inr (.inl ⟨c', e', (hheld c' e' k hk).1⟩)
    · rcases (hmem k).mp hk with hk | hk
      · exact .inr (.inr hk)
      · exact .inr (.inl ⟨c, e, hk⟩)

/-- A context replaced by a consistent one of the same file descriptor. -/
theorem Inv.put (h : m.Inv) {x : FdContext} (hfd : x.fd = (m.heap c).fd) (hx : x.Consistent)
    (hm : m'.heap = Function.update m.heap c x) (htable : m'.fdContexts = m.fdContexts)
    (hallocated : m'.allocated = m.allocated) (hthreads : m'.threads = m.threads)
    (hpending : m'.pendingEventCount =
      ∑ c ∈ Finset.range m'.allocated, ((m'.heap c).events.count : ℤ))
    (hplaced : m'.Placed) (hrun : m'.aborted = false) : m'.Inv := by
  have hfds : ∀ i, (m'.heap i).fd = (m.heap i).fd := by
    intro i
    rw [hm, Function.update_apply]
    split_ifs with hi
    · rw [hfd, hi]
    · rfl
  refine ⟨htable ▸ h.nodup, ?_, htable ▸ h.size, ?_, ?_, ?_, ?_, hpending, hplaced, hrun⟩
  · rw [htable, hallocated]
    exact h.allocated
  · intro i c' hc'
    rw [hfds]
    exact h.fd i c' (htable ▸ hc')
  · intro t' op' k' c' ht'
    rw [hfds, hallocated]
    exact h.locked t' op' k' c' (hthreads ▸ ht')
  · exact fun t' op' k' ht' => h.resize t' op' k' (hthreads ▸ ht')
  · intro c'
    rw [hm, Function.update_apply]
    split_ifs
    · exact hx
    · exact h.consistent c'

/-- **An event consumed**: what `trigger` and `delEvent` do to the invariant. -/
theorem Inv.consume (h : m.Inv) (f : Fate) (hc : c < m.allocated)
    (he : (m.heap c).events.has e = true) : (IOManager.consume f c e m).Inv := by
  have hctx := h.consistent c e
  rw [if_pos he] at hctx
  have hw : (m.held c e).Nodup := by
    obtain ⟨k, hk⟩ := List.length_eq_one_iff.mp hctx.2
    rw [held, hk]
    exact List.nodup_singleton k
  refine h.put (c := c) (x := (m.heap c).cleared e) ?_ ((h.consistent c).cleared e) rfl rfl rfl
    rfl ?_ (h.placed.consume f hw) h.running
  · simp [FdContext.cleared, FdContext.resetContext]
  show m.pendingEventCount - 1 = ∑ i ∈ Finset.range m.allocated,
    ((Function.update m.heap c ((m.heap c).cleared e) i).events.count : ℤ)
  have hcount : ((m.heap c).cleared e).events.count + 1 = (m.heap c).events.count := by
    simpa [FdContext.cleared, FdContext.resetContext] using Events.count_erase he
  rw [sum_count_update hc, h.pending, ← hcount]
  push_cast
  ring

/-- The context with a waiter for the event. -/
def FdContext.stored (x : FdContext) (e : Event) (y : EventContext) : FdContext :=
  { x with events := x.events.insert e }.setContext e y

theorem FdContext.Consistent.stored {x : FdContext} (h : x.Consistent) {y : EventContext}
    (hs : y.scheduler.isSome) (hw : y.waiters.length = 1) : (x.stored e y).Consistent := by
  intro e'
  have he' := h e'
  simp only [FdContext.stored, events_setContext, Events.has_insert, getContext_setContext,
    getContext_events]
  by_cases heq : e = e'
  · simp [heq, hs, hw]
  · simpa [heq] using he'

/-- A waiter registered for an event of a context. -/
def store (c : ℕ) (e : Event) (y : EventContext) (m : IOManager) : IOManager :=
  { m.putContext c ((m.heap c).stored e y) with pendingEventCount := m.pendingEventCount + 1 }

/-- A call that is in no place yet. -/
def Free (m : IOManager) (k : ℕ) : Prop :=
  k < m.calls ∧ (∀ t, (m.threads t).call? ≠ some k) ∧ (∀ c e, k ∉ m.held c e) ∧
    k ∉ m.consumed.map Prod.snd

@[simp] theorem heap_store (y : EventContext) : (store c e y m).heap c' =
    if c' = c then (m.heap c).stored e y else m.heap c' := Function.update_apply ..

theorem held_store (y : EventContext) :
    (store c e y m).held c' e' = if c' = c ∧ e = e' then y.waiters else m.held c' e' := by
  rw [held, heap_store]
  by_cases hcc : c' = c
  · subst hcc
    by_cases hee : e = e'
    · simp [hee, FdContext.stored]
    · simp [hee, FdContext.stored, held]
  · simp [hcc, held]

theorem Placed.store (h : m.Placed) {y : EventContext} (hk : m.Free k) (hy : y.waiters = [k]) :
    (store c e y m).Placed := by
  obtain ⟨hbound, hflying, hheld, hconsumed⟩ := hk
  have hmem : ∀ c' e' j, j ∈ (IOManager.store c e y m).held c' e' →
      (c' = c ∧ e = e' ∧ j = k) ∨ j ∈ m.held c' e' := by
    intro c' e' j hj
    rw [held_store] at hj
    split_ifs at hj with hif
    · rw [hy, List.mem_singleton] at hj
      exact .inl ⟨hif.1, hif.2, hj⟩
    · exact .inr hj
  refine ⟨h.consumed, fun c' e' j hj => ?_, fun c₁ e₁ c₂ e₂ j h₁ h₂ => ?_, fun t j hj => ?_,
    h.flying_unique, fun j hj => ?_⟩
  · rcases hmem c' e' j hj with ⟨-, -, rfl⟩ | hj
    · exact hconsumed
    · exact h.held c' e' j hj
  · rcases hmem c₁ e₁ j h₁ with ⟨hc₁, he₁, hk₁⟩ | g₁ <;>
      rcases hmem c₂ e₂ j h₂ with ⟨hc₂, he₂, hk₂⟩ | g₂
    · exact ⟨hc₁.trans hc₂.symm, he₁.symm.trans he₂⟩
    · exact absurd g₂ (hk₁ ▸ hheld c₂ e₂)
    · exact absurd g₁ (hk₂ ▸ hheld c₁ e₁)
    · exact h.held_unique c₁ e₁ c₂ e₂ j g₁ g₂
  · obtain ⟨hj₁, hj₂⟩ := h.flying t j hj
    refine ⟨hj₁, fun c' e' hj' => ?_⟩
    rcases hmem c' e' j hj' with ⟨-, -, rfl⟩ | hj'
    · exact hflying t hj
    · exact hj₂ c' e' hj'
  · rcases hj with hj | ⟨c', e', hj⟩ | hj
    · exact h.bound j (.inl hj)
    · rcases hmem c' e' j hj with ⟨-, -, rfl⟩ | hj
      · exact hbound
      · exact h.bound j (.inr (.inl ⟨c', e', hj⟩))
    · exact h.bound j (.inr (.inr hj))

/-- **An event registered**: what `addEvent` does to the invariant. -/
theorem Inv.store (h : m.Inv) (hc : c < m.allocated) (he : (m.heap c).events.has e = false)
    {y : EventContext} (hs : y.scheduler.isSome) (hk : m.Free k) (hy : y.waiters = [k]) :
    (IOManager.store c e y m).Inv := by
  refine h.put (c := c) (x := (m.heap c).stored e y) ?_
    ((h.consistent c).stored hs (by rw [hy]; rfl)) rfl rfl rfl rfl ?_ (h.placed.store hk hy)
    h.running
  · simp [FdContext.stored]
  show m.pendingEventCount + 1 = ∑ i ∈ Finset.range m.allocated,
    ((Function.update m.heap c ((m.heap c).stored e y) i).events.count : ℤ)
  have hcount : ((m.heap c).stored e y).events.count = (m.heap c).events.count + 1 := by
    simpa [FdContext.stored] using Events.count_insert he
  rw [sum_count_update hc, h.pending, hcount]
  push_cast
  ring

theorem Inv.epollCtl (h : m.Inv) (fd : ℕ) (events : Option Events) : (m.epollCtl fd events).Inv :=
  { h with placed := { h.placed with } }

/-- A section that changes one context, and what epoll accepted for its file descriptor. -/
structure Rewrites (c fd : ℕ) (m m' : IOManager) : Prop where
  fdContexts : m'.fdContexts = m.fdContexts
  allocated : m'.allocated = m.allocated
  heap : ∀ i, i ≠ c → m'.heap i = m.heap i
  epoll : m'.epoll = Function.update m.epoll fd (m'.heap c).events.left

theorem Rewrites.consume (f : Fate) :
    Rewrites c fd m (consume f c e (m.epollCtl fd ((m.heap c).events.erase e).left)) where
  fdContexts := rfl
  allocated := rfl
  heap := fun _ hi => Function.update_of_ne hi ..
  epoll := by simp [IOManager.consume, epollCtl, putContext, FdContext.cleared,
    FdContext.resetContext]

theorem Rewrites.store (y : EventContext) :
    Rewrites c fd m (store c e y (m.epollCtl fd (some ((m.heap c).events.insert e)))) where
  fdContexts := rfl
  allocated := rfl
  heap := fun _ hi => Function.update_of_ne hi ..
  epoll := by
    have hne : (m.heap c).events.insert e ≠ .none := by
      intro hnone
      have := Events.eq_none_iff.mp hnone e
      simp at this
    simp [IOManager.store, epollCtl, putContext, FdContext.stored, Events.left, hne]

/-- The waiter that a call of `addEvent` leaves. -/
def waiter (cb : Bool) (scheduler call : ℕ) : EventContext :=
  if cb then { scheduler := scheduler, cb := call } else { scheduler := scheduler, fiber := call }

theorem waiters_waiter (cb : Bool) (s k : ℕ) : (waiter cb s k).waiters = [k] := by
  cases cb <;> rfl

theorem scheduler_waiter (cb : Bool) (s k : ℕ) : (waiter cb s k).scheduler.isSome := by
  cases cb <;> rfl

theorem addEvent_eq (h : (m.heap c).Consistent) (he : (m.heap c).events.has e = false) {cb : Bool}
    {s : ℕ} {accepted : Bool} : addEvent c fd e cb s k accepted m =
      if accepted then
        (true, store c e (waiter cb s k) (m.epollCtl fd (some ((m.heap c).events.insert e))))
      else (false, m) := by
  have hctx := h e
  rw [if_neg (by simp [he])] at hctx
  cases accepted <;> simp [addEvent, he, hctx, store, FdContext.stored, waiter, putContext,
    epollCtl]

theorem delEvent_eq {accepted : Bool} : delEvent c fd e accepted m =
    if (m.heap c).events.has e ∧ accepted then
      (true, consume .dropped c e (m.epollCtl fd ((m.heap c).events.erase e).left))
    else (false, m) := by
  cases he : (m.heap c).events.has e <;> cases accepted <;> simp only [delEvent, he] <;> rfl

theorem cancelEvent_eq (h : (m.heap c).Consistent) {accepted : Bool} :
    cancelEvent c fd e accepted m =
      if (m.heap c).events.has e ∧ accepted then
        (true, consume .scheduled c e (m.epollCtl fd ((m.heap c).events.erase e).left))
      else (false, m) := by
  cases he : (m.heap c).events.has e <;> cases accepted <;> simp [cancelEvent, he]
  exact trigger_eq (m := m.epollCtl ..) h he

/-- The event consumed, if it is registered. -/
def consumeIf (c : ℕ) (e : Event) (m : IOManager) : IOManager :=
  if (m.heap c).events.has e then consume .scheduled c e m else m

theorem has_consumeIf : ((consumeIf c e m).heap c).events.has e' =
    (!decide (e = e') && (m.heap c).events.has e') := by
  unfold consumeIf
  split_ifs with he
  · simp [FdContext.cleared, FdContext.resetContext]
  · by_cases hee : e = e'
    · simp [← hee, he]
    · simp [hee]

theorem Inv.consumeIf (h : m.Inv) (hc : c < m.allocated) : (consumeIf c e m).Inv := by
  unfold IOManager.consumeIf
  split_ifs with he
  · exact h.consume _ hc he
  · exact h

/-- What `consumeIf` leaves as it is. -/
theorem frame_consumeIf : (consumeIf c e m).fdContexts = m.fdContexts ∧
    (consumeIf c e m).allocated = m.allocated ∧ (consumeIf c e m).epoll = m.epoll ∧
    ∀ i, i ≠ c → (consumeIf c e m).heap i = m.heap i := by
  unfold consumeIf
  split_ifs
  · exact ⟨rfl, rfl, rfl, fun i hi => Function.update_of_ne hi ..⟩
  · exact ⟨rfl, rfl, rfl, fun i hi => rfl⟩

/-- Both events of a context consumed, as far as they are registered. -/
def drain (c : ℕ) (m : IOManager) : IOManager := consumeIf c .write (consumeIf c .read m)

theorem events_drain : ((drain c m).heap c).events = .none := by
  rw [Events.eq_none_iff]
  intro e
  cases e <;> simp [drain, has_consumeIf]

theorem trigger_eq_consumeIf (h : (m.heap c).Consistent) :
    (if (m.heap c).events.has e then trigger c e m else m) = consumeIf c e m := by
  unfold consumeIf
  split_ifs with he
  · exact trigger_eq h he
  · rfl

theorem consistent_consumeIf (h : (m.heap c).Consistent) :
    ((consumeIf c e m).heap c).Consistent := by
  unfold consumeIf
  split_ifs
  · simpa using h.cleared e
  · exact h

theorem cancelAll_eq (h : (m.heap c).Consistent) {accepted : Bool} :
    cancelAll c fd accepted m =
      if (m.heap c).events ≠ .none ∧ accepted then (true, drain c (m.epollCtl fd none))
      else (false, m) := by
  by_cases hnone : (m.heap c).events = .none
  · simp [cancelAll, hnone]
  · cases accepted with
    | false => simp [cancelAll]
    | true =>
      have hread := trigger_eq_consumeIf (m := m.epollCtl fd none) (e := .read) h
      have hwrite := trigger_eq_consumeIf (e := .write)
        (consistent_consumeIf (m := m.epollCtl fd none) (e := .read) h)
      have hdrain := events_drain (c := c) (m := m.epollCtl fd none)
      rw [drain] at hdrain
      simp [cancelAll, hnone, hread, hwrite, hdrain, drain]

theorem Rewrites.drain : Rewrites c fd m (drain c (m.epollCtl fd none)) := by
  obtain ⟨htable, halloc, hepoll, hheap⟩ :=
    frame_consumeIf (c := c) (e := .read) (m := m.epollCtl fd none)
  obtain ⟨htable', halloc', hepoll', hheap'⟩ :=
    frame_consumeIf (c := c) (e := .write) (m := consumeIf c .read (m.epollCtl fd none))
  refine ⟨htable'.trans htable, halloc'.trans halloc, fun i hi => (hheap' i hi).trans (hheap i hi),
    ?_⟩
  rw [events_drain, show Events.left .none = none by simp [Events.left]]
  exact hepoll'.trans hepoll

/-- The sections keep the invariant. -/
theorem Inv.runLocked (h : m.Inv) (op : Op) (hc : c < m.allocated) (hk : m.Free k) (accepted : Bool)
    (hpromised : ∀ e, (∃ fd cb s, op = .addEvent fd e cb s) → (m.heap c).events.has e = false) :
    (runLocked op k c accepted m).2.Inv := by
  cases op with
  | addEvent fd e cb s =>
    -- what `addEvent` asserts is promised
    have he := hpromised e ⟨fd, cb, s, rfl⟩
    rw [IOManager.runLocked, addEvent_eq (h.consistent c) he]
    split_ifs
    · exact (h.epollCtl fd _).store hc he (scheduler_waiter ..) hk (waiters_waiter ..)
    · exact h
  | delEvent fd e =>
    rw [IOManager.runLocked, delEvent_eq]
    split_ifs with ha
    · exact (h.epollCtl fd _).consume _ hc ha.1
    · exact h
  | cancelEvent fd e =>
    rw [IOManager.runLocked, cancelEvent_eq (h.consistent c)]
    split_ifs with ha
    · exact (h.epollCtl fd _).consume _ hc ha.1
    · exact h
  | cancelAll fd =>
    rw [IOManager.runLocked, cancelAll_eq (h.consistent c)]
    split_ifs with ha
    -- first the reader, and then the writer
    · have hread := (h.epollCtl fd none).consumeIf (c := c) (e := .read) hc
      exact hread.consumeIf (by rw [frame_consumeIf.2.1]; exact hc)
    · exact h

/-- What a section does to the rest of the state. -/
inductive Outcome (op : Op) (c : ℕ) (accepted : Bool) (m : IOManager) : IOManager → Prop
  | unchanged (h : (∃ fd e cb s, op = .addEvent fd e cb s) → accepted = false) :
    Outcome op c accepted m m
  | added {m' : IOManager} (hop : ∃ fd e cb s, op = .addEvent fd e cb s) (ha : accepted = true)
    (hevents : (m'.heap c).events ≠ .none) (hw : Rewrites c op.fd m m') : Outcome op c accepted m m'
  | consumed {m' : IOManager} (hop : ¬ ∃ fd e cb s, op = .addEvent fd e cb s)
    (hevents : (m.heap c).events ≠ .none) (hw : Rewrites c op.fd m m') : Outcome op c accepted m m'

theorem Events.ne_none_of_has {events : Events} (h : events.has e = true) : events ≠ .none := by
  rintro rfl
  cases e <;> cases h

/-- A section changes nothing, registers an event or consumes the events of its context. -/
theorem outcome_runLocked (op : Op) (h : (m.heap c).Consistent) (accepted : Bool)
    (hpromised : ∀ e, (∃ fd cb s, op = .addEvent fd e cb s) → (m.heap c).events.has e = false) :
    Outcome op c accepted m (runLocked op k c accepted m).2 := by
  cases op with
  | addEvent fd e cb s =>
    rw [runLocked, addEvent_eq h (hpromised e ⟨fd, cb, s, rfl⟩)]
    split_ifs with ha
    · refine .added ⟨fd, e, cb, s, rfl⟩ ha (Events.ne_none_of_has (e := e) ?_) (.store _)
      simp [FdContext.stored]
    · exact .unchanged fun _ => by simpa using ha
  | delEvent fd e =>
    rw [runLocked, delEvent_eq]
    split_ifs with ha
    · exact .consumed (by simp) (Events.ne_none_of_has ha.1) (.consume _)
    · exact .unchanged (by simp)
  | cancelEvent fd e =>
    rw [runLocked, cancelEvent_eq h]
    split_ifs with ha
    · exact .consumed (by simp) (Events.ne_none_of_has ha.1) (.consume _)
    · exact .unchanged (by simp)
  | cancelAll fd =>
    rw [runLocked, cancelAll_eq h]
    split_ifs with ha
    · exact .consumed (by simp) ha.1 .drain
    · exact .unchanged (by simp)

/-! ## The steps of a call -/

theorem length_contextResize {size : ℕ} : (contextResize size m).fdContexts.length = size := by
  simp only [contextResize, List.length_append, List.length_take, List.length_map,
    List.length_range]
  omega

theorem heap_contextResize_of_lt (size : ℕ) (hc : c < m.allocated) :
    (contextResize size m).heap c = m.heap c :=
  if_neg fun h => absurd h.1 (Nat.not_le.mpr hc)

theorem heap_contextResize_new {size : ℕ} (hle : m.allocated ≤ c)
    (hlt : c < m.allocated + (size - m.fdContexts.length)) :
    (contextResize size m).heap c = { fd := m.fdContexts.length + (c - m.allocated) } :=
  if_pos ⟨hle, hlt⟩

/-- A context is as it was, or it is new and empty. -/
theorem heap_contextResize (size : ℕ) : (contextResize size m).heap c = m.heap c ∨
    m.allocated ≤ c ∧ ∃ i, (contextResize size m).heap c = { fd := i } := by
  by_cases h : m.allocated ≤ c ∧ c < m.allocated + (size - m.fdContexts.length)
  · exact .inr ⟨h.1, _, heap_contextResize_new h.1 h.2⟩
  · exact .inl (if_neg h)

theorem getElem?_contextResize (size i : ℕ) : (contextResize size m).fdContexts[i]? =
    if i < size then
      if i < m.fdContexts.length then m.fdContexts[i]?
      else some (m.allocated + (i - m.fdContexts.length))
    else none := by
  simp only [contextResize]
  split_ifs with hi hlen
  · rw [List.getElem?_append_left (by simp; omega), List.getElem?_take_of_lt hi]
  · rw [List.getElem?_append_right (by simp; omega), List.getElem?_map,
      List.getElem?_range (by simp; omega), List.length_take]
    simp only [Option.map_some, Option.some.injEq]
    omega
  · exact List.getElem?_eq_none (by simp; omega)

/-- A context of the table after a resize was in the table before, or is new. -/
theorem mem_contextResize {size : ℕ} : c ∈ (contextResize size m).fdContexts ↔
    c ∈ m.fdContexts.take size ∨
      m.allocated ≤ c ∧ c < m.allocated + (size - m.fdContexts.length) := by
  simp only [contextResize, List.mem_append, List.mem_map, List.mem_range]
  refine or_congr Iff.rfl ⟨?_, fun ⟨hle, hlt⟩ => ⟨c - m.allocated, by omega, by omega⟩⟩
  rintro ⟨i, hi, rfl⟩
  omega

theorem held_contextResize {size : ℕ} (hk : k ∈ (contextResize size m).held c e) :
    k ∈ m.held c e := by
  rcases heap_contextResize size (m := m) (c := c) with hc | ⟨-, i, hc⟩
  · rwa [held, hc] at hk
  · rw [held, hc] at hk
    cases e <;> simp [FdContext.getContext, EventContext.waiters] at hk

theorem FdContext.consistent_empty (i : ℕ) : ({ fd := i } : FdContext).Consistent := by
  intro e
  cases e <;> rfl

theorem Inv.contextResize (h : m.Inv) {size : ℕ} (hsize : 32 ≤ size) :
    (contextResize size m).Inv := by
  have hp := h.placed
  refine ⟨?_, fun c hc => ?_, hsize.trans_eq length_contextResize.symm, fun i c hc => ?_,
    fun t op k c ht => ?_, h.resize, fun c => ?_, ?_, ?_, h.running⟩
  · refine List.nodup_append'.mpr ⟨h.nodup.sublist (List.take_sublist ..), ?_, ?_⟩
    · exact List.nodup_range.map fun i j hij => Nat.add_left_cancel hij
    · intro c hc hc'
      obtain ⟨i, -, rfl⟩ := List.mem_map.mp hc'
      have := h.allocated _ (List.mem_of_mem_take hc)
      omega
  · rcases mem_contextResize.mp hc with hc | ⟨-, hlt⟩
    · exact Nat.lt_add_right _ (h.allocated c (List.mem_of_mem_take hc))
    · exact hlt
  · rw [getElem?_contextResize] at hc
    split_ifs at hc with hi hlen
    · rw [heap_contextResize_of_lt _ (h.allocated c (List.mem_of_getElem? hc))]
      exact h.fd i c hc
    · obtain rfl := Option.some.inj hc
      rw [heap_contextResize_new (by omega) (by omega)]
      simp only
      omega
  · obtain ⟨hc, hfd⟩ := h.locked t op k c ht
    rw [heap_contextResize_of_lt _ hc]
    exact ⟨Nat.lt_add_right _ hc, hfd⟩
  · rcases heap_contextResize size (m := m) (c := c) with hc | ⟨-, i, hc⟩
    · rw [hc]
      exact h.consistent c
    · rw [hc]
      exact FdContext.consistent_empty i
  · show m.pendingEventCount = ∑ c ∈ Finset.range (m.allocated + (size - m.fdContexts.length)),
      (((IOManager.contextResize size m).heap c).events.count : ℤ)
    rw [Finset.sum_range_add, h.pending]
    -- the sum over the old contexts is as before, and the new ones wait for nothing
    have hold : ∀ c ∈ Finset.range m.allocated, ((m.heap c).events.count : ℤ) =
        ((IOManager.contextResize size m).heap c).events.count := fun c hc => by
      rw [heap_contextResize_of_lt _ (Finset.mem_range.mp hc)]
    have hempty : ∀ i ∈ Finset.range (size - m.fdContexts.length),
        (((IOManager.contextResize size m).heap (m.allocated + i)).events.count : ℤ) = 0 :=
      fun i hi => by
        have := Finset.mem_range.mp hi
        rw [heap_contextResize_new (by omega) (by omega)]
        rfl
    rw [Finset.sum_congr rfl hold, Finset.sum_eq_zero hempty, add_zero]
  · exact ⟨hp.consumed, fun c e k hk => hp.held c e k (held_contextResize hk),
      fun c e c' e' k hk hk' =>
        hp.held_unique c e c' e' k (held_contextResize hk) (held_contextResize hk'),
      fun t k hk => ⟨(hp.flying t k hk).1, fun c e hk' =>
        (hp.flying t k hk).2 c e (held_contextResize hk')⟩,
      hp.flying_unique,
      fun k hk => hp.bound k (hk.imp_right (Or.imp_left
        fun ⟨c, e, hk⟩ => ⟨c, e, held_contextResize hk⟩))⟩

theorem inv_new : new.Inv := by
  -- the contexts wait for nothing yet
  have hempty : ∀ c, ∃ i, new.heap c = { fd := i } := by
    intro c
    rcases heap_contextResize 32 (c := c) with hc | ⟨-, hc⟩
    · exact ⟨0, hc⟩
    · exact hc
  have hheld : ∀ c e k, k ∉ new.held c e := by
    intro c e k hk
    obtain ⟨i, hi⟩ := hempty c
    rw [held, hi] at hk
    cases e <;> simp [FdContext.getContext, EventContext.waiters] at hk
  refine ⟨by decide, by decide, by decide, fun i c hc => ?_, ?_, ?_, fun c => ?_, ?_, ?_, rfl⟩
  · obtain ⟨hi, rfl⟩ : i < 32 ∧ i = c := by
      rw [IOManager.new, getElem?_contextResize] at hc
      split_ifs at hc with hi
      · cases hc
      · exact ⟨hi, by simpa using hc⟩
    simp [IOManager.new, contextResize, hi]
  · intro t op k c ht
    cases ht
  · intro t op k ht
    cases ht
  · obtain ⟨i, hi⟩ := hempty c
    rw [hi]
    exact FdContext.consistent_empty i
  · refine (Finset.sum_eq_zero fun c _ => ?_).symm
    obtain ⟨i, hi⟩ := hempty c
    rw [hi]
    rfl
  · refine ⟨List.nodup_nil, fun c e k hk => absurd hk (hheld c e k),
      fun c e c' e' k hk => absurd hk (hheld c e k), fun t k hk => ?_, fun t t' k hk => ?_, ?_⟩
    · cases hk
    · cases hk
    · rintro k (⟨t, hk⟩ | ⟨c, e, hk⟩ | hk)
      · cases hk
      · exact absurd hk (hheld c e k)
      · cases hk

theorem trigger_goto {pc : Pc} : trigger c e (m.goto t pc) = (trigger c e m).goto t pc := by
  unfold trigger
  rw [show (m.goto t pc).heap c = m.heap c from rfl]
  cases (m.heap c).triggerEvent e <;> rfl

/-- A section does not look at the threads. -/
theorem runLocked_goto {pc : Pc} {accepted : Bool} : runLocked op k c accepted (m.goto t pc) =
    ((runLocked op k c accepted m).1, (runLocked op k c accepted m).2.goto t pc) := by
  have hheap : ∀ m : IOManager, (m.goto t pc).heap = m.heap := fun _ => rfl
  have hepoll : ∀ (m : IOManager) fd events,
    (m.goto t pc).epollCtl fd events = (m.epollCtl fd events).goto t pc := fun _ _ _ => rfl
  cases op with
  | addEvent fd e cb s =>
    simp only [runLocked, addEvent, hheap, hepoll]
    split_ifs <;> rfl
  | delEvent fd e =>
    simp only [runLocked, delEvent, hheap, hepoll]
    split_ifs <;> rfl
  | cancelEvent fd e =>
    simp only [runLocked, cancelEvent, hheap, hepoll, trigger_goto]
    split_ifs <;> rfl
  | cancelAll fd =>
    simp only [runLocked, cancelAll, hheap, hepoll, trigger_goto, ← apply_ite (goto · t pc)]
    split_ifs <;> rfl

/-- A thread that leaves its call sets the call free. -/
theorem Inv.free (h : m.Inv) (hk : (m.threads t).call? = some k) {r : Option Bool} :
    (m.goto t (.idle r)).Free k := by
  obtain ⟨hconsumed, hheld⟩ := h.placed.flying t k hk
  refine ⟨h.placed.bound k (.inl ⟨t, hk⟩), fun t' ht' => ?_, hheld, hconsumed⟩
  rcases eq_or_ne t' t with rfl | hne
  · rw [goto_threads_self] at ht'
    cases ht'
  · rw [goto_threads_of_ne hne] at ht'
    exact hne (h.placed.flying_unique t' t k ht' hk)

theorem Promised.not_has {accepted : Bool} (hpromised : m.Promised (.locked t accepted))
    (ht : m.threads t = .locked op k c) (e : Event)
    (hop : ∃ fd cb s, op = .addEvent fd e cb s) : (m.heap c).events.has e = false := by
  obtain ⟨fd, cb, s, rfl⟩ := hop
  simpa only [Promised, ht] using hpromised

/-- The section of a thread keeps the invariant. -/
theorem Inv.section (h : m.Inv) (ht : m.threads t = .locked op k c) {accepted : Bool}
    (hpromised : m.Promised (.locked t accepted)) {r : Option Bool} :
    ((IOManager.runLocked op k c accepted m).2.goto t (.idle r)).Inv := by
  have hidle : (m.goto t (.idle r)).Inv :=
    h.goto (fun _ hk => nomatch hk) (fun _ _ _ hl => nomatch hl) (fun _ _ hr => nomatch hr)
  have hfree := h.free (t := t) (k := k) (r := r) (by rw [ht]; rfl)
  have hinv := hidle.runLocked op (h.locked t op k c ht).1 hfree accepted
    (hpromised.not_has ht)
  rwa [runLocked_goto] at hinv

/-- What a step is: the start of a call, a lookup, a resize or a section. -/
theorem step_cases {a : Action} (hs : m.step a = some m') :
    (∃ t op r, a = .call t op ∧ m.threads t = .idle r ∧
      m' = { m with calls := m.calls + 1 }.goto t (.lookup op m.calls)) ∨
    (∃ t op k, a = .lookup t ∧ m.threads t = .lookup op k ∧
      ((∃ c, m.fdContexts[op.fd]? = some c ∧ m' = m.goto t (.locked op k c)) ∨
        m.fdContexts[op.fd]? = none ∧
          (m' = m.goto t (.resize op k) ∨ m' = m.goto t (.idle (some false))))) ∨
    (∃ t op k, a = .resize t ∧ m.threads t = .resize op k ∧
      ((∃ c, (contextResize (op.fd * 3 / 2) m).fdContexts[op.fd]? = some c ∧
          m' = (contextResize (op.fd * 3 / 2) m).goto t (.locked op k c)) ∨
        (contextResize (op.fd * 3 / 2) m).fdContexts[op.fd]? = none)) ∨
    (∃ t op k c accepted, a = .locked t accepted ∧ m.threads t = .locked op k c ∧
      m' = (runLocked op k c accepted m).2.goto t
        (.idle (some (runLocked op k c accepted m).1))) := by
  cases a with
  | call t op =>
    simp only [IOManager.step] at hs
    split at hs
    · exact .inl ⟨t, op, _, rfl, ‹_›, (Option.some.inj hs).symm⟩
    · cases hs
  | lookup t =>
    simp only [IOManager.step] at hs
    split at hs
    · refine .inr (.inl ⟨t, _, _, rfl, ‹_›, ?_⟩)
      split at hs
      · exact .inl ⟨_, ‹_›, (Option.some.inj hs).symm⟩
      · refine .inr ⟨‹_›, ?_⟩
        split at hs
        · exact .inl (Option.some.inj hs).symm
        · exact .inr (Option.some.inj hs).symm
    · cases hs
  | resize t =>
    simp only [IOManager.step] at hs
    split at hs
    · refine .inr (.inr (.inl ⟨t, _, _, rfl, ‹_›, ?_⟩))
      split at hs
      · exact .inl ⟨_, ‹_›, (Option.some.inj hs).symm⟩
      · exact .inr ‹_›
    · cases hs
  | locked t accepted =>
    simp only [IOManager.step] at hs
    split at hs
    · exact .inr (.inr (.inr ⟨t, _, _, _, accepted, rfl, ‹_›, (Option.some.inj hs).symm⟩))
    · cases hs

/-- The second lookup of `addEvent` is in range: the table was resized to more than half as much
again. -/
theorem lookup_contextResize (h : 32 ≤ fd) :
    ∃ c, (contextResize (fd * 3 / 2) m).fdContexts[fd]? = some c := by
  refine ⟨_, List.getElem?_eq_getElem ?_⟩
  rw [length_contextResize]
  omega

/-- **Every step keeps the invariant.** -/
theorem Inv.step {a : Action} (h : m.Inv) (hs : machine.step m a = some m') : m'.Inv := by
  simp only [machine] at hs
  split_ifs at hs with hok
  obtain ⟨-, hpromised⟩ := hok
  rcases step_cases hs with ⟨t, op, r, rfl, ht, rfl⟩ | ⟨t, op, k, rfl, ht, hlookup⟩ |
    ⟨t, op, k, rfl, ht, hresize⟩ | ⟨t, op, k, c, accepted, rfl, ht, rfl⟩
  · exact h.call op ⟨r, ht⟩
  · have hcall : (m.threads t).call? = some k := by rw [ht]; rfl
    rcases hlookup with ⟨c, hc, rfl⟩ | ⟨hnone, rfl | rfl⟩
    · refine h.goto (fun j hj => hcall.trans hj) ?_ (fun _ _ hr => nomatch hr)
      rintro op' k' c' hpc
      cases hpc
      exact ⟨h.allocated c (List.mem_of_getElem? hc), h.fd _ _ hc⟩
    · refine h.goto (fun j hj => hcall.trans hj) (fun _ _ _ hl => nomatch hl) ?_
      rintro op' k' hpc
      cases hpc
      exact h.size.trans (List.getElem?_eq_none_iff.mp hnone)
    · exact h.goto (fun _ hk => nomatch hk) (fun _ _ _ hl => nomatch hl) (fun _ _ hr => nomatch hr)
  · have h32 := h.resize t op k ht
    obtain ⟨c₀, hc₀⟩ := lookup_contextResize (m := m) h32
    rcases hresize with ⟨c, hc, rfl⟩ | hnone
    · have hinv : (IOManager.contextResize (op.fd * 3 / 2) m).Inv := h.contextResize (by omega)
      refine hinv.goto (fun j hj => ?_) ?_ (fun _ _ hr => nomatch hr)
      · show (m.threads t).call? = some j
        rw [ht]
        exact hj
      · rintro op' k' c' hpc
        cases hpc
        exact ⟨hinv.allocated c (List.mem_of_getElem? hc), hinv.fd _ _ hc⟩
    · rw [hc₀] at hnone
      cases hnone
  · exact h.section ht hpromised

end IOManager

end Sylar

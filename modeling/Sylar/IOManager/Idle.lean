import Sylar.IOManager.Invariant

/-!
# The idle loop

What the idle loop of a thread does with the events that `epoll_wait` returned. The mask it reads
is from the time of the wait; by the time it holds the mutex of the context, other threads may have
deleted, cancelled or added events there. The kernel reports of a file descriptor only events it
was told to watch, and errors.

## Main definitions

* `Reported`, `handle`: a reported event, and its section under the mutex of the context
* `Idle`, `Idle.machine`: the calls of all threads, interleaved with their idle loops
* `Sound`: a section triggers registered events only, counts each once, and keeps the others
* `Fresh`: what the mask reports is still registered, or nothing of it is

## Main results

* `handle_sound_iff`: a section that reaches the trigger is sound exactly if its mask is fresh
* `idle_sound_iff`: all sections of a run are sound exactly if all its masks are fresh
-/

namespace Sylar

open Foundation

namespace IOManager

namespace Events

/-- `events & other`. -/
def inter (events other : Events) : Events :=
  { read := events.read && other.read, write := events.write && other.write }

/-- `events & ~other`. -/
def diff (events other : Events) : Events :=
  { read := events.read && !other.read, write := events.write && !other.write }

end Events

/-- An event that `epoll_wait` returned: the pointer to the context, `EPOLLIN`, `EPOLLOUT`, and
whether there is `EPOLLERR` or `EPOLLHUP`. -/
structure Reported where
  fd_ctx : ℕ
  epollin : Bool := false
  epollout : Bool := false
  failed : Bool := false
  deriving DecidableEq, Repr

/-- `real_events`: an error counts as all events of the context. -/
def Reported.real_events (r : Reported) (events : Events) : Events :=
  { read := r.epollin || r.failed && events.read
    write := r.epollout || r.failed && events.write }

/-- The section of `idle` for a reported event; `accepted` is the result of `epoll_ctl`. -/
def handle (r : Reported) (accepted : Bool) (m : IOManager) : IOManager :=
  let fd_ctx := m.heap r.fd_ctx
  let real_events := r.real_events fd_ctx.events
  if fd_ctx.events.inter real_events = .none then m
  else if !accepted then m
  else
    let m := m.epollCtl fd_ctx.fd (fd_ctx.events.diff real_events).left
    let m := if real_events.has .read then trigger r.fd_ctx .read m else m
    if real_events.has .write then trigger r.fd_ctx .write m else m

/-- The thread of a step. -/
def Action.thread : Action → ℕ
  | call t _ | lookup t | resize t | locked t _ => t

/-- The manager with what the idle loop of each thread has still to handle. -/
structure Idle where
  io : IOManager
  ready : ℕ → List Reported

namespace Idle

/-- A step: of a call, the return of `epoll_wait`, or a section of the loop. -/
inductive Action
  | io (a : IOManager.Action)
  | wait (t : ℕ) (events : List Reported)
  | handle (t : ℕ) (accepted : Bool)
  deriving DecidableEq, Repr

/-- The constructor. -/
def new : Idle where
  io := .new
  ready := fun _ => []

/-- What the kernel may report: events of a context that it watches for the file descriptor. -/
def Reports (m : IOManager) (r : Reported) : Prop :=
  r.fd_ctx < m.allocated ∧ ∃ events ∈ m.epoll (m.heap r.fd_ctx).fd,
    (r.epollin → events.read) ∧ (r.epollout → events.write)

instance (m : IOManager) (r : Reported) : Decidable (Reports m r) := by
  unfold Reports
  infer_instance

def step (s : Idle) : Action → Option Idle
  | .io a => if s.ready a.thread = [] then (s.io.step a).map fun io => { s with io := io } else none
  | .wait t events =>
    match s.io.threads t with
    | .idle _ =>
      if s.ready t = [] ∧ events.length ≤ 64 ∧ ∀ r ∈ events, Reports s.io r then
        some { s with ready := Function.update s.ready t events }
      else none
    | _ => none
  | .handle t accepted =>
    match s.ready t with
    | [] => none
    | r :: rest =>
      some { io := IOManager.handle r accepted s.io, ready := Function.update s.ready t rest }

/-- The machine of the calls and the idle loops; an aborted program does not go on. -/
def machine : Machine Idle Action where
  step s a := if s.io.aborted = false then s.step a else none

end Idle

variable {m m' : IOManager} {c : ℕ} {e : Event} {r : Reported} {real : Events} {s s' : Idle}

/-! ## A section -/

/-- **A sound section**: no assertion fails, the pending count goes down once for each event that is
removed, and what stays registered stays in the mask of epoll. -/
structure Sound (r : Reported) (m m' : IOManager) : Prop where
  running : m'.aborted = false
  pending : m'.pendingEventCount = m.pendingEventCount -
    ((m.heap r.fd_ctx).events.diff (m'.heap r.fd_ctx).events).count
  kept : ∀ e, (m'.heap r.fd_ctx).events.has e = true →
    ∀ mask ∈ m.epoll (m.heap r.fd_ctx).fd, mask.has e = true →
      ∃ mask' ∈ m'.epoll (m.heap r.fd_ctx).fd, mask'.has e = true

/-- The mask is fresh: no event that it reports is registered any more, or every one is. -/
def Fresh (r : Reported) (m : IOManager) : Prop :=
  (m.heap r.fd_ctx).events.inter (r.real_events (m.heap r.fd_ctx).events) = .none ∨
    (r.epollin → (m.heap r.fd_ctx).events.read) ∧ (r.epollout → (m.heap r.fd_ctx).events.write)

@[simp] theorem Events.has_diff (events other : Events) (e : Event) :
    (events.diff other).has e = (events.has e && !other.has e) := by
  cases e <;> rfl

@[simp] theorem Events.diff_self (events : Events) : events.diff events = .none := by
  simp [Events.diff, Events.none]

theorem Events.diff_diff {events : Events} (h : ∀ e, real.has e = true → events.has e = true) :
    events.diff (events.diff real) = real := by
  have hread := h .read
  have hwrite := h .write
  obtain ⟨er, ew⟩ := events
  obtain ⟨rr, rw⟩ := real
  simp only [Events.has] at hread hwrite
  simp only [Events.diff, Events.mk.injEq]
  constructor
  · cases er <;> cases rr <;> simp_all
  · cases ew <;> cases rw <;> simp_all

theorem Events.has_left {events : Events} (h : events.has e = true) :
    events.left = some events := if_neg (Events.ne_none_of_has h)

/-- What a fresh mask reports is registered. -/
theorem Reported.has_of_has {events : Events} (hread : r.epollin → events.read)
    (hwrite : r.epollout → events.write) (e : Event) (he : (r.real_events events).has e = true) :
    events.has e = true := by
  cases e <;> simp only [Reported.real_events, Events.has] at * <;> grind

theorem aborted_trigger (h : m.aborted = true) : (trigger c e m).aborted = true := by
  unfold trigger
  split
  · rfl
  · exact h

/-- The assertion of `triggerEvent`. -/
theorem trigger_fails (h : (m.heap c).events.has e = false) : (trigger c e m).aborted = true := by
  rw [trigger, FdContext.triggerEvent, if_neg (by simp [h])]
  rfl

/-- The events `real` of a context consumed. -/
def settle (real : Events) (c : ℕ) (m : IOManager) : IOManager :=
  let m := if real.has .read then consume .scheduled c .read m else m
  if real.has .write then consume .scheduled c .write m else m

theorem Inv.settle (h : m.Inv) (hc : c < m.allocated)
    (hreal : ∀ e, real.has e = true → (m.heap c).events.has e = true) :
    (IOManager.settle real c m).Inv := by
  have hwrite : real.has .write = true →
      ((IOManager.consume .scheduled c .read m).heap c).events.has .write = true := by
    intro he
    simpa [FdContext.cleared, FdContext.resetContext] using hreal _ he
  unfold IOManager.settle
  by_cases hread : real.has .read = true
  · rw [if_pos hread]
    have hconsumed := h.consume .scheduled hc (hreal _ hread)
    split_ifs with he
    · exact hconsumed.consume .scheduled hc (hwrite he)
    · exact hconsumed
  · rw [if_neg hread]
    split_ifs with he
    · exact h.consume .scheduled hc (hreal _ he)
    · exact h

theorem events_settle : ((settle real c m).heap c).events = (m.heap c).events.diff real := by
  obtain ⟨hread, hwrite⟩ := real
  cases hread <;> cases hwrite <;> simp [settle, Events.has, FdContext.cleared,
    FdContext.resetContext, Events.erase, Events.diff]

theorem pending_settle :
    (settle real c m).pendingEventCount = m.pendingEventCount - real.count := by
  obtain ⟨hread, hwrite⟩ := real
  cases hread <;> cases hwrite <;> simp [settle, Events.has, consume, Events.count]
  omega

theorem epoll_settle : (settle real c m).epoll = m.epoll := by
  unfold settle
  split_ifs <;> rfl

/-- A fresh mask is settled. -/
theorem handle_eq (h : (m.heap r.fd_ctx).Consistent)
    (hreal : ∀ e, (r.real_events (m.heap r.fd_ctx).events).has e = true →
      (m.heap r.fd_ctx).events.has e = true)
    (hne : (m.heap r.fd_ctx).events.inter (r.real_events (m.heap r.fd_ctx).events) ≠ .none) :
    handle r true m = settle (r.real_events (m.heap r.fd_ctx).events) r.fd_ctx
      (m.epollCtl (m.heap r.fd_ctx).fd
        ((m.heap r.fd_ctx).events.diff (r.real_events (m.heap r.fd_ctx).events)).left) := by
  simp only [handle, if_neg hne, Bool.not_true, Bool.false_eq_true, if_false, settle]
  generalize r.real_events (m.heap r.fd_ctx).events = real at *
  have hheap : (m.epollCtl (m.heap r.fd_ctx).fd
    ((m.heap r.fd_ctx).events.diff real).left).heap = m.heap := rfl
  generalize m.epollCtl (m.heap r.fd_ctx).fd ((m.heap r.fd_ctx).events.diff real).left = m₁ at *
  rw [← hheap] at h hreal
  by_cases hread : real.has .read = true
  · have htrigger := trigger_eq h (hreal _ hread)
    have hheap' : ((consume .scheduled r.fd_ctx .read m₁).heap r.fd_ctx) =
        (m₁.heap r.fd_ctx).cleared .read := by simp
    simp only [hread, if_true, htrigger]
    split_ifs with hwrite
    · refine trigger_eq ?_ ?_
      · rw [hheap']
        exact h.cleared _
      · rw [hheap']
        simpa [FdContext.cleared, FdContext.resetContext] using hreal _ hwrite
    · rfl
  · simp only [hread, Bool.false_eq_true, if_false]
    split_ifs with hwrite
    · exact trigger_eq h (hreal _ hwrite)
    · rfl

theorem handle_skip (h : (m.heap r.fd_ctx).events.inter
    (r.real_events (m.heap r.fd_ctx).events) = .none) (accepted : Bool) :
    handle r accepted m = m := if_pos h

theorem handle_rejected : handle r false m = m := by
  unfold handle
  simp

theorem Sound.refl (h : m.aborted = false) : Sound r m m where
  running := h
  pending := by simp [Events.count, Events.none]
  kept := fun _ _ mask hmask he => ⟨mask, hmask, he⟩

/-- A stale mask makes the assertion of `triggerEvent` fail. -/
theorem handle_fails (hc : (m.heap r.fd_ctx).Consistent) (h : ¬ Fresh r m) :
    (handle r true m).aborted = true := by
  obtain ⟨hne, hstale⟩ := not_or.mp h
  simp only [handle, if_neg hne, Bool.not_true, Bool.false_eq_true, if_false]
  set real := r.real_events (m.heap r.fd_ctx).events with hreal
  have hheap : (m.epollCtl (m.heap r.fd_ctx).fd
    ((m.heap r.fd_ctx).events.diff real).left).heap = m.heap := rfl
  generalize m.epollCtl (m.heap r.fd_ctx).fd ((m.heap r.fd_ctx).events.diff real).left = m₁ at *
  by_cases hread : r.epollin = true ∧ (m.heap r.fd_ctx).events.has .read = false
  · have hhas : real.has .read = true := by simp [hreal, Reported.real_events, Events.has, hread.1]
    have hfirst : (trigger r.fd_ctx .read m₁).aborted = true := by
      apply trigger_fails
      rw [hheap]
      exact hread.2
    rw [if_pos hhas]
    split_ifs
    · exact aborted_trigger hfirst
    · exact hfirst
  · have hwrite : r.epollout = true ∧ (m.heap r.fd_ctx).events.has .write = false := by
      simp only [Events.has] at hread ⊢
      grind
    have hhas : real.has .write = true := by
      simp [hreal, Reported.real_events, Events.has, hwrite.1]
    rw [if_pos hhas]
    apply trigger_fails
    split_ifs with hfirst
    · have hregistered : (m₁.heap r.fd_ctx).events.has .read = true := by
        rw [hheap]
        simp only [hreal, Reported.real_events, Events.has] at hfirst hread ⊢
        grind
      rw [trigger_eq (hheap ▸ hc) hregistered, heap_consume, if_pos rfl, hheap]
      simpa [FdContext.cleared, FdContext.resetContext] using hwrite.2
    · rw [hheap]
      exact hwrite.2

/-- **One section** is sound exactly if `epoll_ctl` fails or the mask is fresh. -/
theorem handle_sound_iff (h : m.Inv) (accepted : Bool) :
    Sound r m (handle r accepted m) ↔ (accepted = true → Fresh r m) := by
  constructor
  · rintro hsound rfl
    by_contra hstale
    have hfail := handle_fails (h.consistent _) hstale
    rw [hsound.running] at hfail
    cases hfail
  · intro hfresh
    cases accepted with
    | false =>
      rw [handle_rejected]
      exact .refl h.running
    | true =>
      by_cases hskip : (m.heap r.fd_ctx).events.inter
        (r.real_events (m.heap r.fd_ctx).events) = .none
      · rw [handle_skip hskip]
        exact .refl h.running
      · obtain ⟨hread, hwrite⟩ := (hfresh rfl).resolve_left hskip
        have hreal := Reported.has_of_has hread hwrite
        rw [handle_eq (h.consistent _) hreal hskip]
        set real := r.real_events (m.heap r.fd_ctx).events
        refine ⟨?_, ?_, fun e he _ _ _ => ?_⟩
        · unfold settle
          split_ifs <;> exact h.running
        · rw [pending_settle, events_settle]
          change m.pendingEventCount - _ = m.pendingEventCount - (Events.count (Events.diff
            (m.heap r.fd_ctx).events ((m.heap r.fd_ctx).events.diff real)) : ℤ)
          rw [Events.diff_diff hreal]
        · rw [events_settle] at he
          change ((m.heap r.fd_ctx).events.diff real).has e = true at he
          refine ⟨_, ?_, he⟩
          rw [epoll_settle]
          change _ ∈ Function.update m.epoll _ _ _
          rw [Function.update_self, Events.has_left he]
          rfl

/-! ## Runs -/

/-- `addEvent` for an event that is registered already fails its assertion. -/
theorem promised_of_running {a : Action} (hs : m.step a = some m') (hrun : m'.aborted = false) :
    m.Promised a := by
  obtain ⟨_, _, _, rfl, -⟩ | ⟨_, _, _, rfl, -⟩ | ⟨_, _, _, rfl, -⟩ |
    ⟨t, op, k, c, accepted, rfl, ht, rfl⟩ := step_cases hs
  · trivial
  · trivial
  · trivial
  · simp only [Promised, ht]
    cases op with
    | addEvent fd e cb sch =>
      by_contra hhas
      have hfails : (runLocked (.addEvent fd e cb sch) k c accepted m).2.aborted = true := by
        simp only [Bool.not_eq_false] at hhas
        simp [runLocked, addEvent, hhas, abort]
      exact Bool.noConfusion (hfails.symm.trans hrun)
    | _ => trivial

theorem allocated_step {a : Action} (h : m.Inv) (hs : machine.step m a = some m') :
    m.allocated ≤ m'.allocated := by
  simp only [machine] at hs
  split_ifs at hs with hok
  obtain ⟨-, hpromised⟩ := hok
  rcases step_cases hs with ⟨t, op, r, rfl, ht, rfl⟩ | ⟨t, op, k, rfl, ht, hlookup⟩ |
    ⟨t, op, k, rfl, ht, hresize⟩ | ⟨t, op, k, c, accepted, rfl, ht, rfl⟩
  · exact Nat.le_refl _
  · rcases hlookup with ⟨c, hc, rfl⟩ | ⟨hnone, rfl | rfl⟩ <;> exact Nat.le_refl _
  · obtain ⟨c₀, hc₀⟩ := lookup_contextResize (m := m) (h.resize t op k ht)
    rcases hresize with ⟨c, hc, rfl⟩ | hnone
    · exact Nat.le_add_right _ _
    · rw [hc₀] at hnone
      cases hnone
  · have hout := outcome_runLocked op (k := k) (h.consistent c) accepted (hpromised.not_has ht)
    change m.allocated ≤ (runLocked op k c accepted m).2.allocated
    generalize (runLocked op k c accepted m).2 = m₁ at hout
    cases hout with
    | unchanged => exact Nat.le_refl _
    | added _ _ _ hw => exact hw.allocated.ge
    | consumed _ _ hw => exact hw.allocated.ge

namespace Idle

/-- What holds in every run: the manager's own invariant, and the kernel reported contexts. -/
structure Inv (s : Idle) : Prop where
  io : s.io.Inv
  reported : ∀ t, ∀ r ∈ s.ready t, r.fd_ctx < s.io.allocated

theorem inv_new : new.Inv := ⟨IOManager.inv_new, fun _ _ hr => by cases hr⟩

/-- A step that does not abort keeps the invariant. -/
theorem Inv.step {a : Action} (h : s.Inv) (hs : machine.step s a = some s')
    (hrun : s'.io.aborted = false) : s'.Inv := by
  have hstep : s.step a = some s' := by
    simp only [machine, h.io.running, if_true] at hs
    exact hs
  cases a with
  | io a =>
    simp only [Idle.step] at hstep
    split_ifs at hstep
    obtain ⟨io, hio, rfl⟩ := Option.map_eq_some_iff.mp hstep
    have hmachine : IOManager.machine.step s.io a = some io :=
      (if_pos ⟨h.io.running, promised_of_running hio hrun⟩).trans hio
    refine ⟨h.io.step hmachine, fun t r hr => ?_⟩
    exact (h.reported t r hr).trans_le (allocated_step h.io hmachine)
  | wait t events =>
    simp only [Idle.step] at hstep
    split at hstep
    · split_ifs at hstep with hok
      cases hstep
      refine ⟨h.io, fun t' r hr => ?_⟩
      simp only at hr
      rcases eq_or_ne t' t with rfl | hne
      · rw [Function.update_self] at hr
        exact (hok.2.2 r hr).1
      · rw [Function.update_of_ne hne] at hr
        exact h.reported t' r hr
    · cases hstep
  | handle t accepted =>
    simp only [Idle.step] at hstep
    split at hstep
    · cases hstep
    · rename_i r rest hready
      cases hstep
      have hreported : ∀ t', ∀ r' ∈ Function.update s.ready t rest t',
          r'.fd_ctx < s.io.allocated := by
        intro t' r' hr'
        rcases eq_or_ne t' t with rfl | hne
        · rw [Function.update_self] at hr'
          exact h.reported t' r' (by rw [hready]; exact List.mem_cons_of_mem _ hr')
        · rw [Function.update_of_ne hne] at hr'
          exact h.reported t' r' hr'
      have hc : r.fd_ctx < s.io.allocated :=
        h.reported t r (by rw [hready]; exact List.mem_cons_self)
      cases accepted with
      | false =>
        rw [handle_rejected]
        exact ⟨h.io, hreported⟩
      | true =>
        -- the reported events may have been taken by another call meanwhile
        by_cases hskip : (s.io.heap r.fd_ctx).events.inter
          (r.real_events (s.io.heap r.fd_ctx).events) = .none
        · rw [handle_skip hskip]
          exact ⟨h.io, hreported⟩
        -- a stale report would fail an assertion, and the run goes on
        · have hfresh : Fresh r s.io := by
            by_contra hstale
            have hfail := handle_fails (h.io.consistent _) hstale
            rw [show (handle r true s.io).aborted = false from hrun] at hfail
            cases hfail
          obtain ⟨hread, hwrite⟩ := hfresh.resolve_left hskip
          have hreal := Reported.has_of_has hread hwrite
          rw [handle_eq (h.io.consistent _) hreal hskip]
          refine ⟨(h.io.epollCtl _ _).settle hc hreal, fun t' r' hr' => ?_⟩
          refine (hreported t' r' hr').trans_eq ?_
          unfold IOManager.settle
          split_ifs <;> rfl

/-- The section that a step runs is sound. -/
def Handles (s : Idle) : Action → Prop
  | .handle t accepted => ∀ r ∈ (s.ready t).head?, Sound r s.io (IOManager.handle r accepted s.io)
  | _ => True

/-- The mask that a step acts on is fresh. -/
def Heeds (s : Idle) : Action → Prop
  | .handle t true => ∀ r ∈ (s.ready t).head?, Fresh r s.io
  | _ => True

theorem Inv.handles_iff (h : s.Inv) (a : Action) : s.Handles a ↔ s.Heeds a := by
  cases a with
  | handle t accepted =>
    cases accepted with
    | true =>
      simp only [Handles, Heeds, handle_sound_iff h.io, forall_const]
    | false =>
      simp only [Handles, Heeds, iff_true]
      intro r _
      rw [handle_sound_iff h.io]
      intro hfalse
      cases hfalse
  | _ => exact Iff.rfl

end Idle

/-- **The idle loops**: all sections of a run are sound exactly if none of them triggers on a mask
that has become stale. -/
theorem idle_sound_iff {as : List Idle.Action} (hrun : Idle.machine.run .new as = some s) :
    Idle.machine.Meets Idle.Handles .new as ↔ Idle.machine.Meets Idle.Heeds .new as := by
  refine Machine.meets_iff_meets (I := fun s => s.io.aborted = false → s.Inv)
    (fun s a s' h hs hrun => ?_) (fun s a s' h hs => ?_) (fun _ => Idle.inv_new) hrun
  · refine (h ?_).step hs hrun
    simp only [Idle.machine] at hs
    split_ifs at hs with halive
    exact halive
  · refine (h ?_).handles_iff a
    simp only [Idle.machine] at hs
    split_ifs at hs with halive
    exact halive

/-- A reader that epoll reports as ready. -/
theorem idle_sound_iff_reader :
    let as : List Idle.Action := [.io (.call 0 (.addEvent 3 .read true 7)), .io (.lookup 0),
      .io (.locked 0 true), .wait 1 [{ fd_ctx := 3, epollin := true }], .handle 1 true]
    (∃ s, Idle.machine.run .new as = some s ∧ s.io.consumed = [(.scheduled, 0)]) ∧
      (Idle.machine.Meets Idle.Handles .new as ↔ Idle.machine.Meets Idle.Heeds .new as) :=
  ⟨⟨_, rfl, rfl⟩, idle_sound_iff rfl⟩

/-- A stale mask: epoll reports a socket with a reader and a writer as ready for both; the reader is
deleted before the loop comes to it, and the loop triggers it. -/
theorem stale_mask_aborts :
    ∃ s, Idle.machine.run .new [.io (.call 0 (.addEvent 3 .read true 7)), .io (.lookup 0),
        .io (.locked 0 true), .io (.call 0 (.addEvent 3 .write true 7)), .io (.lookup 0),
        .io (.locked 0 true), .wait 1 [{ fd_ctx := 3, epollin := true, epollout := true }],
        .io (.call 0 (.delEvent 3 .read)), .io (.lookup 0), .io (.locked 0 true)] = some s ∧
      (s.io.heap 3).events = { write := true } ∧ s.io.aborted = false ∧
      ∃ s', Idle.machine.step s (.handle 1 true) = some s' ∧ s'.io.aborted = true :=
  ⟨_, rfl, rfl, rfl, _, rfl, rfl⟩

end IOManager

end Sylar

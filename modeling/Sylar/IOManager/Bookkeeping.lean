import Mathlib.Algebra.BigOperators.Ring.Finset
import Mathlib.Algebra.Order.BigOperators.Group.Finset
import Sylar.IOManager.Invariant

/-!
# The bookkeeping of events

What the interleaving can break is the table: a resize computed from an outdated size cuts
contexts off that are in use. The table, epoll and the pending count agree in every state exactly
as long as this does not happen.

## Main definitions

* `Bookkeeping`: the table, epoll, the pending count and the waiters agree
* `Retains`: a step keeps the contexts in use in the table

## Main results

* `Inv.agrees_step`: a step from a state that agrees leads to one exactly if it meets `Retains`
* `bookkeeping_iff`: a run keeps `Bookkeeping` exactly if all its steps meet `Retains`
-/

namespace Sylar

open Foundation

namespace IOManager

variable {m m' : IOManager} {c fd k t : ℕ} {e : Event} {op : Op}

/-! ## The bookkeeping -/

/-- The events registered for a file descriptor, as epoll should have them. -/
def registered (m : IOManager) (fd : ℕ) : Option Events :=
  m.fdContexts[fd]?.bind fun c => (m.heap c).events.left

/-- The number of events registered in the table. -/
def total (m : IOManager) : ℕ := (m.fdContexts.map fun c => (m.heap c).events.count).sum

/-- **The bookkeeping of events agrees.** An event of a file descriptor is set exactly if a
scheduler and exactly one of callback and fiber wait for it; epoll has the events of every file
descriptor; the pending count is their number; a registration is consumed at most once, and not
while it waits; no assertion failed. -/
structure Bookkeeping (m : IOManager) : Prop where
  contexts : ∀ (fd c : ℕ), m.fdContexts[fd]? = some c → ∀ e, (m.heap c).events.has e = true ↔
    ((m.heap c).getContext e).scheduler.isSome ∧
      ((m.heap c).getContext e).cb.isSome ≠ ((m.heap c).getContext e).fiber.isSome
  epoll : ∀ fd, m.epoll fd = m.registered fd
  pending : m.pendingEventCount = m.total
  consumed : (m.consumed.map Prod.snd).Nodup
  held : ∀ (fd c : ℕ), m.fdContexts[fd]? = some c → ∀ e, ∀ k ∈ m.held c e,
    k ∉ m.consumed.map Prod.snd
  running : m.aborted = false

/-- The step keeps the contexts in use in the table: a resize cuts off only contexts without
events, and `addEvent` registers on the context that the table has for the file descriptor. -/
def Retains (m : IOManager) : Action → Prop
  | .resize t =>
    match m.threads t with
    | .resize op _ => ∀ c ∈ m.fdContexts.drop (op.fd * 3 / 2), (m.heap c).events = .none
    | _ => True
  | .locked t true =>
    match m.threads t with
    | .locked (.addEvent fd ..) _ c => m.fdContexts[fd]? = some c
    | _ => True
  | _ => True

/-- The contexts off the table have no events, and epoll has those of the table. -/
structure Agrees (m : IOManager) : Prop where
  retained : ∀ c < m.allocated, c ∉ m.fdContexts → (m.heap c).events = .none
  epoll : ∀ fd, m.epoll fd = m.registered fd

theorem FdContext.Consistent.has_iff {x : FdContext} (h : x.Consistent) : x.events.has e = true ↔
    (x.getContext e).scheduler.isSome ∧
      (x.getContext e).cb.isSome ≠ (x.getContext e).fiber.isSome := by
  have he := h e
  by_cases hhas : x.events.has e = true
  · rw [if_pos hhas] at he
    obtain ⟨hs, hw⟩ := he
    refine iff_of_true hhas ⟨hs, ?_⟩
    generalize x.getContext e = y at hw
    obtain ⟨_, fiber, cb⟩ := y
    cases fiber <;> cases cb <;> simp_all [EventContext.waiters]
  · rw [if_neg hhas] at he
    simp [hhas, he]

theorem Inv.pending_iff (h : m.Inv) : m.pendingEventCount = m.total ↔
    ∀ c < m.allocated, c ∉ m.fdContexts → (m.heap c).events = .none := by
  have hsub : m.fdContexts.toFinset ⊆ Finset.range m.allocated := by
    intro c hc
    exact Finset.mem_range.mpr (h.allocated c (List.mem_toFinset.mp hc))
  have htotal : (m.total : ℤ) = ∑ c ∈ m.fdContexts.toFinset, ((m.heap c).events.count : ℤ) := by
    rw [total, ← List.sum_toFinset _ h.nodup]
    push_cast
    rfl
  have hrest : ∑ c ∈ Finset.range m.allocated \ m.fdContexts.toFinset,
      ((m.heap c).events.count : ℤ) = 0 ↔
      ∀ c < m.allocated, c ∉ m.fdContexts → (m.heap c).events = .none := by
    rw [Finset.sum_eq_zero_iff_of_nonneg fun _ _ => Int.natCast_nonneg _]
    simp [Events.count_eq_zero]
  rw [← hrest, h.pending, htotal, ← Finset.sum_sdiff hsub]
  omega

theorem Inv.bookkeeping_iff_agrees (h : m.Inv) : m.Bookkeeping ↔ m.Agrees := by
  constructor
  · exact fun hb => ⟨h.pending_iff.mp hb.pending, hb.epoll⟩
  · exact fun ha => ⟨fun _ c _ e => (h.consistent c).has_iff, ha.epoll,
      h.pending_iff.mpr ha.retained, h.placed.consumed, fun _ c _ e k hk => h.placed.held c e k hk,
      h.running⟩

/-- A section on a context of the table: epoll accepts what the context is left with. -/
theorem Agrees.rewrites (h : m.Agrees) (hinv : m.Inv) (hc : m.fdContexts[fd]? = some c)
    (hw : Rewrites c fd m m') : m'.Agrees := by
  have hmem : c ∈ m.fdContexts := List.mem_of_getElem? hc
  refine ⟨fun c' hlt hnot => ?_, fun fd' => ?_⟩
  · rw [hw.fdContexts] at hnot
    rw [hw.heap c' fun heq => hnot (heq ▸ hmem)]
    exact h.retained c' (hw.allocated ▸ hlt) hnot
  · rw [hw.epoll, registered, hw.fdContexts]
    rcases eq_or_ne fd' fd with rfl | hne
    · rw [Function.update_self, hc]
      rfl
    · rw [Function.update_of_ne hne, h.epoll, registered]
      cases hc' : m.fdContexts[fd']? with
      | none => rfl
      | some c' =>
        have hcc : c' ≠ c := by
          rintro rfl
          exact hne ((hinv.fd fd' c' hc').symm.trans (hinv.fd fd c' hc))
        simp only [Option.bind_some, hw.heap c' hcc]

theorem Inv.mem_fdContexts_iff (h : m.Inv) (hfd : (m.heap c).fd = fd) :
    c ∈ m.fdContexts ↔ m.fdContexts[fd]? = some c := by
  refine ⟨fun hmem => ?_, List.mem_of_getElem?⟩
  obtain ⟨i, hi⟩ := List.getElem?_of_mem hmem
  rwa [← hfd, h.fd i c hi]

theorem registered_contextResize (h : m.Inv) {size : ℕ}
    (hdrop : ∀ c ∈ m.fdContexts.drop size, (m.heap c).events = .none) :
    (contextResize size m).registered fd = m.registered fd := by
  rw [registered, registered, getElem?_contextResize]
  split_ifs with hi hlen
  · rw [List.getElem?_eq_getElem hlen]
    simp only [Option.bind_some]
    rw [heap_contextResize_of_lt _ (h.allocated _ (List.getElem_mem hlen))]
  · rw [List.getElem?_eq_none (Nat.le_of_not_lt hlen)]
    simp only [Option.bind_some, Option.bind_none]
    rw [heap_contextResize_new (by omega) (by omega)]
    simp [Events.left]
  · cases hc : m.fdContexts[fd]? with
    | none => rfl
    | some c =>
      have hmem : c ∈ m.fdContexts.drop size := by
        refine List.mem_of_getElem? (i := fd - size) ?_
        rwa [List.getElem?_drop, Nat.add_sub_cancel' (Nat.le_of_not_lt hi)]
      simp [hdrop c hmem, Events.left]

/-- A resize agrees exactly if it cuts no context in use off. -/
theorem agrees_contextResize_iff (h : m.Inv) (ha : m.Agrees) {size : ℕ} :
    (contextResize size m).Agrees ↔ ∀ c ∈ m.fdContexts.drop size, (m.heap c).events = .none := by
  constructor
  · intro h' c hc
    have hlt := h.allocated c (List.mem_of_mem_drop hc)
    rw [← heap_contextResize_of_lt size hlt]
    refine h'.retained c (Nat.lt_add_right _ hlt) fun hmem => ?_
    rcases mem_contextResize.mp hmem with hmem | ⟨hle, -⟩
    · exact List.disjoint_take_drop h.nodup (Nat.le_refl size) hmem hc
    · omega
  · intro hdrop
    refine ⟨fun c hlt hnot => ?_, fun fd => ?_⟩
    · have hold : c < m.allocated := by
        by_contra hge
        exact hnot (mem_contextResize.mpr (.inr ⟨Nat.le_of_not_lt hge, hlt⟩))
      rw [heap_contextResize_of_lt _ hold]
      by_cases hmem : c ∈ m.fdContexts
      · rw [← List.take_append_drop size m.fdContexts, List.mem_append] at hmem
        refine hdrop c (hmem.resolve_left fun htake => hnot ?_)
        exact mem_contextResize.mpr (.inl htake)
      · exact ha.retained c hold hmem
    · rw [registered_contextResize h hdrop]
      exact ha.epoll fd

/-- **One step**: from a state that agrees, a step leads to one exactly if it retains the contexts
in use. -/
theorem Inv.agrees_step {a : Action} (h : m.Inv) (ha : m.Agrees)
    (hs : machine.step m a = some m') : m'.Agrees ↔ m.Retains a := by
  have hinv' := h.step hs
  simp only [machine] at hs
  split_ifs at hs with hok
  obtain ⟨-, hpromised⟩ := hok
  rcases step_cases hs with ⟨t, op, r, rfl, ht, rfl⟩ | ⟨t, op, k, rfl, ht, hlookup⟩ |
    ⟨t, op, k, rfl, ht, hresize⟩ | ⟨t, op, k, c, accepted, rfl, ht, rfl⟩
  · exact iff_of_true ⟨ha.retained, ha.epoll⟩ trivial
  · refine iff_of_true ?_ trivial
    rcases hlookup with ⟨c, hc, rfl⟩ | ⟨hnone, rfl | rfl⟩ <;> exact ⟨ha.retained, ha.epoll⟩
  -- a resize may cut contexts off, and those must not wait for events
  · have hret : m.Retains (.resize t) ↔
        ∀ c ∈ m.fdContexts.drop (op.fd * 3 / 2), (m.heap c).events = .none := by
      simp only [Retains, ht]
    rw [hret, ← agrees_contextResize_iff h ha]
    obtain ⟨c₀, hc₀⟩ := lookup_contextResize (m := m) (h.resize t op k ht)
    rcases hresize with ⟨c, hc, rfl⟩ | hnone
    · exact ⟨fun h' => ⟨h'.retained, h'.epoll⟩, fun h' => ⟨h'.retained, h'.epoll⟩⟩
    · rw [hc₀] at hnone
      cases hnone
  · obtain ⟨hlt, hfd⟩ := h.locked t op k c ht
    have hframe : ∀ m'' : IOManager, ∀ pc, (m''.goto t pc).Agrees ↔ m''.Agrees :=
      fun m'' pc => ⟨fun h' => ⟨h'.1, h'.2⟩, fun h' => ⟨h'.1, h'.2⟩⟩
    rw [hframe]
    have hout := outcome_runLocked op (k := k) (h.consistent c) accepted
      (hpromised.not_has ht)
    generalize hr : (IOManager.runLocked op k c accepted m).2 = m₁ at *
    have hret : (¬ ∃ fd e cb s, op = .addEvent fd e cb s) → m.Retains (.locked t accepted) := by
      intro hop
      cases accepted with
      | false => trivial
      | true =>
        simp only [Retains, ht]
        cases op with
        | addEvent fd e cb s => exact absurd ⟨fd, e, cb, s, rfl⟩ hop
        | _ => trivial
    -- what the section did to the context that its call kept
    cases hout with
    | unchanged hop =>
      refine iff_of_true ha ?_
      cases accepted with
      | false => trivial
      | true => exact hret fun hadd => nomatch hop hadd
    | added hop hacc hevents hw =>
      obtain ⟨fd, e, cb, s, rfl⟩ := hop
      subst hacc
      simp only [Retains, ht]
      refine ⟨fun h' => ?_, fun hc => ha.rewrites h hc hw⟩
      refine (h.mem_fdContexts_iff hfd).mp ?_
      by_contra hnot
      refine hevents (h'.retained c (hw.allocated ▸ hlt) ?_)
      rwa [hw.fdContexts]
    | consumed hop hevents hw =>
      refine iff_of_true ?_ (hret hop)
      refine ha.rewrites h ((h.mem_fdContexts_iff hfd).mp ?_) hw
      by_contra hnot
      exact hevents (ha.retained c hlt hnot)

theorem new_agrees : new.Agrees := by
  have hall : ∀ c < new.allocated, c ∈ new.fdContexts := by decide
  refine ⟨fun c hlt hnot => absurd (hall c hlt) hnot, fun fd => ?_⟩
  cases hc : new.fdContexts[fd]? with
  | none => rw [registered, hc]; rfl
  | some c =>
    have hlt : c < 32 := inv_new.allocated c (List.mem_of_getElem? hc)
    have hempty : ∀ c < 32, (new.heap c).events.left = none := by decide
    rw [registered, hc, Option.bind_some, hempty c hlt]
    rfl

/-- A section whose `epoll_ctl` fails changes nothing: the call returns. -/
theorem section_failed (hs : machine.step m (.locked t false) = some m') :
    m' = m.goto t (.idle (some false)) := by
  simp only [machine] at hs
  split_ifs at hs with hok
  obtain ⟨-, hpromised⟩ := hok
  obtain ⟨_, _, _, ha, -⟩ | ⟨_, _, _, ha, -⟩ | ⟨_, _, _, ha, -⟩ |
    ⟨t', op, k, c, accepted, ha, ht, rfl⟩ := step_cases hs
  all_goals cases ha
  have hfailed : IOManager.runLocked op k c false m = (false, m) := by
    cases op with
    | addEvent fd e cb s =>
      simp [IOManager.runLocked, addEvent, hpromised.not_has ht e ⟨fd, cb, s, rfl⟩]
    | _ => simp [IOManager.runLocked, delEvent, cancelEvent, cancelAll]
  rw [hfailed]

/-- **The bookkeeping of events**: a run keeps the bookkeeping exactly if no step of it cuts a
context in use off the table, and a call whose `epoll_ctl` fails changes nothing. -/
theorem bookkeeping_iff {as : List Action} (hrun : machine.run new as = some m) :
    (machine.Keeps Bookkeeping new as ↔ machine.Meets Retains new as) ∧
      ∀ s t s', machine.step s (.locked t false) = some s' →
        s' = s.goto t (.idle (some false)) := by
  refine ⟨Machine.keeps_iff_meets (I := Inv) (fun s a s' h hs => h.step hs) ?_ inv_new
    (inv_new.bookkeeping_iff_agrees.mpr new_agrees) hrun, fun s t s' => section_failed⟩
  intro s a s' h hb hs
  rw [(h.step hs).bookkeeping_iff_agrees]
  exact h.agrees_step (h.bookkeeping_iff_agrees.mp hb) hs

/-- A reader added and cancelled. -/
theorem bookkeeping_iff_cancelled :
    let as := [.call 0 (.addEvent 3 .read true 7), .lookup 0, .locked 0 true,
      .call 0 (.cancelEvent 3 .read), .lookup 0, .locked 0 true]
    (∃ m, machine.run new as = some m ∧ m.consumed = [(.scheduled, 0)]) ∧
      (machine.Keeps Bookkeeping new as ↔ machine.Meets Retains new as) :=
  ⟨⟨_, rfl, rfl⟩, (bookkeeping_iff rfl).1⟩

/-- A lost registration: two calls find the table too small, the one for the smaller file
descriptor resizes last. No call is in flight, epoll has a reader of 100 that the table does not
have, and the pending count is 2 with one event in the table. -/
theorem resize_loses_registration :
    ∃ m, machine.run new [.call 0 (.addEvent 100 .read true 7), .call 1 (.addEvent 40 .read true 7),
        .lookup 0, .lookup 1, .resize 0, .locked 0 true, .resize 1, .locked 1 true] = some m ∧
      (∀ t, ∃ r, m.threads t = .idle r) ∧ m.epoll 100 = some { read := true } ∧
      m.registered 100 = none ∧ m.pendingEventCount = 2 ∧ m.total = 1 := by
  refine ⟨_, rfl, fun t => ?_, rfl, by decide +kernel, rfl, by decide +kernel⟩
  rcases t with _ | _ | t <;> exact ⟨_, rfl⟩

end IOManager

end Sylar

import Sylar.Foundation.Tickets
import Sylar.Scheduler.Exclusive
import Sylar.Scheduler.Steps

/-!
# What becomes of the tasks

Every entry of the queue is numbered when it is put there. A scan takes the first entry that its
thread may take; a fiber that has finished is dropped, and a callback is handed to a fiber whose
context starts with it. Entering such a context is what runs the callback: as long as no two threads
have a fiber in their hands, every callback that was taken is run once.

## Main definitions

* `Ledger`, `account`: which entries were taken by whom, and which callbacks were run
* `Accounted`: the ledger adds up
* `InOrder`: a step takes the first entry that its thread may take

## Main results

* `inOrder_step`: every step takes entries in order
* `Hands.step`, `Called.step`: a step that meets `Unheld` runs a callback once
* `accounted_of_unheld`: a run whose scans meet `Unheld` keeps `Accounted`
-/

namespace Sylar

open Foundation

namespace Scheduler

variable {s s' : Scheduler} {t t' f : ℕ} {th : Thread} {a : Action}

/-! ## The ledger -/

/-- The history of the tasks. -/
structure Ledger where
  tickets : Tickets ℕ FiberAndThread
  /-- The number that the thread's last scan took. -/
  turn : ℕ → Option ℕ
  /-- The thread's last scan took a fiber in state `TERM` or `EXCEPT`. -/
  dead : ℕ → Bool
  /-- The number of the entry whose callback is the fiber's `m_cb`. -/
  cb : ℕ → Option ℕ
  /-- The fiber's saved context is the one that `makecontext` made. -/
  fresh : ℕ → Bool
  /-- The entries whose callbacks were run. -/
  ran : List ℕ

namespace Ledger

def new : Ledger where
  tickets := .empty
  turn := fun _ => none
  dead := fun _ => false
  cb := fun _ => none
  fresh := fun _ => true
  ran := []

/-- A fiber is made, or made again. -/
def make (h : Ledger) (f : ℕ) (cb : Option ℕ) : Ledger :=
  { h with cb := Function.update h.cb f cb, fresh := Function.update h.fresh f true }

/-- A thread enters the context of a fiber. -/
def load (h : Ledger) (f : ℕ) : Ledger :=
  { h with ran := if h.fresh f then (h.cb f).toList ++ h.ran else h.ran }

end Ledger

/-- The entry is a fiber that has finished. -/
def FiberAndThread.finished (ft : FiberAndThread) (fibers : ℕ → Fiber) : Bool :=
  match ft.task with
  | .fiber f => (fibers f).state.finished
  | .cb _ => false

/-- The entry is a callback. -/
def FiberAndThread.isCb (ft : FiberAndThread) : Bool :=
  match ft.task with
  | .fiber _ => false
  | .cb _ => true

/-- What a step takes out of the queue. -/
def taken (s : Scheduler) (a : Action) (h : Ledger) : Ledger :=
  match s.scanner a with
  | some t =>
    let next := h.tickets.next (eligible s.fibers t)
    { h with
      tickets := h.tickets.take t (eligible s.fibers t)
      turn := Function.update h.turn t (next.map Prod.snd)
      dead := Function.update h.dead t (next.any fun e => e.1.finished s.fibers) }
  | none => h

/-- What thread `t` does to the contexts of fibers, by where it is. -/
def Ledger.goOn (h : Ledger) (s : Scheduler) (t : ℕ) : Pc → Ledger
  | .dispatch (some (.cb _)) => h.make ((s.threads t).cb_fiber.getD s.created) (h.turn t)
  | .load _ f => h.load f
  | .saving _ f => { h with fresh := Function.update h.fresh f false }
  | .clear f => h.make f none
  | _ => h

/-- What a step does to the contexts of fibers. -/
def contexts (s : Scheduler) (a : Action) (h : Ledger) : Ledger :=
  match a with
  | .start _ | .newFiber _ => h.make s.created none
  | .yield t state =>
    match (s.threads t).pc with
    -- `MainFunc` clears `m_cb` when the callback has returned
    | .running _ f => if state = .term then { h with cb := Function.update h.cb f none } else h
    | _ => h
  | .step t =>
    if (s.threads t).tickle = .none then h.goOn s t (s.threads t).pc else h
  | _ => h

/-- The ledger after a step. -/
def account (s : Scheduler) (a : Action) (h : Ledger) : Ledger :=
  let h := s.taken a h
  s.contexts a { h with tickets := h.tickets.put (entriesOf (s.puts a)) }

/-- The machine with the ledger. -/
def accounted : Machine (Scheduler × Ledger) Action := machine.observe account

/-- The thread has taken a callback that does not run yet. -/
def Pc.calls : Pc → Bool
  | .dispatch (some (.cb _)) | .enter .cb _ | .load .cb _ => true
  | _ => false

/-- **The ledger adds up**: what waits is `m_fibers`, `m_activeThreadCount` is the number of threads
in a turn, a thread whose scan took a finished fiber does not enter it, and a callback that was
taken was run once, unless its thread has not come to it yet. -/
structure Accounted (s : Scheduler) (h : Ledger) : Prop where
  queue : h.tickets.waiting.map Prod.fst = s.queue
  active : s.Tally
  discarded : ∀ t, h.dead t → (s.threads t).pc.turn →
    ∃ f, (s.threads t).pc = .dispatch (some (.fiber f))
  called : ∀ x ∈ h.tickets.taken, x.entry.isCb → h.ran.count x.number =
    if h.turn x.taker = some x.number ∧ (s.threads x.taker).pc.calls then 0 else 1
  only : ∀ n ∈ h.ran, ∃ x ∈ h.tickets.taken, x.number = n ∧ x.entry.isCb

/-- **A step takes entries in order**: what it takes is taken by the thread that scans, which may
take it, and every entry before it is for another thread or a fiber that runs. -/
def InOrder (c : Scheduler × Ledger) (a : Action) : Prop :=
  ∀ x ∈ (c.1.account a c.2).tickets.taken, x ∉ c.2.tickets.taken →
    c.1.scanner a = some x.taker ∧ eligible c.1.fibers x.taker x.entry ∧
      ∀ e ∈ c.2.tickets.waiting, e.2 < x.number →
        e.1.elsewhere x.taker ∨ e.1.executing c.1.fibers

/-! ## The queue -/

@[simp] theorem tickets_contexts (h : Ledger) : (s.contexts a h).tickets = h.tickets := by
  unfold contexts
  split <;> try split
  all_goals try split
  all_goals try unfold Ledger.goOn
  all_goals try split
  all_goals rfl

theorem taken_account (h : Ledger) :
    (s.account a h).tickets.taken = (s.taken a h).tickets.taken := by
  rw [account, tickets_contexts]
  rfl

theorem waiting_taken {h : Ledger} (hq : h.tickets.waiting.map Prod.fst = s.queue) :
    (s.taken a h).tickets.waiting.map Prod.fst = s.left a := by
  unfold taken left
  cases s.scanner a with
  | none => exact hq
  | some t =>
    simp only [Tickets.waiting_take]
    rw [← hq, List.eraseP_map]
    rfl

/-- **The waiting entries are those of the queue.** -/
theorem waiting_account {h : Ledger} (hq : h.tickets.waiting.map Prod.fst = s.queue)
    (hs : machine.step s a = some s') :
    (s.account a h).tickets.waiting.map Prod.fst = s'.queue := by
  rw [queue_step hs, account, tickets_contexts]
  simp only [Tickets.put, List.map_append, List.zipIdx_map_fst, waiting_taken hq]

/-- **Every step takes entries in order.** -/
theorem inOrder_step (c : Scheduler × Ledger) (a : Action) : InOrder c a := by
  intro x hx hnew
  rw [taken_account, taken] at hx
  split at hx
  · rename_i t ht
    cases hnext : c.2.tickets.next (eligible c.1.fibers t) with
    | none =>
      simp only [Tickets.take_none hnext] at hx
      exact absurd hx hnew
    | some e =>
      simp only [Tickets.taken_take hnext, List.mem_cons] at hx
      obtain rfl := hx.resolve_right hnew
      obtain ⟨-, -, -, hsuits, -⟩ := Tickets.next_spec hnext
      refine ⟨ht, hsuits, fun e' he' hlt => ?_⟩
      have hno := Tickets.take_first hnext he' hlt
      simp only [eligible, Bool.and_eq_false_iff, Bool.not_eq_false'] at hno
      exact hno
  · exact absurd hx hnew

/-! ## Callbacks -/

/-- The fiber into which the thread is about to switch for its callback. -/
def Pc.awaits? : Pc → Option ℕ
  | .enter .cb f | .load .cb f => some f
  | _ => none

/-- The fiber that the thread is about to enter, or has entered and not left, for its callback. -/
def Pc.carries? : Pc → Option ℕ
  | .enter .cb f | .load .cb f | .running .cb f | .saving .cb f => some f
  | _ => none

theorem holds_of_carries (h : th.pc.carries? = some f) : th.holds f := by
  refine .inl ?_
  unfold Pc.carries? at h
  split at h <;> rename_i hpc
  all_goals first | exact (congrArg Pc.fiber? hpc).trans h | cases h

theorem carries_of_awaits {pc : Pc} (h : pc.awaits? = some f) : pc.carries? = some f := by
  unfold Pc.awaits? at h
  split at h <;> first | exact h | cases h

/-- What the ledger and the hands of the threads have to do with each other: the context of a fiber
starts with a callback that was taken only while the thread that took it has it in its hands. -/
structure Hands (s : Scheduler) (h : Ledger) : Prop where
  dead : ∀ t, h.dead t → (s.threads t).pc.turn →
    ∃ f, (s.threads t).pc = .dispatch (some (.fiber f)) ∧ (s.fibers f).state.finished
  mine : ∀ t, (s.threads t).pc.calls →
    ∃ x ∈ h.tickets.taken, x.taker = t ∧ h.turn t = some x.number ∧ x.entry.isCb
  ready : ∀ t f, (s.threads t).pc.awaits? = some f → h.fresh f ∧ h.cb f = h.turn t
  held : ∀ f, h.fresh f → (h.cb f).isSome → ∃ t, (s.threads t).pc.carries? = some f

/-- The callbacks that were taken and those that were run. -/
structure Called (s : Scheduler) (h : Ledger) : Prop where
  called : ∀ x ∈ h.tickets.taken, x.entry.isCb → h.ran.count x.number =
    if h.turn x.taker = some x.number ∧ (s.threads x.taker).pc.calls then 0 else 1
  only : ∀ n ∈ h.ran, ∃ x ∈ h.tickets.taken, x.number = n ∧ x.entry.isCb

variable {h h' : Ledger}

/-- **A thread moves**, and changes the contexts of fibers in its hands. -/
theorem Hands.move (hh : s.Hands h) (ho : s.Owned) (hi : s.Inv) (hm : s.Moves t s')
    (htaken : h'.tickets.taken = h.tickets.taken) (hturn : h'.turn = h.turn)
    (hdead : h'.dead = h.dead)
    (hown : ∀ f, h'.cb f = h.cb f ∧ h'.fresh f = h.fresh f ∨ (s.threads t).holds f ∨ f = s.created)
    (hdeads : h.dead t → (s'.threads t).pc.turn →
      ∃ f, (s'.threads t).pc = .dispatch (some (.fiber f)) ∧ (s'.fibers f).state.finished)
    (hcalls : (s'.threads t).pc.calls → (s.threads t).pc.calls)
    (hready : ∀ f, (s'.threads t).pc.awaits? = some f → h'.fresh f ∧ h'.cb f = h.turn t)
    (hheld : ∀ f, h'.fresh f → (h'.cb f).isSome → (s'.threads t).pc.carries? = some f ∨
      h.fresh f ∧ (h.cb f).isSome ∧ (s.threads t).pc.carries? ≠ some f) : s'.Hands h' := by
  -- a fiber in the hands of another thread is left alone
  have hother : ∀ t' f, t' ≠ t → (s.threads t').holds f →
      ¬ ((s.threads t).holds f ∨ f = s.created) := by
    rintro t' f hne hf (hf' | rfl)
    · exact hne (ho.unique t' t f hf hf')
    · exact hi.free t' hf
  refine ⟨fun t' hd hpc => ?_, fun t' hpc => ?_, fun t' f hf => ?_, fun f hfresh hcb => ?_⟩
  · rw [hdead] at hd
    rcases eq_or_ne t' t with rfl | hne
    · exact hdeads hd hpc
    · rw [hm.threads t' hne] at hpc ⊢
      obtain ⟨f, hf, hfin⟩ := hh.dead t' hd hpc
      have hfree := hother t' f hne (.inl (by rw [hf]; rfl))
      exact ⟨f, hf, by rwa [(hm.fibers f).resolve_right hfree]⟩
  · rw [htaken, hturn]
    rcases eq_or_ne t' t with rfl | hne
    · exact hh.mine t' (hcalls hpc)
    · rw [hm.threads t' hne] at hpc
      exact hh.mine t' hpc
  · rw [hturn]
    rcases eq_or_ne t' t with rfl | hne
    · exact hready f hf
    · rw [hm.threads t' hne] at hf
      obtain ⟨hcb, hfresh⟩ := (hown f).resolve_right
        (hother t' f hne (holds_of_carries (carries_of_awaits hf)))
      rw [hcb, hfresh]
      exact hh.ready t' f hf
  · rcases hheld f hfresh hcb with hself | ⟨hfresh, hcb, hnot⟩
    · exact ⟨t, hself⟩
    · obtain ⟨t', ht'⟩ := hh.held f hfresh hcb
      have hne : t' ≠ t := by
        rintro rfl
        exact hnot ht'
      exact ⟨t', by rw [hm.threads t' hne, ht']⟩

/-- A thread moves, and no callback is taken or run. -/
theorem Called.move (hc : s.Called h) (hm : s.Moves t s')
    (htaken : h'.tickets.taken = h.tickets.taken) (hturn : h'.turn = h.turn) (hran : h'.ran = h.ran)
    (hcalls : (s'.threads t).pc.calls = (s.threads t).pc.calls) : s'.Called h' := by
  refine ⟨fun x hx hcb => ?_, fun n hn => ?_⟩
  · rw [htaken] at hx
    have hpc : (s'.threads x.taker).pc.calls = (s.threads x.taker).pc.calls := by
      rcases eq_or_ne x.taker t with heq | hne
      · rw [heq, hcalls]
      · rw [hm.threads _ hne]
    rw [hran, hturn, hpc]
    exact hc.called x hx hcb
  · rw [htaken]
    exact hc.only n (hran ▸ hn)

/-- A step that takes and runs nothing leaves the records alone. -/
structure Ledger.Same (h h' : Ledger) : Prop where
  taken : h'.tickets.taken = h.tickets.taken
  turn : h'.turn = h.turn
  dead : h'.dead = h.dead
  ran : h'.ran = h.ran

/-- The books of a state. -/
structure Books (s : Scheduler) (h : Ledger) : Prop where
  inv : s.Inv
  owned : s.Owned
  hands : s.Hands h
  called : s.Called h

/-- A thread whose turn is past the look at the fiber's state did not take a finished fiber. -/
theorem Hands.alive (hh : s.Hands h) {pc : Pc} (hpc : (s.threads t).pc = pc)
    (hfiber : ∀ f, pc ≠ .dispatch (some (.fiber f))) (hturn : pc.turn) : h.dead t = false := by
  by_contra hd
  obtain ⟨f, hf, -⟩ := hh.dead t (by simpa using hd) (by rwa [hpc])
  exact hfiber f (hpc.symm.trans hf)

/-- **A thread moves and no callback is taken or run**; contexts are only taken out of use. -/
theorem Books.move (hb : s.Books h) (hm : s.Moves t s') (hi : s'.Inv) (ho : s'.Owned)
    (hsame : h.Same h')
    (hown : ∀ f, h'.cb f = h.cb f ∧ h'.fresh f = h.fresh f ∨ (s.threads t).holds f ∨ f = s.created)
    (hdeads : h.dead t → (s'.threads t).pc.turn →
      ∃ f, (s'.threads t).pc = .dispatch (some (.fiber f)) ∧ (s'.fibers f).state.finished)
    (hcalls : (s'.threads t).pc.calls = (s.threads t).pc.calls)
    (hready : ∀ f, (s'.threads t).pc.awaits? = some f → h'.fresh f ∧ h'.cb f = h.turn t)
    (hheld : ∀ f, h'.fresh f → (h'.cb f).isSome → (s'.threads t).pc.carries? = some f ∨
      h.fresh f ∧ (h.cb f).isSome ∧ (s.threads t).pc.carries? ≠ some f) : s'.Books h' where
  inv := hi
  owned := ho
  hands := hb.hands.move hb.owned hb.inv hm hsame.taken hsame.turn hsame.dead hown hdeads
    (fun hpc => hcalls ▸ hpc) hready hheld
  called := hb.called.move hm hsame.taken hsame.turn hsame.ran hcalls

/-- A thread stays where it is; at most a fiber is made. -/
theorem Books.stay (hb : s.Books h) (hm : s.Moves t s') (hi : s'.Inv) (ho : s'.Owned)
    (hsame : h.Same h') (hpc : (s'.threads t).pc = (s.threads t).pc)
    (hfibers : ∀ f, s'.fibers f = s.fibers f ∨ f = s.created)
    (hcontexts : ∀ f, h'.cb f = h.cb f ∧ h'.fresh f = h.fresh f ∨
      f = s.created ∧ h'.cb f = none) : s'.Books h' := by
  have hkeep : ∀ f, (s.threads t).holds f → f ≠ s.created := by
    rintro f hf rfl
    exact hb.inv.free t hf
  refine hb.move hm hi ho hsame (fun f => (hcontexts f).imp id fun hf => .inr hf.1)
    (fun hd hturn => ?_) (by rw [hpc]) (fun f hf => ?_) fun f hfresh hcb => ?_
  · rw [hpc] at hturn ⊢
    obtain ⟨f, hf, hfin⟩ := hb.hands.dead t hd hturn
    have hne := hkeep f (.inl (by rw [hf]; rfl))
    exact ⟨f, hf, by rwa [(hfibers f).resolve_right hne]⟩
  · rw [hpc] at hf
    have hne := hkeep f (holds_of_carries (carries_of_awaits hf))
    obtain ⟨hcb, hfresh⟩ := (hcontexts f).resolve_right fun h => hne h.1
    rw [hcb, hfresh]
    exact hb.hands.ready t f hf
  · rw [hpc]
    rcases hcontexts f with ⟨hcb', hfresh'⟩ | ⟨-, hnone⟩
    · rw [hcb'] at hcb
      rw [hfresh'] at hfresh
      exact (Classical.em _).imp id fun hnot => ⟨hfresh, hcb, hnot⟩
    · rw [hnone] at hcb
      cases hcb

/-- A thread goes on, and the contexts are as they were. -/
theorem Books.go (hb : s.Books h) (hm : s.Moves t s') (hi : s'.Inv) (ho : s'.Owned)
    (hsame : h.Same h') (hcb : h'.cb = h.cb) (hfresh : h'.fresh = h.fresh) {pc pc' : Pc}
    (hpc : (s.threads t).pc = pc) (hpc' : (s'.threads t).pc = pc')
    (hdeads : h.dead t → pc'.turn = false) (hcalls : pc'.calls = pc.calls)
    (hawaits : ∀ f, pc'.awaits? = some f → pc.awaits? = some f)
    (hcarries : ∀ f, pc.carries? = some f → pc'.carries? = some f) : s'.Books h' := by
  subst hpc hpc'
  refine hb.move hm hi ho hsame (fun f => .inl ⟨by rw [hcb], by rw [hfresh]⟩)
    (fun hd hturn => ?_) hcalls (fun f hf => ?_) fun f hf hcb' => ?_
  · exact absurd hturn (by simp [hdeads hd])
  · rw [hcb, hfresh]
    exact hb.hands.ready t f (hawaits f hf)
  · rw [hcb] at hcb'
    rw [hfresh] at hf
    exact (Classical.em _).imp (hcarries f) fun hnot => ⟨hf, hcb', hnot⟩

/-! ## The scan -/

theorem find_queue (hq : h.tickets.waiting.map Prod.fst = s.queue)
    (suits : FiberAndThread → Bool) :
    s.queue.find? suits = (h.tickets.next suits).map Prod.fst := by
  rw [← hq, List.find?_map]
  rfl

/-- What a scan with the result `next` writes into the ledger. -/
structure Ledger.Takes (h h' : Ledger) (t : ℕ) (fibers : ℕ → Fiber)
    (next : Option (FiberAndThread × ℕ)) : Prop where
  taken : h'.tickets.taken =
    (next.map fun e => { taker := t, entry := e.1, number := e.2 }).toList ++ h.tickets.taken
  fresh : ∀ e ∈ next, e.2 ∉ h.tickets.taken.map Taken.number
  turn : h'.turn = Function.update h.turn t (next.map Prod.snd)
  dead : h'.dead = Function.update h.dead t (next.any fun e => e.1.finished fibers)
  contexts : h'.cb = h.cb ∧ h'.fresh = h.fresh ∧ h'.ran = h.ran

theorem account_scan (htickle : (s.threads t).tickle = .none) (hpc : (s.threads t).pc = .scan) :
    h.Takes (s.account (.step t) h) t s.fibers (h.tickets.next (eligible s.fibers t)) := by
  have hcontexts : ∀ h₀, s.contexts (.step t) h₀ = h₀ := by
    intro h₀
    simp only [contexts, hpc, Ledger.goOn]
    exact ite_self _
  have hacc : s.account (.step t) h =
      { s.taken (.step t) h with
        tickets := (s.taken (.step t) h).tickets.put (entriesOf (s.puts (.step t))) } :=
    hcontexts _
  rw [hacc, taken, scanner_scan htickle hpc]
  refine ⟨?_, fun e he => ?_, rfl, rfl, rfl, rfl, rfl⟩
  · simp only [Tickets.put]
    cases hnext : h.tickets.next (eligible s.fibers t) with
    | none => rw [Tickets.take_none hnext]; rfl
    | some e => exact Tickets.taken_take hnext
  · obtain ⟨skipped, rest, hq, -⟩ := Tickets.next_spec he
    refine Tickets.not_taken_of_waiting ?_
    rw [hq]
    exact List.mem_append_right _ List.mem_cons_self

/-- **A scan**: the entry that it takes was not taken before, and the callback of the entry waits
for its thread. -/
theorem Books.scan (hb : s.Books h) (hm : s.Moves t s') (hi : s'.Inv) (ho : s'.Owned)
    {next : Option (FiberAndThread × ℕ)} (hpc : (s.threads t).pc = .scan)
    (hpc' : (s'.threads t).pc = .dispatch (next.map fun e => e.1.task))
    (hfibers : s'.fibers = s.fibers) (ht : h.Takes h' t s.fibers next) : s'.Books h' := by
  have hother : ∀ t', t' ≠ t → s'.threads t' = s.threads t' ∧ h'.turn t' = h.turn t' ∧
      h'.dead t' = h.dead t' := by
    intro t' hne
    rw [ht.turn, ht.dead, Function.update_of_ne hne, Function.update_of_ne hne]
    exact ⟨hm.threads t' hne, rfl, rfl⟩
  have hmem : ∀ x, x ∈ h'.tickets.taken ↔
      (∃ e ∈ next, { taker := t, entry := e.1, number := e.2 } = x) ∨ x ∈ h.tickets.taken := by
    intro x
    rw [ht.taken, List.mem_append, Option.mem_toList]
    exact or_congr_left Option.mem_map
  obtain ⟨hcb, hfresh, hran⟩ := ht.contexts
  -- the entry that is taken gets the number that no ticket has
  have hself : h'.turn t = next.map Prod.snd := by rw [ht.turn, Function.update_self]
  refine ⟨hi, ho, ⟨fun t' hd hturn => ?_, fun t' hcalls => ?_, fun t' f hf => ?_,
    fun f hf hsome => ?_⟩, fun x hx hxcb => ?_, fun n hn => ?_⟩
  · rcases eq_or_ne t' t with rfl | hne
    · rw [ht.dead, Function.update_self] at hd
      cases next with
      | none => cases hd
      | some e =>
        obtain ⟨⟨task, thread⟩, n⟩ := e
        cases task with
        | cb c => cases hd
        | fiber f =>
          rw [hfibers]
          exact ⟨f, hpc', hd⟩
    · obtain ⟨hth, -, hdead⟩ := hother t' hne
      rw [hth] at hturn ⊢
      rw [hdead] at hd
      rw [hfibers]
      exact hb.hands.dead t' hd hturn
  · rcases eq_or_ne t' t with rfl | hne
    · rw [hpc'] at hcalls
      cases next with
      | none => cases hcalls
      | some e =>
        obtain ⟨⟨task, thread⟩, n⟩ := e
        cases task with
        | fiber f => cases hcalls
        | cb c => exact ⟨_, (hmem _).mpr (.inl ⟨_, rfl, rfl⟩), rfl, hself, rfl⟩
    · obtain ⟨hth, hturn, -⟩ := hother t' hne
      rw [hth] at hcalls
      obtain ⟨x, hx, hrest⟩ := hb.hands.mine t' hcalls
      rw [hturn]
      exact ⟨x, (hmem x).mpr (.inr hx), hrest⟩
  · have hne : t' ≠ t := by
      rintro rfl
      rw [hpc'] at hf
      cases hf
    obtain ⟨hth, hturn, -⟩ := hother t' hne
    rw [hth] at hf
    rw [hcb, hfresh, hturn]
    exact hb.hands.ready t' f hf
  · rw [hfresh] at hf
    rw [hcb] at hsome
    obtain ⟨t', ht'⟩ := hb.hands.held f hf hsome
    have hne : t' ≠ t := by
      rintro rfl
      rw [hpc] at ht'
      cases ht'
    exact ⟨t', by rw [(hother t' hne).1, ht']⟩
  · rw [hran]
    -- a new callback has not been called; of the old ones only the turn could change
    rcases (hmem x).mp hx with ⟨e, he, rfl⟩ | hx
    · obtain rfl : next = some e := he
      have hcalls : (s'.threads t).pc.calls := by
        obtain ⟨⟨task, thread⟩, n⟩ := e
        cases task with
        | fiber f => cases hxcb
        | cb c => rw [hpc']; rfl
      rw [if_pos ⟨hself, hcalls⟩, List.count_eq_zero]
      intro hn
      obtain ⟨y, hy, hyn, -⟩ := hb.called.only _ hn
      exact ht.fresh e rfl (List.mem_map.mpr ⟨y, hy, hyn⟩)
    · rw [hb.called.called x hx hxcb]
      rcases eq_or_ne x.taker t with heq | hne
      · have hnot : h'.turn t ≠ some x.number := by
          intro hturn
          rw [hself] at hturn
          obtain ⟨e, he, hnum⟩ := Option.map_eq_some_iff.mp hturn
          exact ht.fresh e he (hnum ▸ List.mem_map_of_mem hx)
        have hcalls : ¬ (s.threads t).pc.calls := by
          rw [hpc]
          exact Bool.false_ne_true
        rw [heq, if_neg fun h => hcalls h.2, if_neg fun h => hnot h.1]
      · obtain ⟨hth, hturn, -⟩ := hother _ hne
        rw [hth, hturn]
  · rw [hran] at hn
    obtain ⟨x, hx, hrest⟩ := hb.called.only n hn
    exact ⟨x, (hmem x).mpr (.inr hx), hrest⟩

/-- **A callback is run**: its thread enters the context that starts with it. -/
theorem Books.run (hb : s.Books h) (hm : s.Moves t s') (hi : s'.Inv) (ho : s'.Owned)
    (hpc : (s.threads t).pc = .load .cb f) (hpc' : (s'.threads t).pc = .running .cb f)
    (htaken : h'.tickets.taken = h.tickets.taken) (hturn : h'.turn = h.turn)
    (hdead : h'.dead = h.dead) (hcb : h'.cb = h.cb) (hfresh : h'.fresh = h.fresh)
    (hran : h'.ran = (h.turn t).toList ++ h.ran) : s'.Books h' := by
  obtain ⟨x, hx, hxt, hxn, hxcb⟩ := hb.hands.mine t (by rw [hpc]; rfl)
  have halive : h.dead t = false := hb.hands.alive hpc (fun _ h => by cases h) rfl
  rw [hxn] at hran
  refine ⟨hi, ho, hb.hands.move hb.owned hb.inv hm htaken hturn hdead
    (fun f => .inl ⟨by rw [hcb], by rw [hfresh]⟩) (fun hd => ?_) (fun hcalls => ?_) (fun g hg => ?_)
    fun g hg hsome => ?_, fun y hy hycb => ?_, fun n hn => ?_⟩
  · rw [halive] at hd
    cases hd
  · rw [hpc'] at hcalls
    cases hcalls
  · rw [hpc'] at hg
    cases hg
  · rw [hcb] at hsome
    rw [hfresh] at hg
    rw [hpc', hpc]
    exact (Classical.em _).imp id fun hnot => ⟨hg, hsome, hnot⟩
  · rw [htaken] at hy
    have hcalled := hb.called.called y hy hycb
    rw [hran, hturn, Option.toList_some, List.singleton_append, List.count_cons, hcalled]
    rcases eq_or_ne y x with rfl | hne
    · rw [hxt, hpc, hpc']
      simp [hxn, Pc.calls]
    · have hnum : x.number ≠ y.number := fun h => hne (Tickets.eq_of_number_eq hy hx h.symm)
      have hcount : (if (x.number == y.number) = true then 1 else 0) = 0 :=
        if_neg fun h => hnum (beq_iff_eq.mp h)
      rw [hcount, Nat.add_zero]
      rcases eq_or_ne y.taker t with heq | hyt
      · have hnot : ¬ h.turn t = some y.number := by
          rw [hxn]
          exact fun h => hnum (Option.some.inj h)
        rw [heq, if_neg fun h => hnot h.1, if_neg fun h => hnot h.1]
      · rw [hm.threads _ hyt]
  · rw [htaken]
    rw [hran, Option.toList_some, List.singleton_append, List.mem_cons] at hn
    rcases hn with rfl | hn
    · exact ⟨x, hx, rfl, hxcb⟩
    · exact hb.called.only n hn

/-! ## Contexts -/

/-- A callback is handed to the thread's fiber for callbacks. -/
theorem Books.call (hb : s.Books h) (hm : s.Moves t s') (hi : s'.Inv) (ho : s'.Owned)
    (hsame : h.Same h') {c : ℕ} (hf : (s.threads t).cb_fiber.getD s.created = f)
    (hpc : (s.threads t).pc = .dispatch (some (.cb c))) (hpc' : (s'.threads t).pc = .enter .cb f)
    (hcb : h'.cb = Function.update h.cb f (h.turn t))
    (hfresh : h'.fresh = Function.update h.fresh f true) : s'.Books h' := by
  have hown : (s.threads t).holds f ∨ f = s.created := by
    cases hcb : (s.threads t).cb_fiber with
    | none =>
      rw [hcb] at hf
      exact .inr hf.symm
    | some g =>
      rw [hcb] at hf
      exact .inl (.inr (.inl (hcb.trans (congrArg some hf))))
  refine hb.move hm hi ho hsame (fun g => ?_) (fun hd => ?_) ?_ (fun g hg => ?_)
    fun g hg hsome => ?_
  · rcases eq_or_ne g f with rfl | hne
    · exact .inr hown
    · rw [hcb, hfresh, Function.update_of_ne hne, Function.update_of_ne hne]
      exact .inl ⟨rfl, rfl⟩
  · have halive := hb.hands.alive hpc (fun f h => by cases h) rfl
    rw [halive] at hd
    cases hd
  · rw [hpc, hpc']
    rfl
  · rw [hpc'] at hg
    obtain rfl : f = g := Option.some.inj hg
    rw [hcb, hfresh, Function.update_self, Function.update_self]
    exact ⟨rfl, rfl⟩
  · rw [hpc', hpc]
    rw [hcb] at hsome
    rw [hfresh] at hg
    rcases eq_or_ne g f with rfl | hne
    · exact .inl rfl
    · rw [Function.update_of_ne hne] at hg hsome
      exact .inr ⟨hg, hsome, fun h => by cases h⟩

/-- The context of a fiber that the thread holds, or makes, does not start with a callback. -/
theorem Books.drop (hb : s.Books h) (hm : s.Moves t s') (hi : s'.Inv) (ho : s'.Owned)
    (hsame : h.Same h') {pc pc' : Pc} (hpc : (s.threads t).pc = pc)
    (hpc' : (s'.threads t).pc = pc') (hown : (s.threads t).holds f ∨ f = s.created)
    (hdrop : ¬ (h'.fresh f ∧ (h'.cb f).isSome))
    (hrest : ∀ g, g ≠ f → h'.cb g = h.cb g ∧ h'.fresh g = h.fresh g)
    (hdeads : h.dead t → pc'.turn = false) (hcalls : pc'.calls = pc.calls)
    (hawaits : pc'.awaits? = none) (hcarries : ∀ g, pc.carries? = some g → g = f) :
    s'.Books h' := by
  subst hpc hpc'
  refine hb.move hm hi ho hsame (fun g => ?_) (fun hd hturn => ?_) hcalls (fun g hg => ?_)
    fun g hg hsome => ?_
  · rcases eq_or_ne g f with rfl | hne
    · exact .inr hown
    · exact .inl (hrest g hne)
  · exact absurd hturn (by simp [hdeads hd])
  · rw [hawaits] at hg
    cases hg
  · have hne : g ≠ f := by
      rintro rfl
      exact hdrop ⟨hg, hsome⟩
    obtain ⟨hcb, hfresh⟩ := hrest g hne
    exact .inr ⟨hfresh ▸ hg, hcb ▸ hsome, fun hgc => hne (hcarries g hgc)⟩

/-- A context that starts with a callback is in the hands of the thread that took the callback. -/
theorem Books.load_other (hb : s.Books h) {kind : Kind} (hpc : (s.threads t).pc = .load kind f)
    (hkind : kind ≠ .cb) : (h.load f).ran = h.ran := by
  rw [Ledger.load]
  simp only
  split_ifs with hfresh
  · cases hcb : h.cb f with
    | none => rfl
    | some n =>
      obtain ⟨t', ht'⟩ := hb.hands.held f hfresh (by rw [hcb]; rfl)
      obtain rfl := hb.owned.unique t' t f (holds_of_carries ht') (.inl (by rw [hpc]; rfl))
      rw [hpc] at ht'
      cases kind <;> first | exact absurd rfl hkind | cases ht'
  · rfl

/-! ## Steps -/

/-- The ledger with what the step schedules. -/
def Ledger.putAll (h : Ledger) (tasks : List (Option Task × Option ℕ)) : Ledger :=
  { h with tickets := h.tickets.put (entriesOf tasks) }

theorem account_quiet (hscan : s.scanner a = none) :
    s.account a h = s.contexts a (h.putAll (s.puts a)) := by
  rw [account, taken, hscan]
  rfl

theorem account_step (htickle : (s.threads t).tickle = .none) {pc : Pc}
    (hpc : (s.threads t).pc = pc) (hne : pc ≠ .scan) :
    s.account (.step t) h = (h.putAll (s.puts (.step t))).goOn s t pc := by
  subst hpc
  have hscan : s.scanner (.step t) = none := if_neg fun h => hne h.2
  rw [account_quiet hscan, contexts, if_pos htickle]

theorem Books.runStep (hb : s.Books h) (hq : h.tickets.waiting.map Prod.fst = s.queue)
    (hok : s.Unheld (.step t)) (htickle : (s.threads t).tickle = .none)
    (hs : s.runStep t = some s') : s'.Books (s.account (.step t) h) := by
  have hi := hb.inv.runStep hs
  have ho := hb.owned.runStep hb.inv hok htickle hs
  have hg := goes_runStep hs
  have hm := hg.toMoves
  have hturn := hg.turn
  generalize hpc : (s.threads t).pc = pc at hturn
  generalize hpc' : (s'.threads t).pc = pc' at hturn
  have hacc : pc ≠ .scan → _ := account_step (h := h) htickle hpc
  have hsame : h.Same (h.putAll (s.puts (.step t))) := ⟨rfl, rfl, rfl, rfl⟩
  -- past the look at the state of its fiber, a thread did not take a finished one
  have hdeads : (∀ f, pc ≠ .dispatch (some (.fiber f))) → pc'.turn = pc.turn →
      h.dead t → pc'.turn = false := by
    intro hne heq hd
    by_contra hpos
    rw [Bool.not_eq_false, heq] at hpos
    exact Bool.false_ne_true ((hb.hands.alive hpc hne hpos).symm.trans hd)
  have hgo := hb.go hm hi ho hsame rfl rfl hpc hpc'
  cases hturn with
  | scan =>
    refine hb.scan hm hi ho hpc (hpc'.trans ?_) ?_ (account_scan htickle hpc)
    · rw [find_queue hq, Option.map_map]
      rfl
    · simp only [Scheduler.runStep, hpc] at hs
      cases hs
      rfl
  -- the fiber is made for the callback
  | call hf =>
    rw [hacc (fun h => by cases h), Ledger.goOn, hf]
    exact hb.call hm hi ho ⟨rfl, rfl, rfl, rfl⟩ hf hpc hpc' rfl rfl
  -- the fiber ends, and its context goes out of use
  | @save kind f =>
    rw [hacc (fun h => by cases h)]
    refine hb.drop hm hi ho ⟨rfl, rfl, rfl, rfl⟩ hpc hpc'
      (.inl (.inl (by rw [hpc]; rfl))) (fun hf => ?_) (fun g hne => ?_)
      (hdeads (fun _ h => by cases h) rfl) rfl rfl fun g hg => ?_
    · simp only [Ledger.goOn, Function.update_self] at hf
      exact Bool.false_ne_true hf.1
    · simp only [Ledger.goOn, Function.update_of_ne hne]
      exact ⟨rfl, rfl⟩
    · cases kind <;> cases hg
      rfl
  | @cleared f =>
    rw [hacc (fun h => by cases h)]
    refine hb.drop hm hi ho ⟨rfl, rfl, rfl, rfl⟩ hpc hpc'
      (.inl (.inl (by rw [hpc]; rfl))) (fun hf => ?_) (fun g hne => ?_)
      (fun _ => rfl) rfl rfl fun g hg => by cases hg
    · simp only [Ledger.goOn, Ledger.make, Function.update_self] at hf
      exact Bool.false_ne_true hf.2
    · simp only [Ledger.goOn, Ledger.make, Function.update_of_ne hne]
      exact ⟨rfl, rfl⟩
  -- the callback is called here, when its context is fresh
  | @load kind f hkind =>
    rw [hacc (fun h => by cases h), Ledger.goOn]
    by_cases hcb : kind = .cb
    · subst hcb
      obtain ⟨hfresh, hcb⟩ := hb.hands.ready t f (by rw [hpc]; rfl)
      refine hb.run hm hi ho hpc hpc' rfl rfl rfl rfl rfl ?_
      rw [← hcb]
      exact if_pos hfresh
    · refine hb.go hm hi ho ⟨rfl, rfl, rfl, hb.load_other hpc hcb⟩ rfl rfl hpc hpc'
        (hdeads (fun _ h => by cases h) rfl) ?_ (fun _ h => by cases h) fun g hg => ?_
      · cases kind <;> first | exact absurd rfl hcb | rfl
      · cases kind <;> first | exact absurd rfl hcb | cases hg
  | @loadIdle f =>
    rw [hacc (fun h => by cases h), Ledger.goOn]
    have hran := hb.load_other hpc fun h => by cases h
    exact hb.go hm hi ho ⟨rfl, rfl, rfl, hran⟩ rfl rfl hpc hpc' (fun _ => rfl) rfl
      (fun _ h => by cases h) fun _ h => by cases h
  | @pick f hfin =>
    rw [hacc (fun h => by cases h)]
    refine hgo (fun hd => ?_) rfl (fun _ h => by cases h) fun _ h => by cases h
    obtain ⟨g, hg, hgfin⟩ := hb.hands.dead t hd (by rw [hpc]; rfl)
    rw [hpc] at hg
    cases hg
    exact absurd hgfin (by simp [hfin])
  | @enter kind f =>
    rw [hacc (fun h => by cases h)]
    refine hgo (hdeads (fun _ h => by cases h) rfl) ?_ (fun g hg => ?_) fun g hg => ?_
    · cases kind <;> rfl
    · cases kind <;> exact hg
    · cases kind <;> exact hg
  | @yield kind f =>
    rw [hacc (fun h => by cases h)]
    refine hgo (hdeads (fun _ h => by cases h) rfl) rfl (fun _ h => by cases h) fun g hg => ?_
    cases kind <;> exact hg
  -- the other steps leave contexts and calls alone
  | start | discard | quit | idle | stage | expire | out | finish | finishIdle | ready | notReady
  | requeue | finished | clear | hold | held =>
    rw [hacc (fun h => by cases h)]
    exact hgo (fun _ => rfl) rfl (fun _ h => by cases h) fun _ h => by cases h

/-- **A step keeps the books**, if its scan takes a fiber that no thread has in its hands. -/
theorem Books.step (hb : s.Books h) (hq : h.tickets.waiting.map Prod.fst = s.queue)
    (hok : s.Unheld a) (hs : machine.step s a = some s') : s'.Books (s.account a h) := by
  have hi := hb.inv.step hs
  have ho := hb.owned.step hb.inv hok hs
  have hm := moves_step hs
  have hquiet : ∀ {h₀ : Ledger}, s.account a h = h₀ → h.Same h₀ → h₀.cb = h.cb →
      h₀.fresh = h.fresh → (s'.threads a.thread).pc = (s.threads a.thread).pc →
      s'.fibers = s.fibers → s'.Books (s.account a h) := by
    rintro h₀ rfl hsame hcb hfresh hpc hfibers
    exact hb.stay hm hi ho hsame hpc (fun f => .inl (by rw [hfibers])) fun f =>
      .inl ⟨by rw [hcb], by rw [hfresh]⟩
  have hsame : h.Same (h.putAll (s.puts a)) := ⟨rfl, rfl, rfl, rfl⟩
  simp only [machine] at hs
  cases a with
  | step t =>
    simp only [Scheduler.step] at hs
    split_ifs at hs with htickle
    · exact hb.runStep hq hok htickle hs
    · have hscan : s.scanner (.step t) = none := if_neg fun h => htickle h.1
      have hacc := account_quiet (h := h) hscan
      rw [contexts, if_neg htickle] at hacc
      refine hquiet hacc hsame rfl rfl ?_ ?_
      · simp only [Scheduler.tickleStep] at hs
        split at hs
        · cases hs
        · split_ifs at hs <;> cases hs <;> exact pc_put rfl
        · cases hs
          exact pc_put rfl
      · simp only [Scheduler.tickleStep] at hs
        split at hs
        · cases hs
        · split_ifs at hs <;> cases hs <;> rfl
        · cases hs
          rfl
  | start t =>
    simp only [Scheduler.step] at hs
    split_ifs at hs with hpc
    cases hs
    rw [account_quiet rfl]
    refine hb.drop hm hi ho ⟨rfl, rfl, rfl, rfl⟩ hpc.1 (congrArg Thread.pc threads_put_self)
      (.inr rfl) (fun hf => ?_) (fun g hne => ?_) (fun _ => rfl) rfl rfl fun g hg => by cases hg
    · simp only [contexts, Ledger.make, Function.update_self] at hf
      exact Bool.false_ne_true hf.2
    · simp only [contexts, Ledger.make, Function.update_of_ne hne]
      exact ⟨rfl, rfl⟩
  | newFiber t =>
    simp only [Scheduler.step] at hs
    split_ifs at hs
    cases hs
    rw [account_quiet rfl]
    refine hb.stay hm hi ho ⟨rfl, rfl, rfl, rfl⟩ rfl (fun f => ?_) fun f => ?_
    · rcases eq_or_ne f s.created with rfl | hne
      · exact .inr rfl
      · exact .inl (Function.update_of_ne hne ..)
    · rcases eq_or_ne f s.created with rfl | hne
      · exact .inr ⟨rfl, Function.update_self ..⟩
      · exact .inl ⟨Function.update_of_ne hne .., Function.update_of_ne hne ..⟩
  -- a fiber that ends takes its callback out of use; one that yields keeps it
  | yield t state =>
    simp only [Scheduler.step] at hs
    split at hs
    · rename_i kind f hpc
      split_ifs at hs
      cases hs
      -- its turn was not for a finished fiber: it ran
      have hdeads : h.dead t → (Pc.saving kind f).turn = false := by
        intro hd
        by_contra hpos
        rw [Bool.not_eq_false] at hpos
        have halive := hb.hands.alive hpc (fun _ h => by cases h) hpos
        exact Bool.false_ne_true (halive.symm.trans hd)
      have hpc' : ((s.setState f state).goto t (.saving kind f)).threads t =
          { s.threads t with pc := .saving kind f } := threads_put_self
      have hcarries : ∀ g, (Pc.running kind f).carries? = some g → g = f := by
        intro g hg
        cases kind <;> cases hg
        rfl
      have hacc := account_quiet (s := s) (a := .yield t state) (h := h) rfl
      simp only [contexts, hpc] at hacc
      rw [hacc]
      split_ifs with hterm
      · refine hb.drop hm hi ho ⟨rfl, rfl, rfl, rfl⟩ hpc (congrArg Thread.pc hpc')
          (.inl (.inl (congrArg Pc.fiber? hpc))) (fun hf => ?_) (fun g hne => ?_) hdeads rfl rfl
          hcarries
        · simp only [Function.update_self] at hf
          exact Bool.false_ne_true hf.2
        · simp only [Function.update_of_ne hne]
          exact ⟨rfl, rfl⟩
      · refine hb.go hm hi ho hsame rfl rfl hpc (congrArg Thread.pc hpc') hdeads rfl
          (fun _ h => by cases h) fun g hg => ?_
        cases kind <;> exact hg
    · cases hs
  | wake t interrupted =>
    simp only [Scheduler.step] at hs
    split at hs
    · rename_i hpc
      cases hs
      rw [account_quiet rfl]
      exact hb.go hm hi ho hsame rfl rfl hpc (congrArg Thread.pc threads_put_self) (fun _ => rfl)
        rfl (fun _ h => by cases h) fun _ h => by cases h
    · cases hs
  | listExpiredCb t probe =>
    simp only [Scheduler.step] at hs
    split at hs
    · rename_i hpc
      obtain ⟨r, -, rfl⟩ := Option.map_eq_some_iff.mp hs
      rw [account_quiet rfl]
      exact hb.go hm hi ho hsame rfl rfl hpc (congrArg Thread.pc threads_put_self) (fun _ => rfl)
        rfl (fun _ h => by cases h) fun _ h => by cases h
    · cases hs
  | schedule t tasks | trigger t task =>
    simp only [Scheduler.step] at hs
    split_ifs at hs
    cases hs
    exact hquiet (account_quiet rfl) hsame rfl rfl pc_schedule rfl
  | tickle t =>
    simp only [Scheduler.step] at hs
    split_ifs at hs
    cases hs
    exact hquiet (account_quiet rfl) hsame rfl rfl (pc_put rfl) rfl
  | addTimer t ms cb recurring addr =>
    simp only [Scheduler.step] at hs
    split_ifs at hs
    obtain ⟨r, -, rfl⟩ := Option.map_eq_some_iff.mp hs
    exact hquiet (account_quiet rfl) hsame rfl rfl (pc_put rfl) rfl
  | cancel t i =>
    simp only [Scheduler.step] at hs
    split_ifs at hs
    obtain ⟨r, -, rfl⟩ := Option.map_eq_some_iff.mp hs
    exact hquiet (account_quiet rfl) hsame rfl rfl rfl rfl
  | stop t | drain t =>
    simp only [Scheduler.step] at hs
    split_ifs at hs
    cases hs
    exact hquiet (account_quiet rfl) hsame rfl rfl rfl rfl
  | events n | clock n =>
    cases hs
    exact hquiet (account_quiet rfl) hsame rfl rfl rfl rfl

/-! ## Runs -/

theorem Books.accounted (hb : s.Books h) (hq : h.tickets.waiting.map Prod.fst = s.queue)
    (ht : s.Tally) : s.Accounted h where
  queue := hq
  active := ht
  discarded := by
    intro t hd hturn
    obtain ⟨f, hf, -⟩ := hb.hands.dead t hd hturn
    exact ⟨f, hf⟩
  called := hb.called.called
  only := hb.called.only

theorem books_new (now : ℕ) : (new now).Books .new where
  inv := inv_new now
  owned := owned_new now
  hands := ⟨(fun _ hd => by cases hd), (fun _ hc => by cases hc), (fun _ _ hf => by cases hf),
    fun _ _ hcb => by cases hcb⟩
  called := ⟨(fun _ hx => by cases hx), fun _ hn => by cases hn⟩

/-- **Every task is accounted for**: in a run all of whose scans take fibers that no thread has in
its hands, the ledger adds up in every state, and every step takes entries in order. -/
theorem accounted_of_unheld {now : ℕ} {as : List Action}
    (hok : machine.Meets Unheld (new now) as) :
    accounted.Keeps (fun c => c.1.Accounted c.2) (new now, .new) as ∧
      accounted.Meets InOrder (new now, .new) as := by
  refine ⟨?_, ?_⟩
  · have hmeets : accounted.Meets (fun c a => c.1.Unheld a) (new now, .new) as :=
      Machine.meets_observe.mpr hok
    refine Machine.keeps_of_meets (I := fun c => c.1.Books c.2 ∧
      c.2.tickets.waiting.map Prod.fst = c.1.queue ∧ c.1.Tally)
      (fun c a c' hc hok hs => ?_) (fun c hc => hc.1.accounted hc.2.1 hc.2.2)
      ⟨books_new now, rfl, tally_new now⟩ hmeets
    obtain ⟨hb, hq, ht⟩ := hc
    obtain ⟨hstep, hledger⟩ := Machine.observe_step.mp hs
    rw [hledger]
    exact ⟨hb.step hq hok hstep, waiting_account hq hstep, ht.step hstep⟩
  · exact Machine.meets_of_forall inOrder_step

/-- Thread 0 takes a callback and runs it. -/
theorem accounted_of_unheld_called :
    accounted.Keeps (fun c => c.1.Accounted c.2) (new 0, .new)
        [.start 0, .schedule 1 [(some (.cb 7), none)], .step 0, .step 0, .step 0, .step 0] ∧
      accounted.Meets InOrder (new 0, .new)
        [.start 0, .schedule 1 [(some (.cb 7), none)], .step 0, .step 0, .step 0, .step 0] := by
  refine accounted_of_unheld ?_
  refine (Machine.meets_cons rfl).mpr ⟨trivial, (Machine.meets_cons rfl).mpr ⟨trivial,
    (Machine.meets_cons rfl).mpr ⟨?_, (Machine.meets_cons rfl).mpr ⟨?_,
      (Machine.meets_cons rfl).mpr ⟨?_, (Machine.meets_cons rfl).mpr ⟨?_, trivial⟩⟩⟩⟩⟩⟩
  · rintro - - f thread ⟨skipped, rest, hq, -⟩
    have hmem : ({ task := .fiber f, thread := thread } : FiberAndThread) ∈
        [{ task := .cb 7, thread := none }] := by
      rw [show [_] = skipped ++ _ :: rest from hq]
      simp
    cases List.mem_singleton.mp hmem
  all_goals exact fun hpc => by cases hpc

/-- **A callback that is run twice**: thread 0 runs it while its event schedules the fiber, and has
stored `HOLD` but not saved the context when thread 1 takes the fiber: the context that thread 1
enters is still the one that starts with the callback. -/
theorem callback_run_twice : ∃ c, accounted.run (new 0, .new) [.start 0, .start 1,
      .schedule 2 [(some (.cb 7), none)], .step 0, .step 0, .step 0, .step 0, .step 2, .step 2,
      .schedule 2 [(some (.fiber 2), none)], .yield 0 .hold,
      .step 1, .step 1, .step 1, .step 1] = some c ∧
    c.2.tickets.taken.map Taken.number = [1, 0] ∧ c.2.ran = [0, 0] ∧ ¬ c.1.Accounted c.2 := by
  refine ⟨_, rfl, rfl, rfl, fun h => ?_⟩
  have hcount := h.called { taker := 0, entry := { task := .cb 7, thread := none }, number := 0 }
    (by decide) rfl
  exact absurd hcount (by decide)

end Scheduler

end Sylar

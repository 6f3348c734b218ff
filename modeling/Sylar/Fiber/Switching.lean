import Sylar.Fiber.Invariant

/-!
# Switching between the fibers of a thread

Code that enters fibers from the scheduler's main flow alone, and drops no pointer that it does not
have, never fails an assertion of a fiber, never frees a stack that is in use, and every flow goes
on from where it was last left.

## Main results

* `swap_enter`, `swap_leave`: what `swapcontext` does where it is used
* `step_sound`: an allowed step does not fail, and keeps the invariant
* `switches_sound`: nor does a run of allowed steps
-/

namespace Sylar

open Foundation

namespace Switch

variable {s : Thread} {f g : ℕ} {o o' og : Object}

/-! ## What the switches do -/

theorem modify_eq {h : Object → Object} (ho : o ∈ s.objects f) :
    s.modify f h = some (s.put f (h o)) := by
  simp [Thread.modify, Option.mem_def.mp ho]

@[simp] theorem put_objects_self : (s.put f o).objects f = some o := by
  simp [Thread.put]

@[simp] theorem put_put : (s.put f o).put f o' = s.put f o' := by
  simp [Thread.put]

theorem put_comm (h : f ≠ g) : (s.put f o).put g o' = (s.put g o').put f o := by
  simp [Thread.put, Function.update_comm h]

theorem put_eq_self (ho : o ∈ s.objects f) : s.put f o = s := by
  simp [Thread.put, ← Option.mem_def.mp ho]

@[simp] theorem objects_setThis {f : Option ℕ} : (s.setThis f).objects = s.objects := rfl

@[simp] theorem objects_turned : s.turned.objects = s.objects := rfl

@[simp] theorem turned_turns_flow : s.turned.turns s.flow = s.turns s.flow + 1 := by
  simp [Thread.turned]

theorem turned_turns {flow : Flow} (h : flow ≠ s.flow) : s.turned.turns flow = s.turns flow := by
  simp [Thread.turned, h]

theorem swap_eq {c : Context} {point : Point} (hg : og ∈ s.objects g) (ho : o ∈ s.objects f)
    (hgf : g ≠ f) (hc : o.ctx = some c) :
    s.swap g f point =
      (s.turned.put g { og with ctx := some ⟨s.flow, point, s.turns s.flow + 1⟩ }).load c := by
  have hput (og' : Object) : (s.turned.put g og').objects f = some o := by
    simpa [Thread.put, hgf.symm] using ho
  have hg' : og ∈ s.turned.objects g := hg
  simp only [Thread.swap, modify_eq hg', Option.bind_some, hput, hc, turned_turns_flow]

/-- A fiber that rests or waits goes on. -/
theorem load_resume (hthis : s.this = some f) (ho : o ∈ s.objects f) {n : ℕ} {point : Point}
    (h : point = .entry ∧ o.refs = n ∨ point = .out ∧ o.refs = n + 1 ∧ o.cur = some f ∨
      point = .yielded f ∧ o.refs = n + 2 ∧ o.cur = some f) :
    s.load ⟨some f, point, s.turns (some f)⟩ =
      some { s.put f { o with refs := n + 1, cur := some f } with flow := some f } := by
  have ho' : s.objects f = some o := ho
  rw [Thread.load, if_pos ⟨rfl, by simp [ho']⟩]
  obtain ⟨rfl, hn⟩ | ⟨rfl, hn, hcur⟩ | ⟨rfl, hn, hcur⟩ := h
  · simp [Thread.getThis, hthis, Thread.modify, ho', Thread.put, hn]
  · simp [Thread.put, ← hn, ← hcur, ← ho']
  · simp [Thread.release, ho', hn, Thread.put, ← hcur]

/-- A flow that has entered `f` goes on. -/
theorem load_called {flow : Flow} (hflow : ∀ g ∈ flow, (s.objects g).isSome)
    (ho : o ∈ s.objects f) :
    s.load ⟨flow, .called f, s.turns flow⟩ =
      some { s.put f { o with held := o.held + 1 } with flow := flow } := by
  have ho' : s.objects f = some o := ho
  rw [Thread.load, if_pos ⟨rfl, hflow⟩]
  simp [Thread.give, Thread.modify, ho', Thread.put]

/-- The switch of `call` and `swapIn`. -/
theorem swap_enter (hg : og ∈ s.objects g) (hgf : g ≠ f) (hflow : s.flow ≠ some f)
    (h : o.state = .init ∧ o.Rest f (s.turns (some f)) ∨ o.Waiting f (s.turns (some f))) :
    ((s.setThis (some f)).put f { o with state := .exec, held := o.held - 1 }).swap g f
      (.called f) = some (s.entered g f og o) := by
  have hgt : og ∈ ((s.setThis (some f)).put f
      { o with state := .exec, held := o.held - 1 }).objects g :=
    mem_put.mpr (by simpa [hgf] using hg)
  obtain ⟨point, hc, hpoint⟩ : ∃ point, o.ctx = some ⟨some f, point, s.turns (some f)⟩ ∧
      (point = .entry ∧ o.refs = o.held ∨ point = .out ∧ o.refs = o.held + 1 ∧ o.cur = some f ∨
        point = .yielded f ∧ o.refs = o.held + 2 ∧ o.cur = some f) := by
    obtain ⟨hinit, hrest⟩ | hwait := h
    · obtain ⟨-, hc⟩ | ⟨hfin, -⟩ := hrest.ctx
      · exact ⟨.entry, hc, .inl ⟨rfl, hrest.refs⟩⟩
      · simp [hinit, Fiber.State.finished] at hfin
    · obtain ⟨hc, hrefs⟩ | ⟨hc, hrefs⟩ := hwait.ctx
      · exact ⟨.out, hc, .inr (.inl ⟨rfl, hrefs, hwait.cur⟩)⟩
      · exact ⟨.yielded f, hc, .inr (.inr ⟨rfl, hrefs, hwait.cur⟩)⟩
  rw [swap_eq hgt put_objects_self hgf hc]
  rw [← turned_turns (s := s) hflow.symm]
  have hmem : { o with state := .exec, held := o.held - 1 } ∈
      (((s.setThis (some f)).put f { o with state := .exec, held := o.held - 1 }).turned.put g
        { og with ctx := some ⟨s.flow, .called f, s.turns s.flow + 1⟩ }).objects f :=
    mem_put.mpr (by simp [hgf.symm])
  refine (load_resume (f := f) rfl hmem hpoint).trans (congrArg some ?_)
  simp [Thread.entered, Thread.put, Thread.setThis, Thread.turned, Function.update_comm hgf]

/-- The switch of `back` and `swapOut`. -/
theorem swap_leave {point : Point} (hflow : s.flow = some f) (hgf : g ≠ f) (hg : og ∈ s.objects g)
    (hctx : og.ctx = some ⟨if s.threadFiber = some g then none else some g, .called f,
      s.turns (if s.threadFiber = some g then none else some g)⟩) :
    ((s.put f o).setThis (some g)).swap f g point = some (s.left f g
      { o with ctx := some ⟨some f, point, s.turns (some f) + 1⟩, held := o.held + 1 }) := by
  set flow : Flow := if s.threadFiber = some g then none else some g
  have hmem : og ∈ ((s.put f o).setThis (some g)).objects g := mem_put.mpr (by simpa [hgf] using hg)
  have hne : flow ≠ some f := by
    simp only [flow]
    split_ifs
    · simp
    · simpa using hgf
  rw [swap_eq (s := (s.put f o).setThis (some g)) put_objects_self hmem hgf.symm hctx]
  have hturns : ((s.put f o).setThis (some g)).turned.turns flow = s.turns flow :=
    turned_turns (s := (s.put f o).setThis (some g)) (by rwa [← hflow] at hne)
  rw [← hturns]
  refine (load_called (fun h hh => ?_) put_objects_self).trans (congrArg some ?_)
  · obtain rfl : g = h := by
      simp only [flow] at hh
      split_ifs at hh
      · simp at hh
      · simpa using hh
    simp [Thread.put, hgf, Thread.setThis, Thread.turned, Option.mem_def.mp hg]
  · simp [Thread.left, Thread.put, Thread.setThis, Thread.turned, hflow, flow]

namespace Sound
variable (hs : Sound s)
include hs

/-- The first `GetThis` of a thread. -/
theorem getThis_none (hthis : s.this = none) : ∃ t, s.step .getThis = some t ∧ Sound t := by
  have h := hs.this
  rw [hthis, eq_comm, Option.or_eq_none_iff] at h
  obtain ⟨hflow, ht⟩ := h
  have hm : s.mainFiber = none := by
    cases hm : s.mainFiber with
    | none => rfl
    | some m => simpa [ht] using (hs.main m hm).1
  refine ⟨{ (s.create { Thread.mainObject with held := 1 }).setThis (some s.created) with
    threadFiber := some s.created }, ?_, fun f hf => ?_, ?_, fun f hf => ?_, fun m hm' => ?_,
    fun t ht' => ?_, fun f hf x hx => ?_, ?_⟩
  · simp [Thread.step, Thread.getThis, hthis, ht, Thread.give, Thread.modify, Thread.create,
      Thread.put, Thread.setThis, Thread.mainObject]
  · have h : s.created + 1 ≤ f := hf
    have hne : f ≠ s.created := by omega
    simpa [Thread.create, Thread.put, Thread.setThis, hne] using hs.fresh f (by omega)
  · simp [Thread.create, Thread.put, Thread.setThis, hflow]
  · simp [Thread.create, Thread.put, Thread.setThis, hflow] at hf
  · simp [Thread.create, Thread.put, Thread.setThis, hm] at hm'
  · obtain rfl : s.created = t := Option.some.inj ht'
    refine ⟨{ Thread.mainObject with held := 1 },
      by simp [Thread.create, Thread.put, Thread.setThis], ⟨rfl, rfl, rfl, rfl⟩, fun g hg => ?_⟩
    simp [Thread.create, Thread.put, Thread.setThis, hflow] at hg
  · have hne : f ≠ s.created := fun h => hf (congrArg some h.symm)
    have hx' : x ∈ s.objects f := by
      simpa [Thread.create, Thread.put, Thread.setThis, hne] using hx
    obtain ⟨hstack, -, hrest⟩ := hs.fiber f (by simp [ht]) x hx'
    have hold : ¬ s.active f := by simp [Thread.active, hflow]
    refine ⟨hstack, fun ha => absurd ha hold, fun _ => hrest hold⟩
  · show s.count + 1 = (s.create { Thread.mainObject with held := 1 }).live.card
    rw [Thread.live_create, hs.count]

/-- The fiber that runs. -/
theorem exists_running (hflow : s.flow = some f) : ∃ o ∈ s.objects f, s.this = some f ∧
    s.threadFiber ≠ some f ∧ o.stack = true ∧
      o.Active s.mainFiber s.flow f (s.turns (some f)) := by
  obtain ⟨-, ht, hsome⟩ := hs.flow f hflow
  obtain ⟨o, ho⟩ := Option.isSome_iff_exists.mp hsome
  obtain ⟨hstack, hact, -⟩ := hs.fiber f ht o ho
  exact ⟨o, ho, by rw [hs.this, hflow]; rfl, ht, hstack, hact (.inl hflow)⟩

/-- The running fiber leaves for the flow that has entered it. -/
theorem leave_for (hflow : s.flow = some f) (hsome : g ≠ f) (point : Point)
    (hstack : o.stack = true)
    (hmain : s.threadFiber = some g ∧ s.mainFiber = some f ∧ o.caller = true ∨
      s.mainFiber = some g)
    (hrest : ∀ c, c = some ⟨some f, point, s.turns (some f) + 1⟩ →
      { o with ctx := c, held := o.held + 1 }.Rest f (s.turns (some f) + 1) ∨
      { o with ctx := c, held := o.held + 1 }.Waiting f (s.turns (some f) + 1)) :
    ∃ t, ((s.put f o).setThis (some g)).swap f g point = some t ∧ Sound t := by
  obtain ⟨o', ho', -⟩ := hs.exists_running hflow
  obtain ⟨og, hog, hctx⟩ := hs.exists_called hflow
    (hmain.imp (fun h => ⟨h.1, h.2.1⟩) fun h => ⟨h, hsome⟩)
  refine ⟨_, swap_leave hflow hsome hog hctx, hs.leave hflow ho' hstack ?_ (hrest _ rfl)⟩
  exact hmain.imp (fun h => ⟨h.1, h.2.1, h.2.2, Nat.succ_pos _⟩) fun h => ⟨h, hsome⟩

/-- A pointer more. -/
theorem copy (ho : o ∈ s.objects f) :
    Sound (s.put f { o with refs := o.refs + 1, held := o.held + 1 }) := by
  refine hs.put ho (fun ht => ?_) (fun hne hm => ?_) fun hne => ?_
  · obtain ⟨x, hx, hmn, -⟩ := hs.thread f ht
    obtain rfl := Option.mem_unique ho hx
    exact ⟨⟨hmn.1, hmn.2, hmn.3, by simp [hmn.4]⟩, rfl⟩
  · obtain ⟨x, hx, hcaller, -⟩ := (hs.main f hm).2 hne
    obtain rfl := Option.mem_unique ho hx
    exact ⟨hcaller, fun _ => Nat.succ_pos _⟩
  · obtain ⟨hstack, hact, hrest⟩ := hs.fiber f hne o ho
    refine ⟨hstack, fun ha => ?_, fun ha => ?_⟩
    · obtain ⟨h₁, h₂, h₃, h₄, h₅⟩ := hact ha
      exact ⟨h₁, h₂, by simp [h₃, add_right_comm], h₄, h₅⟩
    · refine (hrest ha).imp (fun h => ?_) fun h => ?_
      · exact ⟨h.1, h.2, by simp [h.3], Nat.succ_pos _⟩
      · refine ⟨h.1, h.2, h.3, h.4.imp ?_ ?_⟩ <;> rintro ⟨hc, hr⟩ <;>
          exact ⟨hc, by simp [hr, add_right_comm]⟩

/-- A pointer less, but not the last. -/
theorem drop (ho : o ∈ s.objects f) (hheld : 0 < o.held) (hrefs : 1 < o.refs)
    (hmain : s.mainFiber = some f → s.threadFiber = some f ∨ 1 < o.held) :
    Sound (s.put f { o with refs := o.refs - 1, held := o.held - 1 }) := by
  refine hs.put ho (fun ht => ?_) (fun hne hm => ?_) fun hne => ?_
  · obtain ⟨x, hx, hmn, -⟩ := hs.thread f ht
    obtain rfl := Option.mem_unique ho hx
    exact ⟨⟨hmn.1, hmn.2, hmn.3, by simp only [hmn.4]; omega⟩, rfl⟩
  · obtain ⟨x, hx, hcaller, -⟩ := (hs.main f hm).2 hne
    obtain rfl := Option.mem_unique ho hx
    have := (hmain hm).resolve_left hne
    exact ⟨hcaller, fun _ => by simp only; omega⟩
  · obtain ⟨hstack, hact, hrest⟩ := hs.fiber f hne o ho
    refine ⟨hstack, fun ha => ?_, fun ha => ?_⟩
    · obtain ⟨h₁, h₂, h₃, h₄, h₅⟩ := hact ha
      exact ⟨h₁, h₂, by simp only [h₃]; omega, h₄, h₅⟩
    · refine (hrest ha).imp (fun h => ?_) fun h => ?_
      · exact ⟨h.1, h.2, by simp [h.3], by have := h.3; simp only; omega⟩
      · refine ⟨h.1, h.2, h.3, h.4.imp ?_ ?_⟩ <;> rintro ⟨hc, hr⟩ <;>
          exact ⟨hc, by simp only [hr]; omega⟩

/-- The object of the running flow is there. -/
theorem exists_this (hthis : s.this = some f) : ∃ o, o ∈ s.objects f := by
  obtain ⟨-, ht⟩ | ⟨hflow, -⟩ := hs.flow_eq hthis
  · obtain ⟨o, ho, -⟩ := hs.thread f ht
    exact ⟨o, ho⟩
  · obtain ⟨o, ho, -⟩ := hs.exists_running hflow
    exact ⟨o, ho⟩

theorem getThis : ∃ t, s.step .getThis = some t ∧ Sound t := by
  cases hthis : s.this with
  | none => exact hs.getThis_none hthis
  | some f =>
    obtain ⟨o, ho⟩ := hs.exists_this hthis
    refine ⟨_, ?_, hs.copy ho⟩
    simp only [Thread.step, Thread.getThis, hthis, modify_eq ho, Option.map_some,
      Option.bind_some, Thread.give, modify_eq (put_objects_self : _ = some _), put_put]

theorem take_release (h : Allowed s (.drop f)) : ∃ t, s.step (.drop f) = some t ∧ Sound t := by
  obtain ⟨o, ho, hheld, hmain⟩ := h
  have ho' : s.objects f = some o := ho
  have hstep : s.step (.drop f) = (s.put f { o with held := o.held - 1 }).release f := by
    simp [Thread.step, Thread.take, ho', hheld]
  rw [hstep]
  by_cases hrefs : 1 < o.refs
  · obtain ⟨n, hn⟩ : ∃ n, o.refs = n + 2 := ⟨o.refs - 2, by omega⟩
    refine ⟨_, ?_, hs.drop ho hheld hrefs hmain⟩
    simp [Thread.release, hn]
  -- the last pointer: a fiber that is not in a run of its callback
  have hne : s.threadFiber ≠ some f := by
    intro ht
    obtain ⟨x, hx, hmn, -⟩ := hs.thread f ht
    obtain rfl := Option.mem_unique ho hx
    have := hmn.refs
    omega
  obtain ⟨hstack, hact, hrest⟩ := hs.fiber f hne o ho
  have hinactive : ¬ s.active f := by
    intro ha
    have := (hact ha).refs
    omega
  have hrest : o.Rest f (s.turns (some f)) := by
    refine (hrest hinactive).resolve_right fun h => ?_
    rcases h.ctx with ⟨-, h⟩ | ⟨-, h⟩ <;> omega
  have hrefs' : o.refs = 1 := by
    have := hrest.refs
    omega
  have hm : s.mainFiber ≠ some f := by
    intro hm
    have := (hmain hm).resolve_left hne
    have := hrest.refs
    omega
  have hflow : s.flow ≠ some f := fun h => hinactive (.inl h)
  have hstate : o.state.finished ∨ o.state = .init := hrest.ctx.symm.imp And.left And.left
  refine ⟨_, ?_, hs.erase ho hne hm hflow⟩
  simp [Thread.release, hrefs', Thread.destroy, hstack, hstate, Thread.put, hflow]

theorem reset {cb : Bool} (h : Allowed s (.reset f cb)) :
    ∃ t, s.step (.reset f cb) = some t ∧ Sound t := by
  obtain ⟨hm, o, ho, hstack, hstate⟩ := h
  have ho' : s.objects f = some o := ho
  have hne : s.threadFiber ≠ some f := by
    intro ht
    obtain ⟨x, hx, hmn, -⟩ := hs.thread f ht
    obtain rfl := Option.mem_unique ho hx
    simp [hmn.stack] at hstack
  obtain ⟨-, hact, hrest⟩ := hs.fiber f hne o ho
  have hexec : o.state ≠ .exec ∧ o.state ≠ .hold ∧ o.state ≠ .ready := by
    cases h : o.state <;> simp [h, Fiber.State.finished] at hstate ⊢
  have hinactive : ¬ s.active f := fun ha => hexec.1 (hact ha).state
  have hrest : o.Rest f (s.turns (some f)) := by
    refine (hrest hinactive).resolve_right fun h => ?_
    rcases h.state with h | h | h <;> simp [h] at hexec
  refine ⟨s.put f { o with
    cb := cb
    ctx := some ⟨some f, .entry, s.turns (some f)⟩
    caller := false
    state := .init }, ?_, hs.put ho (fun h => absurd h hne) (fun _ h => absurd h hm) fun _ => ?_⟩
  · simp [Thread.step, Thread.reset, ho', hstack, hstate]
  · exact ⟨hstack, fun ha => absurd ha hinactive,
      fun _ => .inl ⟨.inl ⟨rfl, rfl⟩, hrest.cur, hrest.refs, hrest.held⟩⟩

theorem setMain (h : Allowed s (.setMain f)) : Sound { s with mainFiber := some f } := by
  obtain ⟨hnone, hsome, hf⟩ := h
  have hflow : s.flow = none := by
    cases hflow : s.flow with
    | none => rfl
    | some g => simpa [hnone] using (hs.flow g hflow).1
  refine ⟨hs.fresh, hs.this, fun g hg => ?_, fun m hm => ⟨hsome, fun hne => ?_⟩, fun t ht => ?_,
    fun g hg x hx => ?_, hs.count⟩
  · simp [hflow] at hg
  · obtain rfl : f = m := Option.some.inj hm
    obtain ⟨o, ho, hheld, hcaller⟩ := hf.resolve_left hne
    exact ⟨o, ho, hcaller, fun _ => hheld⟩
  · obtain ⟨o, ho, hmn, -⟩ := hs.thread t ht
    exact ⟨o, ho, hmn, fun g hg => by simp [hflow] at hg⟩
  · obtain ⟨hstack, -, hrest⟩ := hs.fiber g hg x hx
    refine ⟨hstack, fun ha => ?_, fun _ => hrest (by simp [Thread.active, hflow])⟩
    simp [Thread.active, hflow] at ha

/-- Only the main fibers are active while the scheduler's main flow runs. -/
theorem not_active (hthis : s.this = s.mainFiber) (hsome : s.mainFiber.isSome)
    (hf : s.mainFiber ≠ some f) : ¬ s.active f := by
  obtain ⟨m, hm⟩ := Option.isSome_iff_exists.mp hsome
  rw [hm] at hthis hf
  rintro (h | ⟨-, h⟩)
  · obtain ⟨h', -⟩ | ⟨h', -⟩ := hs.flow_eq hthis
    · simp [h'] at h
    · exact hf (h'.symm.trans h)
  · exact hf (hm.symm.trans h)

theorem hold (h : Allowed s (.hold f)) : ∃ t, s.step (.hold f) = some t ∧ Sound t := by
  obtain ⟨hsome, hthis, hne, hm, o, ho, hstate⟩ := h
  obtain ⟨hstack, -, hrest⟩ := hs.fiber f hne o ho
  have hinactive := hs.not_active hthis hsome hm
  have hwait : o.Waiting f (s.turns (some f)) := by
    refine (hrest hinactive).resolve_left fun h => ?_
    rcases h.ctx with ⟨h, -⟩ | ⟨h, -⟩ <;> rcases hstate with h' | h' <;>
      simp [h', Fiber.State.finished] at h
  refine ⟨_, modify_eq ho, hs.put ho (fun h => absurd h hne) (fun _ h => absurd h hm) fun _ => ?_⟩
  exact ⟨hstack, fun ha => absurd ha hinactive,
    fun _ => .inr ⟨.inl rfl, hwait.cur, hwait.caller, hwait.ctx⟩⟩

theorem call (h : Allowed s (.call f)) : ∃ t, s.step (.call f) = some t ∧ Sound t := by
  obtain ⟨hflow, hm, hne, o, ho, hstate⟩ := h
  obtain ⟨hsome, hcaller⟩ := hs.main f hm
  obtain ⟨o', ho', hcaller, hheld⟩ := hcaller hne
  obtain rfl := Option.mem_unique ho ho'
  have hheld := hheld hflow
  obtain ⟨t, ht⟩ := Option.isSome_iff_exists.mp hsome
  obtain ⟨og, hog, -⟩ := hs.thread t ht
  have hthis : s.this = some t := by rw [hs.this, hflow, ht]; rfl
  have htf : t ≠ f := fun h => hne (h ▸ ht)
  have hinactive : ¬ s.active f := by simp [Thread.active, hflow]
  have hrest : o.Rest f (s.turns (some f)) := by
    refine ((hs.fiber f hne o ho).2.2 hinactive).resolve_right fun h => ?_
    rcases h.state with h | h | h <;> simp [h] at hstate
  refine ⟨_, ?_, hs.enter hog hthis ho hne hinactive hheld (.inl ⟨hflow, hm, hcaller⟩)⟩
  have hswap := swap_enter hog htf (by simp [hflow]) (.inl ⟨hstate, hrest⟩)
  rw [← hswap]
  simp [Thread.step, Thread.take, Option.mem_def.mp ho, hheld, Thread.call, Thread.modify,
    Thread.setThis, Thread.put, ht]

theorem swapIn (h : Allowed s (.swapIn f)) : ∃ t, s.step (.swapIn f) = some t ∧ Sound t := by
  obtain ⟨hsome, hthis, hne, o, ho, hheld, hcaller, hstate⟩ := h
  obtain ⟨m, hm⟩ := Option.isSome_iff_exists.mp hsome
  -- the scheduler's root fiber is entered by `call`
  have hmf : s.mainFiber ≠ some f := by
    intro hm
    obtain ⟨x, hx, hcaller', -⟩ := (hs.main f hm).2 hne
    obtain rfl := Option.mem_unique ho hx
    simp [hcaller] at hcaller'
  have hgf : m ≠ f := fun h => hmf (h ▸ hm)
  have hinactive := hs.not_active hthis hsome hmf
  obtain ⟨og, hog⟩ := hs.exists_this (hthis.trans hm)
  have hrest : o.state = .init ∧ o.Rest f (s.turns (some f)) ∨ o.Waiting f (s.turns (some f)) := by
    refine ((hs.fiber f hne o ho).2.2 hinactive).imp_left fun h => ⟨?_, h⟩
    rcases h.ctx with ⟨h, -⟩ | ⟨h, -⟩
    · exact h
    · rcases hstate with h' | h' | h' <;> simp [h', Fiber.State.finished] at h
  refine ⟨_, ?_, hs.enter hog (hthis.trans hm) ho hne hinactive hheld (.inr ⟨hm, hmf, hcaller⟩)⟩
  have hexec : o.state ≠ .exec := by rcases hstate with h | h | h <;> simp [h]
  rw [← swap_enter hog hgf (fun h => hinactive (.inl h)) hrest]
  simp [Thread.step, Thread.take, Option.mem_def.mp ho, hheld, Thread.swapIn, Thread.modify,
    Thread.setThis, Thread.put, hm, hexec]

/-- The scheduler's main flow, for which a fiber leaves that is not the scheduler's. -/
theorem exists_main (hsome : s.flow.isSome) (hne : s.flow ≠ s.mainFiber) :
    ∃ f m o, s.flow = some f ∧ s.this = some f ∧ s.mainFiber = some m ∧ m ≠ f ∧
      o ∈ s.objects f ∧ o.stack = true ∧ o.caller = false ∧
        o.Active s.mainFiber s.flow f (s.turns (some f)) := by
  obtain ⟨f, hflow⟩ := Option.isSome_iff_exists.mp hsome
  obtain ⟨m, hm⟩ := Option.isSome_iff_exists.mp (hs.flow f hflow).1
  obtain ⟨o, ho, hthis, -, hstack, hact⟩ := hs.exists_running hflow
  rw [hflow, hm] at hne
  have hmf : m ≠ f := fun h => hne (congrArg some h.symm)
  have hcaller : o.caller = false := by
    rw [← Bool.not_eq_true, hact.caller, hm]
    simpa using hmf
  exact ⟨f, m, o, hflow, hthis, hm, hmf, ho, hstack, hcaller, hact⟩

theorem swapOut (h : Allowed s .swapOut) : ∃ t, s.step .swapOut = some t ∧ Sound t := by
  obtain ⟨f, m, o, hflow, hthis, hm, hmf, ho, hstack, hcaller, hact⟩ := hs.exists_main h.1 h.2
  have h := hs.leave_for (o := o) hflow hmf .out hstack (.inr hm) fun c hc => .inr ?_
  · rw [put_eq_self ho] at h
    simpa [Thread.step, Thread.swapOut, hthis, hm] using h
  · refine ⟨.inr (.inr hact.state), hact.cur, hcaller, .inl ⟨hc, ?_⟩⟩
    simp [hact.refs]

/-- `YieldToReady` and `YieldToHold`. -/
theorem yieldTo {state : Fiber.State} (hstate : state = .hold ∨ state = .ready)
    (hsome : s.flow.isSome) (hne : s.flow ≠ s.mainFiber) :
    ∃ t, s.yieldTo state = some t ∧ Sound t := by
  obtain ⟨f, m, o, hflow, hthis, hm, hmf, ho, hstack, hcaller, hact⟩ := hs.exists_main hsome hne
  have h := hs.leave_for (o := { o with refs := o.refs + 1, state := state })
    hflow hmf (.yielded f) hstack (.inr hm) fun c hc => .inr ?_
  · simpa [Thread.yieldTo, Thread.getThis, hthis, Thread.modify, Option.mem_def.mp ho,
      Thread.put, Thread.swapOut, hm] using h
  · refine ⟨hstate.imp_right .inl, hact.cur, hcaller, .inr ⟨hc, ?_⟩⟩
    simp [hact.refs]

theorem finish {ok : Bool} (hsome : s.flow.isSome) : ∃ t, s.finish ok = some t ∧ Sound t := by
  obtain ⟨f, hflow⟩ := Option.isSome_iff_exists.mp hsome
  obtain ⟨o, ho, hthis, hne, hstack, hact⟩ := hs.exists_running hflow
  obtain ⟨m, hm⟩ := Option.isSome_iff_exists.mp (hs.flow f hflow).1
  obtain ⟨t, ht⟩ := Option.isSome_iff_exists.mp (hs.main m hm).1
  have hrefs : o.refs = o.held + 2 := hact.refs
  obtain ⟨o', ho', hfinish⟩ : ∃ o', (o'.state.finished ∧ o'.cur = none ∧ o'.refs = o.held + 1 ∧
      o'.held = o.held ∧ o'.stack = true ∧ o'.caller = o.caller) ∧
        s.finish ok = if o.caller then (s.put f o').back f .never
          else (s.put f o').swapOut f .never := by
    refine ⟨{ (if ok then { o with cb := false, state := .term } else
      { o with state := .except }) with cur := none, refs := o.held + 1 }, ?_, ?_⟩
    · cases ok <;> simp [Fiber.State.finished, hstack]
    · cases ok <;> simp [Thread.finish, hflow, Option.mem_def.mp ho, hact.cur, Thread.modify,
        Thread.release, Thread.put, hrefs]
  obtain ⟨hfin, hcur, hrefs', hheld, hstack', hcaller⟩ := ho'
  have hrest (c : Option Context) (hc : c = some ⟨some f, .never, s.turns (some f) + 1⟩) :
      { o' with ctx := c, held := o'.held + 1 }.Rest f (s.turns (some f) + 1) :=
    ⟨.inr ⟨hfin, hc⟩, hcur, by simp [hrefs', hheld], Nat.succ_pos _⟩
  rw [hfinish]
  by_cases hmf : m = f
  · subst hmf
    have hc : o.caller = true := hact.caller.mpr hm
    have h := hs.leave_for (g := t) hflow (fun h => hne (h ▸ ht)) .never hstack'
      (.inl ⟨ht, hm, hcaller.trans hc⟩) fun c hc => .inl (hrest c hc)
    simpa [hc, Thread.back, Thread.put, ht] using h
  · have hc : o.caller = false := by
      rw [← Bool.not_eq_true, hact.caller, hm]
      simpa using hmf
    have h := hs.leave_for hflow hmf .never hstack' (.inr hm)
      fun c hc => .inl (hrest c hc)
    simpa [hc, Thread.swapOut, Thread.put, hm] using h

end Sound

/-- **An allowed step** does not fail and keeps the invariant. -/
theorem step_sound {a : Action} (hs : Sound s) (ha : Allowed s a) :
    ∃ t, s.step a = some t ∧ Sound t := by
  cases a with
  | getThis => exact hs.getThis
  | create cb caller => exact ⟨_, rfl, hs.create cb caller⟩
  | copy f =>
    obtain ⟨o, ho, -⟩ := ha
    exact ⟨_, modify_eq ho, hs.copy ho⟩
  | drop f => exact hs.take_release ha
  | reset f cb => exact hs.reset ha
  | setMain f => exact ⟨_, rfl, hs.setMain ha⟩
  | hold f => exact hs.hold ha
  | call f => exact hs.call ha
  | swapIn f => exact hs.swapIn ha
  | swapOut => exact hs.swapOut ha
  | yieldToReady => exact hs.yieldTo (.inr rfl) ha.1 ha.2
  | yieldToHold => exact hs.yieldTo (.inl rfl) ha.1 ha.2
  | finish ok => exact hs.finish ha

/-- **Allowed runs**: code that keeps to `Allowed`, in whatever order its flows switch, create and
drop fibers, never fails an assertion, frees a stack in use or loads a context that is gone; and
behind every run the invariant holds. -/
theorem switches_sound {as : List Action} (h : machine.Meets Allowed .new as) :
    ∃ s, machine.run .new as = some s ∧ Sound s :=
  Machine.exists_run_of_meets (fun _ _ => step_sound) sound_new h

/-- A root fiber runs a scheduler, whose fiber holds, goes on, and ends. -/
theorem switches_sound_root : ∃ s, machine.run .new [.getThis, .create true true, .setMain 1,
    .call 1, .create true false, .swapIn 2, .yieldToHold, .hold 2, .swapIn 2, .finish true, .drop 2,
    .finish true] = some s ∧ Sound s :=
  switches_sound (by decide)

end Switch

end Sylar

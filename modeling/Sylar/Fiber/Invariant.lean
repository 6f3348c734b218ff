import Sylar.Fiber.Model
import Mathlib.Algebra.Order.BigOperators.Group.Finset

/-!
# The invariant of the switches between fibers

The scheduler's main flow enters the other fibers by `swapIn`, one at a time, and they go back to
it; where it is a fiber itself, the thread's own flow has entered it by `call`. So at most two
fibers are active at a time: the one that runs, and the scheduler's, which has entered it.

## Main definitions

* `Allowed`: what the code that uses fibers keeps to
* `Object.Rest`, `Object.Waiting`, `Object.Active`: a fiber that is not in a run of its callback,
  one that has been left, and one that runs or has entered the one that runs
* `Sound`: the invariant

## Main results

* `Sound.put`, `Sound.create`, `Sound.erase`: changes of one object that keep the invariant
* `Sound.enter`, `Sound.leave`: the switches keep it
-/

namespace Sylar

open Foundation

namespace Switch

/-- What the code that uses fibers keeps to. -/
def Allowed (s : Thread) : Action → Prop
  | .getThis => True
  | .create _ _ => True
  | .copy f => ∃ o ∈ s.objects f, 0 < o.held
  | .drop f =>
    -- the scheduler keeps its root fiber
    ∃ o ∈ s.objects f, 0 < o.held ∧ (s.mainFiber = some f → s.threadFiber = some f ∨ 1 < o.held)
  | .reset f _ =>
    s.mainFiber ≠ some f ∧ ∃ o ∈ s.objects f, o.stack ∧ (o.state.finished ∨ o.state = .init)
  | .setMain f =>
    s.mainFiber = none ∧ s.threadFiber.isSome ∧
      (s.threadFiber = some f ∨ ∃ o ∈ s.objects f, 0 < o.held ∧ o.caller)
  | .hold f =>
    s.mainFiber.isSome ∧ s.this = s.mainFiber ∧ s.threadFiber ≠ some f ∧ s.mainFiber ≠ some f ∧
      ∃ o ∈ s.objects f, o.state = .exec ∨ o.state = .hold
  | .call f =>
    s.flow = none ∧ s.mainFiber = some f ∧ s.threadFiber ≠ some f ∧
      ∃ o ∈ s.objects f, o.state = .init
  | .swapIn f =>
    s.mainFiber.isSome ∧ s.this = s.mainFiber ∧ s.threadFiber ≠ some f ∧
      ∃ o ∈ s.objects f,
        0 < o.held ∧ o.caller = false ∧ (o.state = .init ∨ o.state = .hold ∨ o.state = .ready)
  | .swapOut => s.flow.isSome ∧ s.flow ≠ s.mainFiber
  | .yieldToReady => s.flow.isSome ∧ s.flow ≠ s.mainFiber
  | .yieldToHold => s.flow.isSome ∧ s.flow ≠ s.mainFiber
  | .finish _ => s.flow.isSome

instance (s : Thread) (a : Action) : Decidable (Allowed s a) := by
  cases a <;> unfold Allowed <;> infer_instance

/-! ## The invariant -/

/-- A fiber that is not in a run of its callback; all pointers to it are those of the code. -/
structure Object.Rest (o : Object) (f turn : ℕ) : Prop where
  ctx : o.state = .init ∧ o.ctx = some ⟨some f, .entry, turn⟩ ∨
    o.state.finished ∧ o.ctx = some ⟨some f, .never, turn⟩
  cur : o.cur = none
  refs : o.refs = o.held
  held : 0 < o.held

/-- A fiber that has left its stack for the scheduler's main flow; `MainFunc` points to it. -/
structure Object.Waiting (o : Object) (f turn : ℕ) : Prop where
  state : o.state = .hold ∨ o.state = .ready ∨ o.state = .exec
  cur : o.cur = some f
  caller : o.caller = false
  ctx : o.ctx = some ⟨some f, .out, turn⟩ ∧ o.refs = o.held + 1 ∨
    o.ctx = some ⟨some f, .yielded f, turn⟩ ∧ o.refs = o.held + 2

/-- A fiber that runs, or that has entered the one that runs; `MainFunc` and the code that has
entered it point to it. -/
structure Object.Active (o : Object) (mainFiber : Option ℕ) (flow : Flow) (f turn : ℕ) : Prop where
  state : o.state = .exec
  cur : o.cur = some f
  refs : o.refs = o.held + 2
  caller : o.caller = true ↔ mainFiber = some f
  ctx : ∀ g, flow = some g → g ≠ f → o.ctx = some ⟨some f, .called g, turn⟩

/-- The main fiber of a thread, to which `t_threadFiber` points. -/
structure Object.Main (o : Object) : Prop where
  state : o.state = .exec
  stack : o.stack = false
  cb : o.cb = false
  refs : o.refs = o.held + 1

/-- The fiber runs, or has entered the one that runs. -/
def Thread.active (s : Thread) (f : ℕ) : Prop :=
  s.flow = some f ∨ s.flow.isSome ∧ s.mainFiber = some f

/-- The fibers that there are. -/
def Thread.live (s : Thread) : Finset ℕ :=
  (Finset.range s.created).filter fun f => (s.objects f).isSome

/-- The invariant of the switches. -/
structure Sound (s : Thread) : Prop where
  fresh : ∀ f, s.created ≤ f → s.objects f = none
  this : s.this = s.flow.or s.threadFiber
  flow : ∀ f, s.flow = some f → s.mainFiber.isSome ∧ s.threadFiber ≠ some f ∧ (s.objects f).isSome
  main : ∀ m, s.mainFiber = some m → s.threadFiber.isSome ∧ (s.threadFiber ≠ some m →
    ∃ o ∈ s.objects m, o.caller = true ∧ (s.flow = none → 0 < o.held))
  thread : ∀ t, s.threadFiber = some t → ∃ o ∈ s.objects t, o.Main ∧
    -- the fiber that the thread's own flow has entered
    ∀ g, s.flow = some g → ∃ h, (if s.mainFiber = some t then h = g else s.mainFiber = some h) ∧
      o.ctx = some ⟨none, .called h, s.turns none⟩
  fiber : ∀ f, s.threadFiber ≠ some f → ∀ o ∈ s.objects f, o.stack = true ∧
    (s.active f → o.Active s.mainFiber s.flow f (s.turns (some f))) ∧
    (¬ s.active f → o.Rest f (s.turns (some f)) ∨ o.Waiting f (s.turns (some f)))
  count : s.count = s.live.card

theorem sound_new : Sound .new where
  fresh _ _ := rfl
  this := rfl
  flow _ h := nomatch h
  main _ h := nomatch h
  thread _ h := nomatch h
  fiber _ _ _ h := nomatch h
  count := rfl

/-! ## Changes of one object -/

variable {s s' : Thread} {f g : ℕ} {o o' og : Object}

theorem mem_put {f' : ℕ} {x : Object} :
    x ∈ (s.put f o).objects f' ↔ if f' = f then x = o else x ∈ s.objects f' := by
  simp only [Thread.put, Function.update_apply]
  split_ifs with h
  · simp [eq_comm]
  · rfl

theorem Thread.live_put (hf : f < s.created → (s.objects f).isSome) :
    (s.put f o).live = s.live := by
  refine Finset.filter_congr fun f' hf' => ?_
  by_cases h : f' = f
  · subst h
    simp [Thread.put, hf (Finset.mem_range.mp hf')]
  · simp [Thread.put, Function.update_of_ne h]

theorem Thread.live_create (o : Object) : (s.create o).live.card = s.live.card + 1 := by
  have hput : (s.put s.created o).live = s.live := Thread.live_put (by simp)
  have hlive : (s.create o).live = insert s.created s.live := by
    rw [← hput]
    show (Finset.range (s.created + 1)).filter _ = _
    rw [Finset.range_add_one, Finset.filter_insert, if_pos (by simp [Thread.create, Thread.put])]
    rfl
  rw [hlive, Finset.card_insert_of_notMem (by simp [Thread.live])]

namespace Sound

variable (hs : Sound s)
include hs

theorem lt_created (ho : o ∈ s.objects f) : f < s.created := by
  by_contra h
  simp [hs.fresh f (not_lt.mp h)] at ho

/-- What is done to one object keeps the invariant where it keeps that of the object. -/
theorem put (ho : o ∈ s.objects f)
    (hthread : s.threadFiber = some f → o'.Main ∧ o'.ctx = o.ctx)
    (hmain : s.threadFiber ≠ some f → s.mainFiber = some f →
      o'.caller = true ∧ (s.flow = none → 0 < o'.held))
    (hfiber : s.threadFiber ≠ some f → o'.stack = true ∧
      (s.active f → o'.Active s.mainFiber s.flow f (s.turns (some f))) ∧
      (¬ s.active f → o'.Rest f (s.turns (some f)) ∨ o'.Waiting f (s.turns (some f)))) :
    Sound (s.put f o') where
  fresh f' hf' := by
    have hne : f' ≠ f := fun h => by simp [h ▸ hs.fresh f' hf'] at ho
    simpa [Thread.put, hne] using hs.fresh f' hf'
  this := hs.this
  flow f' hf' := by
    obtain ⟨hm, ht, hsome⟩ := hs.flow f' hf'
    refine ⟨hm, ht, ?_⟩
    by_cases h : f' = f
    · simp [Thread.put, h]
    · simpa [Thread.put, h] using hsome
  main m hm := by
    obtain ⟨ht, h⟩ := hs.main m hm
    refine ⟨ht, fun hne => ?_⟩
    obtain ⟨x, hx, hcaller⟩ := h hne
    by_cases hmf : m = f
    · subst hmf
      exact ⟨o', mem_put.mpr (by simp), hmain hne hm⟩
    · exact ⟨x, mem_put.mpr (by simpa [hmf] using hx), hcaller⟩
  thread t ht := by
    obtain ⟨x, hx, hmn, hctx⟩ := hs.thread t ht
    by_cases htf : t = f
    · subst htf
      obtain rfl : o = x := Option.mem_unique ho hx
      obtain ⟨hmn', hctx'⟩ := hthread ht
      exact ⟨o', mem_put.mpr (by simp), hmn', fun g hg => by rw [hctx']; exact hctx g hg⟩
    · exact ⟨x, mem_put.mpr (by simpa [htf] using hx), hmn, hctx⟩
  fiber f' hf' x hx := by
    rw [mem_put] at hx
    split_ifs at hx with h
    · subst hx h
      obtain ⟨h₁, h₂, h₃⟩ := hfiber hf'
      exact ⟨h₁, h₂, h₃⟩
    · obtain ⟨h₁, h₂, h₃⟩ := hs.fiber f' hf' x hx
      exact ⟨h₁, h₂, h₃⟩
  count := by
    rw [Thread.live_put fun _ => by simp [Option.mem_def.mp ho]]
    exact hs.count

/-- A fiber that nothing points to goes. -/
theorem erase (ho : o ∈ s.objects f) (ht : s.threadFiber ≠ some f) (hm : s.mainFiber ≠ some f)
    (hflow : s.flow ≠ some f) :
    Sound { s with objects := Function.update s.objects f none, count := s.count - 1 } where
  fresh f' hf' := by
    by_cases h : f' = f
    · simp [h]
    · simpa [h] using hs.fresh f' hf'
  this := hs.this
  flow f' hf' := by
    have hne : f' ≠ f := fun h => hflow (h ▸ hf')
    simpa [hne] using hs.flow f' hf'
  main m hm' := by
    have hne : m ≠ f := fun h => hm (h ▸ hm')
    simpa [hne] using hs.main m hm'
  thread t ht' := by
    have hne : t ≠ f := fun h => ht (h ▸ ht')
    simpa [hne] using hs.thread t ht'
  fiber f' hf' x hx := by
    have hne : f' ≠ f := fun h => by simp [h] at hx
    obtain ⟨h₁, h₂, h₃⟩ := hs.fiber f' hf' x (by simpa [hne] using hx)
    exact ⟨h₁, h₂, h₃⟩
  count := by
    have hmem : f ∈ s.live := by
      simp [Thread.live, hs.lt_created ho, Option.mem_def.mp ho]
    show s.count - 1 = _
    rw [hs.count, ← Finset.card_erase_of_mem hmem]
    congr 1
    ext f'
    by_cases h : f' = f <;> simp [Thread.live, h]

/-- A new fiber. -/
theorem create (cb caller : Bool) : Sound (s.create (s.object cb caller)) where
  fresh f' hf' := by
    have h : s.created + 1 ≤ f' := hf'
    have hne : f' ≠ s.created := by omega
    simpa [Thread.create, Thread.put, hne] using hs.fresh f' (by omega)
  this := hs.this
  flow f' hf' := by
    obtain ⟨hm, ht, hsome⟩ := hs.flow f' hf'
    have hne : f' ≠ s.created := fun h => by simp [h, hs.fresh s.created le_rfl] at hsome
    exact ⟨hm, ht, by simpa [Thread.create, Thread.put, hne] using hsome⟩
  main m hm := by
    obtain ⟨ht, h⟩ := hs.main m hm
    refine ⟨ht, fun hne => ?_⟩
    obtain ⟨x, hx, hcaller⟩ := h hne
    exact ⟨x, mem_put.mpr (by simpa [(hs.lt_created hx).ne] using hx), hcaller⟩
  thread t ht := by
    obtain ⟨x, hx, h⟩ := hs.thread t ht
    exact ⟨x, mem_put.mpr (by simpa [(hs.lt_created hx).ne] using hx), h⟩
  fiber f' hf' x hx := by
    have hx := mem_put.mp hx
    split_ifs at hx with h
    · subst hx h
      refine ⟨rfl, fun ha => ?_, fun _ => .inl ⟨.inl ⟨rfl, rfl⟩, rfl, rfl, Nat.one_pos⟩⟩
      -- nothing is about an object that is not there
      rcases ha with ha | ⟨-, ha⟩
      · simpa [hs.fresh _ le_rfl] using (hs.flow _ ha).2.2
      · obtain ⟨y, hy, -⟩ := (hs.main _ ha).2 hf'
        exact absurd (hs.lt_created hy) (lt_irrefl _)
    · obtain ⟨h₁, h₂, h₃⟩ := hs.fiber f' hf' x hx
      exact ⟨h₁, h₂, h₃⟩
  count := by
    show s.count + 1 = _
    rw [Thread.live_create, hs.count]

end Sound

/-- The thread after the flow of `g` has entered `f`. -/
def Thread.entered (s : Thread) (g f : ℕ) (og o : Object) : Thread :=
  { (s.put g { og with ctx := some ⟨s.flow, .called f, s.turns s.flow + 1⟩ }).put f
      { o with state := .exec, held := o.held - 1, refs := o.held + 1, cur := some f } with
    this := some f
    flow := some f
    turns := Function.update s.turns s.flow (s.turns s.flow + 1) }

/-- The thread after `f` has left for the flow of `g`, where it is `o` from now on. -/
def Thread.left (s : Thread) (f g : ℕ) (o : Object) : Thread :=
  { s.put f o with
    this := some g
    flow := if s.threadFiber = some g then none else some g
    turns := Function.update s.turns (some f) (s.turns (some f) + 1) }

namespace Sound
variable (hs : Sound s)
include hs

theorem flow_eq (hthis : s.this = some g) :
    s.flow = none ∧ s.threadFiber = some g ∨ s.flow = some g ∧ s.threadFiber ≠ some g := by
  have h := hs.this
  rw [hthis] at h
  cases hflow : s.flow with
  | none => exact .inl ⟨rfl, by simpa [hflow, eq_comm] using h⟩
  | some f =>
    obtain rfl : g = f := by simpa [hflow] using h
    exact .inr ⟨rfl, (hs.flow g hflow).2.1⟩

/-- **Entering a fiber** that rests or waits keeps the invariant: from the thread's own flow if the
fiber is the scheduler's, from the scheduler's otherwise. -/
theorem enter (hg : og ∈ s.objects g) (hthis : s.this = some g) (ho : o ∈ s.objects f)
    (hf : s.threadFiber ≠ some f) (hactive : ¬ s.active f) (hheld : 0 < o.held)
    (hmain : s.flow = none ∧ s.mainFiber = some f ∧ o.caller = true ∨
      s.mainFiber = some g ∧ s.mainFiber ≠ some f ∧ o.caller = false) :
    Sound (s.entered g f og o) := by
  have hgf : g ≠ f := by
    rintro rfl
    obtain ⟨-, h⟩ | ⟨h, -⟩ := hs.flow_eq hthis
    · exact hf h
    · exact hactive (.inl h)
  have hmem {f' : ℕ} {x : Object} (hx : x ∈ s.objects f') (hf' : f' ≠ f) (hg' : f' ≠ g) :
      x ∈ (s.entered g f og o).objects f' := by
    simpa [Thread.entered, Thread.put, hf', hg'] using hx
  have hmemg : { og with ctx := some ⟨s.flow, .called f, s.turns s.flow + 1⟩ } ∈
      (s.entered g f og o).objects g := by
    simp [Thread.entered, Thread.put, hgf]
  have hmemf : { o with state := .exec, held := o.held - 1, refs := o.held + 1, cur := some f } ∈
      (s.entered g f og o).objects f := by
    simp [Thread.entered, Thread.put]
  have hmg (hm : s.mainFiber = some g) (ht : s.threadFiber ≠ some g) : og.caller = true := by
    obtain ⟨x, hx, hcaller, -⟩ := (hs.main g hm).2 ht
    obtain rfl := Option.mem_unique hg hx
    exact hcaller
  refine ⟨fun f' hf' => ?_, rfl, fun f' hf' => ?_, fun m hm => ?_, fun t ht => ?_,
    fun f' hf' x hx => ?_, ?_⟩
  · have h := hs.fresh f' hf'
    have hf : f' ≠ f := fun h => absurd (hs.lt_created ho) (by rw [← h]; exact not_lt.mpr hf')
    have hg : f' ≠ g := fun h => absurd (hs.lt_created hg) (by rw [← h]; exact not_lt.mpr hf')
    simpa [Thread.entered, Thread.put, hf, hg] using h
  · obtain rfl : f = f' := Option.some.inj hf'
    refine ⟨?_, hf, by simp [Option.mem_def.mp hmemf]⟩
    obtain ⟨-, h, -⟩ | ⟨h, -⟩ := hmain <;> simp [Thread.entered, Thread.put, h]
  · refine ⟨(hs.main m hm).1, fun hne => ?_⟩
    obtain ⟨-, h, hcaller⟩ | ⟨h, -⟩ := hmain
    · obtain rfl : f = m := Option.some.inj (h.symm.trans hm)
      exact ⟨_, hmemf, hcaller, fun h => nomatch h⟩
    · obtain rfl : g = m := Option.some.inj (h.symm.trans hm)
      exact ⟨_, hmemg, hmg h hne, fun h => nomatch h⟩
  · obtain ⟨x, hx, hmn, hctx⟩ := hs.thread t ht
    obtain ⟨hflow, htg⟩ | ⟨hflow, htg⟩ := hs.flow_eq hthis
    · obtain rfl : g = t := Option.some.inj (htg.symm.trans ht)
      obtain rfl := Option.mem_unique hg hx
      refine ⟨_, hmemg, ⟨hmn.1, hmn.2, hmn.3, hmn.4⟩, fun g' hg' => ⟨f, ?_, ?_⟩⟩
      · obtain rfl : f = g' := Option.some.inj hg'
        obtain ⟨-, h, -⟩ | ⟨h, -⟩ := hmain
        · simp [Thread.entered, Thread.put, h, hgf.symm]
        · simp [Thread.entered, Thread.put, h]
      · simp [Thread.entered, hflow]
    · have htf : t ≠ f := fun h => hf (h ▸ ht)
      have htg : t ≠ g := fun h => htg (h ▸ ht)
      obtain ⟨hnone, -⟩ | ⟨hm, -⟩ := hmain
      · simp [hnone] at hflow
      · obtain ⟨h, hif, hctx⟩ := hctx g hflow
        have hne : s.mainFiber ≠ some t := fun h => htg (Option.some.inj (h.symm.trans hm))
        rw [if_neg hne] at hif
        refine ⟨x, hmem hx htf htg, hmn, fun g' _ => ⟨h, ?_, ?_⟩⟩
        · simpa [Thread.entered, Thread.put, hne] using hif
        · simpa [Thread.entered, hflow] using hctx
  · by_cases hff : f' = f
    · subst hff
      obtain rfl := Option.mem_unique hmemf hx
      refine ⟨(hs.fiber f' hf o ho).1, fun _ => ⟨rfl, rfl, ?_, ?_, ?_⟩,
        fun h => absurd (.inl rfl) h⟩
      · simp only
        omega
      · obtain ⟨-, h, hcaller⟩ | ⟨-, h, hcaller⟩ := hmain <;>
          simp [Thread.entered, Thread.put, h, hcaller]
      · intro g' hg' hne
        exact absurd (Option.some.inj hg').symm hne
    by_cases hfg : f' = g
    · subst hfg
      obtain rfl := Option.mem_unique hmemg hx
      obtain ⟨-, htg⟩ | ⟨hflow, -⟩ := hs.flow_eq hthis
      · exact absurd htg hf'
      obtain ⟨hnone, -⟩ | ⟨hm, -⟩ := hmain
      · simp [hnone] at hflow
      obtain ⟨hstack, hact, -⟩ := hs.fiber f' hf' og hg
      have hact := hact (.inl hflow)
      refine ⟨hstack, fun _ => ⟨hact.1, hact.2, hact.3, hact.4, ?_⟩, fun h => ?_⟩
      · intro g' hg' _
        obtain rfl : f = g' := Option.some.inj hg'
        simp [Thread.entered, hflow]
      · exact absurd (.inr ⟨rfl, hm⟩) h
    · have hx' : x ∈ s.objects f' := by
        simpa [Thread.entered, Thread.put, hff, hfg] using hx
      obtain ⟨hstack, -, hrest⟩ := hs.fiber f' hf' x hx'
      have hflow : s.flow ≠ some f' := by
        obtain ⟨h, -⟩ | ⟨h, -⟩ := hs.flow_eq hthis <;> simp [h, Ne.symm hfg]
      have hold : ¬ s.active f' := by
        rintro (h | ⟨hsome, hm⟩)
        · exact hflow h
        · obtain ⟨hnone, -⟩ | ⟨h, -⟩ := hmain
          · simp [hnone] at hsome
          · exact hfg (Option.some.inj (hm.symm.trans h))
      refine ⟨hstack, fun ha => ?_, fun _ => ?_⟩
      · rcases ha with h | ⟨-, hm⟩
        · exact absurd (Option.some.inj h).symm hff
        · obtain ⟨-, h, -⟩ | ⟨h, -⟩ := hmain
          · exact absurd (Option.some.inj (hm.symm.trans h)) hff
          · exact absurd (Option.some.inj (hm.symm.trans h)) hfg
      · simpa [Thread.entered, Function.update_of_ne hflow.symm] using hrest hold
  · show s.count = ((s.put g _).put f _).live.card
    rw [Thread.live_put fun _ => ?_, Thread.live_put fun _ => ?_]
    · exact hs.count
    · simp [Option.mem_def.mp hg]
    · simp [Thread.put, hgf.symm, Option.mem_def.mp ho]

/-- **Leaving a fiber** that rests or waits from then on keeps the invariant: to the thread's own
flow from the scheduler's fiber, to the scheduler's flow otherwise. -/
theorem leave (hflow : s.flow = some f) (ho : o ∈ s.objects f) (hstack : o'.stack = true)
    (hmain : s.threadFiber = some g ∧ s.mainFiber = some f ∧ o'.caller = true ∧ 0 < o'.held ∨
      s.mainFiber = some g ∧ g ≠ f)
    (hrest : o'.Rest f (s.turns (some f) + 1) ∨ o'.Waiting f (s.turns (some f) + 1)) :
    Sound (s.left f g o') := by
  obtain ⟨hsome, hf, -⟩ := hs.flow f hflow
  have hmem {f' : ℕ} {x : Object} (hx : x ∈ s.objects f') (hf' : f' ≠ f) :
      x ∈ (s.left f g o').objects f' := by
    simpa [Thread.left, Thread.put, hf'] using hx
  have hmemf : o' ∈ (s.left f g o').objects f := by
    simp [Thread.left, Thread.put]
  have hleft : s.threadFiber ≠ some g → s.mainFiber = some g ∧ g ≠ f := fun h =>
    hmain.resolve_left fun h' => h h'.1
  refine ⟨fun f' hf' => ?_, ?_, fun f' hf' => ?_, fun m hm => ?_, fun t ht => ?_,
    fun f' hf' x hx => ?_, ?_⟩
  · have hf : f' ≠ f := fun h => absurd (hs.lt_created ho) (by rw [← h]; exact not_lt.mpr hf')
    simpa [Thread.left, Thread.put, hf] using hs.fresh f' hf'
  · by_cases h : s.threadFiber = some g <;> simp [Thread.left, Thread.put, h]
  · by_cases ht : s.threadFiber = some g
    · simp [Thread.left, ht] at hf'
    · obtain rfl : g = f' := by simpa [Thread.left, ht] using hf'
      obtain ⟨hm, hgf⟩ := hleft ht
      obtain ⟨x, hx, -⟩ := (hs.main g hm).2 ht
      exact ⟨hsome, ht, by simp [Option.mem_def.mp (hmem hx hgf)]⟩
  · refine ⟨(hs.main m hm).1, fun hne => ?_⟩
    by_cases hmf : m = f
    · subst hmf
      obtain ⟨-, -, hcaller, hheld⟩ | ⟨h, hgf⟩ := hmain
      · exact ⟨o', hmemf, hcaller, fun _ => hheld⟩
      · exact absurd (Option.some.inj (h.symm.trans hm)) hgf
    · obtain ⟨x, hx, hcaller, -⟩ := (hs.main m hm).2 hne
      refine ⟨x, hmem hx hmf, hcaller, fun hnone => ?_⟩
      -- the scheduler's fiber has entered `f`, which goes back to it
      obtain ⟨-, h, -⟩ | ⟨h, -⟩ := hmain
      · exact absurd (Option.some.inj (hm.symm.trans h)) hmf
      · have ht : s.threadFiber ≠ some g := fun h' => hne (h'.trans (h.symm.trans hm))
        simp [Thread.left, ht] at hnone
  · obtain ⟨x, hx, hmn, hctx⟩ := hs.thread t ht
    have htf : t ≠ f := fun h => hf (h ▸ ht)
    refine ⟨x, hmem hx htf, hmn, fun g' hg' => ?_⟩
    by_cases htg : s.threadFiber = some g
    · simp [Thread.left, htg] at hg'
    · obtain rfl : g = g' := by simpa [Thread.left, htg] using hg'
      obtain ⟨hm, -⟩ := hleft htg
      have hne : s.mainFiber ≠ some t := fun h => htg (Eq.trans ht (h.symm.trans hm))
      obtain ⟨h, hif, hctx⟩ := hctx f hflow
      rw [if_neg hne] at hif
      refine ⟨h, ?_, by simpa [Thread.left] using hctx⟩
      rw [if_neg (by exact hne)]
      exact hif
  · by_cases hff : f' = f
    · subst hff
      obtain rfl := Option.mem_unique hmemf hx
      refine ⟨hstack, fun ha => ?_, fun _ => by simpa [Thread.left] using hrest⟩
      by_cases ht : s.threadFiber = some g
      · simp [Thread.active, Thread.left, ht] at ha
      · obtain ⟨hm, hgf⟩ := hleft ht
        simp [Thread.active, Thread.left, Thread.put, ht, hm, hgf] at ha
    · have hx' : x ∈ s.objects f' := by
        simpa [Thread.left, Thread.put, hff] using hx
      obtain ⟨hstack, hact, hrest⟩ := hs.fiber f' hf' x hx'
      have hiff : (s.left f g o').active f' ↔ s.active f' := by
        by_cases ht : s.threadFiber = some g
        · have hm : s.mainFiber ≠ some f' := by
            obtain ⟨-, h, -⟩ | ⟨h, -⟩ := hmain
            · simpa [h] using Ne.symm hff
            · rw [h, ← ht]
              exact hf'
          simp [Thread.active, Thread.left, Thread.put, ht, hm, hflow, Ne.symm hff]
        · obtain ⟨hm, hgf⟩ := hleft ht
          simp [Thread.active, Thread.left, Thread.put, ht, hm, hflow, Ne.symm hff]
      refine ⟨hstack, fun ha => ?_, fun ha => ?_⟩
      · obtain ⟨h₁, h₂, h₃, h₄, -⟩ := hact (hiff.mp ha)
        refine ⟨h₁, h₂, h₃, h₄, fun g' hg' hne => ?_⟩
        -- only the scheduler's fiber is still active, and it runs
        by_cases ht : s.threadFiber = some g
        · simp [Thread.left, ht] at hg'
        · obtain ⟨hm, -⟩ := hleft ht
          obtain rfl : g = g' := by simpa [Thread.left, ht] using hg'
          simp [Thread.active, Thread.left, Thread.put, ht, hm, hne] at ha
      · simpa [Thread.left, hff] using hrest (mt hiff.mpr ha)
  · show s.count = (s.put f o').live.card
    rw [Thread.live_put fun _ => by simp [Option.mem_def.mp ho]]
    exact hs.count

/-- Where the flow of `g` goes on when `f` leaves for it. -/
theorem exists_called (hflow : s.flow = some f)
    (hmain : s.threadFiber = some g ∧ s.mainFiber = some f ∨ s.mainFiber = some g ∧ g ≠ f) :
    ∃ og ∈ s.objects g, og.ctx = some ⟨if s.threadFiber = some g then none else some g,
      .called f, s.turns (if s.threadFiber = some g then none else some g)⟩ := by
  obtain ⟨-, hf, -⟩ := hs.flow f hflow
  by_cases ht : s.threadFiber = some g
  · obtain ⟨og, hog, -, hctx⟩ := hs.thread g ht
    obtain ⟨h, hif, hctx⟩ := hctx f hflow
    refine ⟨og, hog, ?_⟩
    obtain ⟨-, hm⟩ | ⟨hm, -⟩ := hmain
    · have hne : s.mainFiber ≠ some g := by
        rintro h
        exact hf (ht.trans (h.symm.trans hm))
      rw [if_neg hne, hm, Option.some.injEq] at hif
      simp [ht, hctx, hif]
    · simp [hm] at hif
      simp [ht, hctx, hif]
  · obtain ⟨hm, hgf⟩ := hmain.resolve_left fun h => ht h.1
    obtain ⟨og, hog, -⟩ := (hs.main g hm).2 ht
    obtain ⟨-, hact, -⟩ := hs.fiber g ht og hog
    have hact := hact (.inr ⟨by simp [hflow], hm⟩)
    exact ⟨og, hog, by simpa [ht] using hact.ctx f hflow hgf.symm⟩

end Sound

end Switch

end Sylar

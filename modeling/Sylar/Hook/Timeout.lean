import Sylar.Hook.Model

/-!
# The wakeup of a hooked call

The timer of a hooked call is armed before the event is registered. When a callback has set
`cancelled` and found nothing to cancel, and the event is registered after that, no callback is
left that cancels it: later ones see `cancelled` and give up, and the fiber waits for input that
may never come. A run never gets there exactly as long as every registration comes in time.

## Main definitions

* `Coming`: a callback will still cancel the event
* `Wakes`: a fiber that waits after the timeout is scheduled
* `InTime`: a step registers the event before the last callback is past it

## Main results

* `Inv.step`: what holds in every run
* `wakes_iff`: a run keeps `Wakes` exactly if all its steps meet `InTime`
* `Stuck.forever`: a fiber that is stuck stays so until there is an event
-/

namespace Sylar

open Foundation

namespace Hook

variable {hook : Hook} {s t : Call} {i j : ℕ}

/-- The timer of the attempt has been armed, and the fiber has not been resumed. -/
def Pc.attempting : Pc → Bool
  | .find | .addEvent | .yield | .suspended => true
  | _ => false

/-- At `YieldToHold` or suspended by it. -/
def Pc.waits : Pc → Bool
  | .yield | .suspended => true
  | _ => false

def Pc.isReturned : Pc → Bool
  | .returned _ => true
  | _ => false

/-- Past the test of `cancelled`, and not past the cancelling of the event. -/
def TimerPc.cancelling : TimerPc → Bool
  | .set | .find | .cancelEvent => true
  | _ => false

/-- Not yet at the test of `cancelled`. -/
def TimerPc.early : TimerPc → Bool
  | .armed | .expired | .test => true
  | _ => false

/-- The callback has set `cancelled`. -/
def TimerPc.past : TimerPc → Bool
  | .find | .cancelEvent | .ran => true
  | _ => false

namespace Call

/-- A callback will still cancel the event, if it is registered then. -/
def Coming (s : Call) : Prop :=
  (∃ i, (s.timers i).cancelling) ∨ s.cancelled = false ∧ ∃ i, (s.timers i).early

/-- The callback of a timeout has run, and none is left that will cancel the event. -/
def TimedOut (s : Call) : Prop := (∃ i, s.timers i = .ran) ∧ ¬ s.Coming

/-- **A hooked call wakes up**: once the timeout has run, the fiber does not wait, or it has been
scheduled. A fiber that does not wait yet and will, without being scheduled, fails this then. -/
def Wakes (s : Call) : Prop := s.TimedOut → s.pc.waits → s.queued = true

/-- The step is in time: the event is registered while no callback has set `cancelled`, or while
one that has is still to cancel the event; a `cancelEvent` that epoll fails is not the last. -/
def InTime (s : Call) : Action → Prop
  | .addEvent true => s.cancelled = false ∨ ∃ i, (s.timers i).cancelling
  | .cancelEvent i false => s.registered → ∃ j, j ≠ i ∧ (s.timers j).cancelling
  | _ => True

/-- What holds in every run of a call with a timeout. -/
structure Inv (s : Call) : Prop where
  registered : s.registered → s.pc.waits ∧ s.queued = false ∧ s.found
  queued : s.queued → s.pc.waits
  waits : s.pc.waits → s.registered ∨ s.queued
  found : s.pc = .addEvent → s.found
  attempting : s.pc.attempting → ∃ i, s.timers i ≠ .unset ∧ s.timers i ≠ .removed
  ran : ∀ i, s.timers i = .ran → s.cancelled ∨ s.pc.isReturned
  set : ∀ i, s.timers i = .find ∨ s.timers i = .cancelEvent → s.cancelled
  fresh : ∀ i, s.attempts ≤ i → s.timers i = .unset
  setter : s.cancelled → ∃ i, (s.timers i).past

end Call

open Call

@[simp] theorem Call.timers_setTimer {pc : TimerPc} :
    (s.setTimer i pc).timers j = if j = i then pc else s.timers j := Function.update_apply ..

/-! ## What holds in every run -/

theorem Call.Inv.attempting_setTimer (h : s.Inv) {pc : TimerPc}
    (hpc : pc ≠ .unset ∧ pc ≠ .removed) (hs : s.pc.attempting) :
    ∃ j, (s.setTimer i pc).timers j ≠ .unset ∧ (s.setTimer i pc).timers j ≠ .removed := by
  obtain ⟨j, hj⟩ := h.attempting hs
  refine ⟨j, ?_⟩
  rw [timers_setTimer]
  split_ifs
  · exact hpc
  · exact hj

theorem Call.Inv.fresh_setTimer (h : s.Inv) (hi : s.timers i ≠ .unset) {pc : TimerPc}
    (hj : s.attempts ≤ j) : (s.setTimer i pc).timers j = .unset := by
  rw [timers_setTimer, if_neg]
  · exact h.fresh j hj
  · rintro rfl
    exact hi (h.fresh j hj)

/-- The callback of an attempt moves on. -/
theorem Call.Inv.setTimer (h : s.Inv) {pc : TimerPc} (hi : s.timers i ≠ .unset)
    (hpc : pc ≠ .unset ∧ pc ≠ .removed) (hpast : (s.timers i).past → pc.past)
    (hran : pc = .ran → s.cancelled ∨ s.pc.isReturned)
    (hset : pc = .find ∨ pc = .cancelEvent → s.cancelled) : (s.setTimer i pc).Inv :=
  { h with
    attempting := h.attempting_setTimer hpc
    ran := by
      intro j hj
      rw [timers_setTimer] at hj
      split_ifs at hj
      · exact hran hj
      · exact h.ran j hj
    set := by
      intro j hj
      rw [timers_setTimer] at hj
      split_ifs at hj
      · exact hset hj
      · exact h.set j hj
    fresh := fun j => h.fresh_setTimer hi
    setter := by
      intro hc
      obtain ⟨j, hj⟩ := h.setter hc
      refine ⟨j, ?_⟩
      rw [timers_setTimer]
      split_ifs with hji
      · exact hpast (hji ▸ hj)
      · exact hj }

/-- The callback sets `cancelled`. -/
theorem Call.Inv.setCancelled (h : s.Inv) (hi : s.timers i = .set) :
    ({ s.setTimer i .find with cancelled := true } : Call).Inv :=
  { h with
    attempting := h.attempting_setTimer (by decide)
    ran := fun _ _ => .inl rfl
    set := fun _ _ => rfl
    fresh := fun _ => h.fresh_setTimer (by simp [hi])
    setter := fun _ => ⟨i, by simp [TimerPc.past]⟩ }

/-- The fiber moves on, to where it does not wait. -/
theorem Call.Inv.goto (h : s.Inv) {pc : Pc} (hs : ¬ s.registered) (hq : ¬ s.queued)
    (hpc : ¬ pc.waits ∧ pc ≠ .addEvent) (hret : s.pc.isReturned → pc.isReturned)
    (hatt : pc.attempting → s.pc.attempting) : ({ s with pc := pc } : Call).Inv :=
  { registered := fun hr => absurd hr hs
    queued := fun hr => absurd hr hq
    waits := fun hw => absurd hw hpc.1
    found := fun hf => absurd hf hpc.2
    attempting := fun ha => h.attempting (hatt ha)
    ran := fun i hi => (h.ran i hi).imp_right hret
    set := h.set
    fresh := h.fresh
    setter := h.setter }

theorem Call.Inv.trigger (h : s.Inv) (hr : s.registered) : s.trigger.Inv :=
  { h with
    registered := fun hr => nomatch hr
    queued := fun _ => (h.registered hr).1
    waits := fun _ => .inr rfl }

/-- A fiber that does not wait is in no place that could wake it. -/
theorem Call.Inv.idle (h : s.Inv) (hs : ¬ s.pc.waits) : ¬ s.registered ∧ ¬ s.queued :=
  ⟨fun hr => hs (h.registered hr).1, fun hq => hs (h.queued hq)⟩

theorem Call.Inv.cancelTimer (h : s.Inv) (hs : ¬ s.pc.attempting) : s.cancelTimer.Inv := by
  unfold Call.cancelTimer
  split
  · exact h
  · split_ifs with hi
    · refine { h with
        attempting := fun ha => absurd ha hs
        ran := fun j hj => ?_
        set := fun j hj => ?_
        fresh := fun j hj => ?_
        setter := fun hc => ?_ }
      · rw [timers_setTimer] at hj
        split_ifs at hj
        exact h.ran j hj
      · rw [timers_setTimer] at hj
        split_ifs at hj
        · simp at hj
        · exact h.set j hj
      · rw [timers_setTimer, if_neg]
        · exact h.fresh j hj
        · rintro rfl
          rw [h.fresh j hj] at hi
          cases hi
      · obtain ⟨j, hj⟩ := h.setter hc
        refine ⟨j, ?_⟩
        rw [timers_setTimer, if_neg]
        · exact hj
        · rintro rfl
          rw [hi] at hj
          cases hj
    · exact h

theorem Call.cancelTimer_eq : ∃ timers, s.cancelTimer = { s with timers := timers } := by
  unfold Call.cancelTimer
  split
  · exact ⟨_, rfl⟩
  · split_ifs
    · exact ⟨_, rfl⟩
    · exact ⟨_, rfl⟩

theorem Call.Inv.arm (h : s.Inv) (hpc : s.pc = .arm) :
    (({ s with pc := .find, attempts := s.attempts + 1, timer := some s.attempts } : Call).setTimer
      s.attempts .armed).Inv := by
  obtain ⟨hr, hq⟩ := h.idle (by rw [hpc]; decide)
  refine
    { registered := fun hr' => absurd hr' hr
      queued := fun hq' => absurd hq' hq
      waits := fun hw => nomatch hw
      found := fun hf => nomatch hf
      attempting := fun _ => ⟨s.attempts, by simp⟩
      ran := fun k hk => ?_
      set := fun k hk => ?_
      fresh := fun k hk => ?_
      setter := fun hc => ?_ }
  · rw [timers_setTimer] at hk
    split_ifs at hk
    refine (h.ran k hk).imp_right fun hret => ?_
    rw [hpc] at hret
    cases hret
  · rw [timers_setTimer] at hk
    split_ifs at hk
    · simp at hk
    · exact h.set k hk
  · rw [timers_setTimer, if_neg]
    · exact h.fresh k (Nat.le_of_succ_le hk)
    · rintro rfl
      exact absurd hk (Nat.not_succ_le_self _)
  · obtain ⟨k, hk⟩ := h.setter hc
    refine ⟨k, ?_⟩
    rw [timers_setTimer, if_neg]
    · exact hk
    · rintro rfl
      change (s.timers s.attempts).past at hk
      rw [h.fresh s.attempts (Nat.le_refl _)] at hk
      cases hk

/-- **Every step keeps the invariant.** -/
theorem Call.Inv.step {a : Action} (h : s.Inv) (hs : (machine hook true).step s a = some t) :
    t.Inv := by
  simp only [machine] at hs
  cases a with
  | io result =>
    simp only [Call.step] at hs
    split_ifs at hs with hpc
    obtain ⟨hr, hq⟩ := h.idle (by rw [hpc]; decide)
    split at hs <;> cases hs
    · exact h.goto hr hq (by decide) (by simp [hpc, Pc.isReturned]) (by simp [Pc.attempting])
    · exact h
    · exact h.goto hr hq (by decide) (by simp [Pc.isReturned]) (by simp [Pc.attempting])
  | arm =>
    simp only [Call.step] at hs
    split_ifs at hs with hpc
    cases hs
    exact h.arm hpc
  | find =>
    simp only [Call.step] at hs
    split_ifs at hs with hpc
    cases hs
    obtain ⟨hr, hq⟩ := h.idle (by rw [hpc]; decide)
    exact
      { registered := fun hr' => absurd hr' hr
        queued := fun hq' => absurd hq' hq
        waits := fun hw => nomatch hw
        found := fun _ => rfl
        attempting := fun _ => h.attempting (by rw [hpc]; rfl)
        ran := by simpa [hpc, Pc.isReturned] using h.ran
        set := h.set
        fresh := h.fresh
        setter := h.setter }
  -- the fiber waits from here on: for the event, or in the queue
  | addEvent accepted =>
    simp only [Call.step] at hs
    split_ifs at hs with hpc hacc <;> cases hs <;> obtain ⟨hr, hq⟩ := h.idle (by rw [hpc]; decide)
    · exact
        { registered := fun _ => ⟨rfl, by simpa using hq, h.found hpc⟩
          queued := fun _ => rfl
          waits := fun _ => .inl rfl
          found := fun hf => nomatch hf
          attempting := fun _ => h.attempting (by rw [hpc]; rfl)
          ran := by simpa [hpc, Pc.isReturned] using h.ran
          set := h.set
          fresh := h.fresh
          setter := h.setter }
    · exact h.goto hr hq (by decide) (by simp [hpc, Pc.isReturned]) (by simp [Pc.attempting])
  | yield =>
    simp only [Call.step] at hs
    split_ifs at hs with hpc
    cases hs
    exact
      { registered := fun hr => ⟨rfl, (h.registered hr).2⟩
        queued := fun _ => rfl
        waits := fun _ => h.waits (by rw [hpc]; rfl)
        found := fun hf => nomatch hf
        attempting := fun _ => h.attempting (by rw [hpc]; rfl)
        ran := by simpa [hpc, Pc.isReturned] using h.ran
        set := h.set
        fresh := h.fresh
        setter := h.setter }
  -- it was queued, so its event is not registered any more
  | resume =>
    simp only [Call.step] at hs
    split_ifs at hs with hpc
    cases hs
    obtain ⟨hpc, hq⟩ := hpc
    have hr : ¬ s.registered := fun hr => by
      rw [(h.registered hr).2.1] at hq
      cases hq
    exact
      { registered := fun hr' => absurd hr' hr
        queued := fun hq' => nomatch hq'
        waits := fun hw => nomatch hw
        found := fun hf => nomatch hf
        attempting := fun ha => nomatch ha
        ran := by simpa [hpc, Pc.isReturned] using h.ran
        set := h.set
        fresh := h.fresh
        setter := h.setter }
  | cancel =>
    simp only [Call.step] at hs
    -- both places at which a timer is cancelled: behind the yield, and where `addEvent` failed
    obtain ⟨timers, htimers⟩ := s.cancelTimer_eq
    split at hs <;> cases hs <;> rename_i hpc <;>
      obtain ⟨hr, hq⟩ := h.idle (by rw [hpc]; decide) <;>
      have ht := h.cancelTimer (by rw [hpc]; decide) <;>
      rw [htimers] at ht ⊢
    · exact ht.goto hr hq (by decide) (by simp [hpc, Pc.isReturned]) (by simp [Pc.attempting])
    · exact ht.goto hr hq (by decide) (by simp [Pc.isReturned]) (by simp [Pc.attempting])
  | test =>
    simp only [Call.step] at hs
    split_ifs at hs with hpc hc
    · cases hs
      obtain ⟨hr, hq⟩ := h.idle (by rw [hpc]; decide)
      exact h.goto hr hq (by decide) (by simp [Pc.isReturned]) (by simp [Pc.attempting])
    · obtain ⟨hr, hq⟩ := h.idle (by rw [hpc]; decide)
      split at hs <;> cases hs
      · exact h.goto hr hq (by decide) (by simp [hpc, Pc.isReturned]) (by simp [Pc.attempting])
      · exact h.goto hr hq (by decide) (by simp [Pc.isReturned]) (by simp [Pc.attempting])
  | expire i =>
    simp only [Call.step] at hs
    split_ifs at hs with hi
    cases hs
    exact h.setTimer (by simp [hi]) (by decide) (by simp [hi, TimerPc.past]) (by simp) (by simp)
  -- a timer that finds the call gone ends without setting `cancelled`
  | lock i =>
    simp only [Call.step] at hs
    split_ifs at hs with hi
    split at hs <;> cases hs
    · rename_i b hpc
      exact h.setTimer (by simp [hi]) (by decide) (by simp [hi, TimerPc.past])
        (fun _ => .inr (by rw [hpc]; rfl)) (by simp)
    · exact h.setTimer (by simp [hi]) (by decide) (by simp [hi, TimerPc.past]) (by simp) (by simp)
  | testTimer i =>
    simp only [Call.step] at hs
    split_ifs at hs with hi hc <;> cases hs
    · exact h.setTimer (by simp [hi]) (by decide) (by simp [hi, TimerPc.past])
        (fun _ => .inl hc) (by simp)
    · exact h.setTimer (by simp [hi]) (by decide) (by simp [hi, TimerPc.past]) (by simp) (by simp)
  -- the only step that sets `cancelled`
  | set i =>
    simp only [Call.step] at hs
    split_ifs at hs with hi
    cases hs
    exact h.setCancelled hi
  | findTimer i =>
    simp only [Call.step] at hs
    split_ifs at hs with hi hf <;> cases hs
    · exact h.setTimer (by simp [hi]) (by decide) (by simp [hi, TimerPc.past]) (by simp)
        fun _ => h.set i (.inl hi)
    · exact h.setTimer (by simp [hi]) (by decide) (by simp [hi, TimerPc.past])
        (fun _ => .inl (h.set i (.inl hi))) (by simp)
  -- the timer has run, and wakes the fiber if its event is registered
  | cancelEvent i accepted =>
    simp only [Call.step] at hs
    split_ifs at hs with hi hr <;> cases hs
    · have ht : (s.setTimer i .ran).Inv :=
        h.setTimer (by simp [hi]) (by decide) (by simp [hi, TimerPc.past])
          (fun _ => .inl (h.set i (.inr hi))) (by simp)
      exact ht.trigger (Bool.and_eq_true_iff.mp hr).1
    · exact h.setTimer (by simp [hi]) (by decide) (by simp [hi, TimerPc.past])
        (fun _ => .inl (h.set i (.inr hi))) (by simp)
  | event accepted =>
    simp only [Call.step] at hs
    split_ifs at hs with hr <;> cases hs
    · exact h.trigger hr
    · exact h

/-! ## The wakeup -/

/-- The timer of the attempt is on its way, or its callback has run. -/
theorem Call.Inv.coming_or_ran (h : s.Inv) (hatt : s.pc.attempting) :
    s.Coming ∨ ∃ i, s.timers i = .ran := by
  obtain ⟨i, hunset, hremoved⟩ := h.attempting hatt
  cases hi : s.timers i with
  | unset => exact absurd hi hunset
  | removed => exact absurd hi hremoved
  | ran => exact .inr ⟨i, hi⟩
  | set => exact .inl (.inl ⟨i, by rw [hi]; rfl⟩)
  | find => exact .inl (.inl ⟨i, by rw [hi]; rfl⟩)
  | cancelEvent => exact .inl (.inl ⟨i, by rw [hi]; rfl⟩)
  | _ =>
    rcases hc : s.cancelled with _ | _
    · exact .inl (.inr ⟨hc, i, by rw [hi]; rfl⟩)
    · obtain ⟨j, hj⟩ := h.setter hc
      cases hj' : s.timers j with
      | ran => exact .inr ⟨j, hj'⟩
      | find => exact .inl (.inl ⟨j, by rw [hj']; rfl⟩)
      | cancelEvent => exact .inl (.inl ⟨j, by rw [hj']; rfl⟩)
      | _ => rw [hj'] at hj; cases hj

/-- In a run, a hooked call wakes up exactly if a callback will still cancel the registered
event. -/
theorem Call.Inv.wakes_iff_coming (h : s.Inv) : s.Wakes ↔ (s.registered → s.Coming) := by
  constructor
  · intro hw hr
    obtain ⟨hwaits, hq, -⟩ := h.registered hr
    have hatt : s.pc.attempting := by
      cases hpc : s.pc <;> rw [hpc] at hwaits <;> first | rfl | cases hwaits
    rcases h.coming_or_ran hatt with hc | hran
    · exact hc
    · by_contra hc
      have := hw ⟨hran, hc⟩ hwaits
      rw [hq] at this
      cases this
  · rintro hc ⟨-, hnot⟩ hwaits
    rcases h.waits hwaits with hr | hq
    · exact absurd (hc hr) hnot
    · exact hq

/-- The step of a callback that does not pass the cancelling of the event. -/
theorem Call.Coming.setTimer (h : s.Coming) {pc : TimerPc}
    (hcancelling : (s.timers i).cancelling → pc.cancelling)
    (hearly : s.cancelled = false → (s.timers i).early → pc.early ∨ pc.cancelling) :
    (s.setTimer i pc).Coming := by
  rcases h with ⟨j, hj⟩ | ⟨hc, j, hj⟩
  · refine .inl ⟨j, ?_⟩
    rw [timers_setTimer]
    split_ifs with hji
    · exact hcancelling (hji ▸ hj)
    · exact hj
  · by_cases hji : j = i
    · subst hji
      rcases hearly hc hj with he | he
      · exact .inr ⟨hc, j, by simpa using he⟩
      · exact .inl ⟨j, by simpa using he⟩
    · exact .inr ⟨hc, j, by simpa [hji] using hj⟩

/-- **One step**: from a state where a registered event will still be cancelled, a step leads to
one exactly if it is in time. -/
theorem Call.Inv.coming_step {a : Action} (h : s.Inv) (hq : s.registered → s.Coming)
    (hs : (machine hook true).step s a = some t) : (t.registered → t.Coming) ↔ s.InTime a := by
  simp only [machine] at hs
  cases a with
  | addEvent accepted =>
    simp only [Call.step] at hs
    split_ifs at hs with hpc hacc <;> cases hs
    · subst hacc
      -- a timer that ran before did it with `cancelled` set, and the call has not returned
      have hcoming : s.Coming ↔ s.cancelled = false ∨ ∃ i, (s.timers i).cancelling := by
        constructor
        · exact fun hc => hc.elim .inr fun he => .inl he.1
        · rintro (hc | hc)
          · rcases h.coming_or_ran (by rw [hpc]; rfl) with hcoming | ⟨i, hi⟩
            · exact hcoming
            · rcases h.ran i hi with hc' | hret
              · rw [hc] at hc'
                cases hc'
              · rw [hpc] at hret
                cases hret
          · exact .inl hc
      exact ⟨fun ht => hcoming.mp (ht rfl), fun hok _ => hcoming.mpr hok⟩
    · simp only [Bool.not_eq_true] at hacc
      subst hacc
      exact iff_of_true (fun hr => absurd hr (h.idle (by rw [hpc]; decide)).1) trivial
  | cancelEvent i accepted =>
    simp only [Call.step] at hs
    split_ifs at hs with hi hr <;> cases hs
    · obtain ⟨-, hacc⟩ := Bool.and_eq_true_iff.mp hr
      subst hacc
      exact iff_of_true (fun hr => nomatch hr) trivial
    · cases accepted with
      | true =>
        refine iff_of_true (fun hr' => absurd hr' ?_) trivial
        simpa using hr
      | false =>
        -- the epoll call fails: the event stays, and another timer has to come
        have hc : s.cancelled = true := h.set i (.inr hi)
        refine forall_congr' fun _ => ?_
        constructor
        · rintro (⟨j, hj⟩ | ⟨hc', -⟩)
          · rw [timers_setTimer] at hj
            split_ifs at hj with hji
            · cases hj
            · exact ⟨j, hji, hj⟩
          · exact absurd hc' (by simp [Call.setTimer, hc])
        · rintro ⟨j, hji, hj⟩
          exact .inl ⟨j, by rwa [timers_setTimer, if_neg hji]⟩
  -- no event is registered outside of the wait
  | io result =>
    simp only [Call.step] at hs
    split_ifs at hs with hpc
    have hr := (h.idle (by rw [hpc]; decide)).1
    split at hs <;> cases hs <;> exact iff_of_true (fun hr' => absurd hr' hr) trivial
  | arm =>
    simp only [Call.step] at hs
    split_ifs at hs with hpc
    cases hs
    exact iff_of_true (fun hr => absurd hr (h.idle (by rw [hpc]; decide)).1) trivial
  | find =>
    simp only [Call.step] at hs
    split_ifs at hs with hpc
    cases hs
    exact iff_of_true (fun hr => absurd hr (h.idle (by rw [hpc]; decide)).1) trivial
  | yield =>
    simp only [Call.step] at hs
    split_ifs at hs with hpc
    cases hs
    exact iff_of_true hq trivial
  | resume =>
    simp only [Call.step] at hs
    split_ifs at hs with hpc
    cases hs
    refine iff_of_true (fun hr => ?_) trivial
    have := (h.registered hr).2.1
    rw [hpc.2] at this
    cases this
  | cancel =>
    simp only [Call.step] at hs
    obtain ⟨timers, htimers⟩ := s.cancelTimer_eq
    rw [htimers] at hs
    split at hs <;> cases hs <;> rename_i hpc <;>
      exact iff_of_true (fun hr => absurd hr (h.idle (by rw [hpc]; decide)).1) trivial
  | test =>
    simp only [Call.step] at hs
    split_ifs at hs with hpc hc
    · cases hs
      exact iff_of_true (fun hr => absurd hr (h.idle (by rw [hpc]; decide)).1) trivial
    · split at hs <;> cases hs <;>
        exact iff_of_true (fun hr => absurd hr (h.idle (by rw [hpc]; decide)).1) trivial
  | expire i =>
    simp only [Call.step] at hs
    split_ifs at hs with hi
    cases hs
    refine iff_of_true (fun hr => (hq hr).setTimer ?_ ?_) trivial
    · simp [hi, TimerPc.cancelling]
    · simp [TimerPc.early]
  | lock i =>
    simp only [Call.step] at hs
    split_ifs at hs with hi
    split at hs <;> cases hs
    · rename_i b hpc
      exact iff_of_true (fun hr => absurd hr (h.idle (by simp [hpc, Pc.waits])).1) trivial
    · refine iff_of_true (fun hr => (hq hr).setTimer ?_ ?_) trivial
      · simp [hi, TimerPc.cancelling]
      · simp [TimerPc.early]
  | testTimer i =>
    simp only [Call.step] at hs
    split_ifs at hs with hi hc <;> cases hs <;>
      refine iff_of_true (fun hr => (hq hr).setTimer ?_ ?_) trivial
    · simp [hi, TimerPc.cancelling]
    · simp [hc]
    · simp [hi, TimerPc.cancelling]
    · simp [TimerPc.cancelling]
  | set i =>
    simp only [Call.step] at hs
    split_ifs at hs with hi
    cases hs
    exact iff_of_true (fun _ => .inl ⟨i, by simp [TimerPc.cancelling]⟩) trivial
  | findTimer i =>
    simp only [Call.step] at hs
    split_ifs at hs with hi hf <;> cases hs
    · refine iff_of_true (fun hr => (hq hr).setTimer ?_ ?_) trivial
      · simp [TimerPc.cancelling]
      · simp [TimerPc.cancelling]
    · exact iff_of_true (fun hr => absurd (h.registered hr).2.2 hf) trivial
  | event accepted =>
    simp only [Call.step] at hs
    split_ifs at hs with hr <;> cases hs
    · exact iff_of_true (fun hr => nomatch hr) (by cases accepted <;> trivial)
    · exact iff_of_true hq (by cases accepted <;> trivial)

theorem inv_new (found : Bool) : ({ found := found } : Call).Inv :=
  { registered := fun hr => nomatch hr
    queued := fun hq => nomatch hq
    waits := fun hw => nomatch hw
    found := fun hf => nomatch hf
    attempting := fun ha => nomatch ha
    ran := fun _ hi => nomatch hi
    set := fun _ hi => by rcases hi with hi | hi <;> cases hi
    fresh := fun _ _ => rfl
    setter := fun hc => nomatch hc }

/-! ## Stuck fibers -/

/-- The fiber is suspended, waits for the event, and no timeout is left to wake it. -/
structure Call.Stuck (s : Call) : Prop where
  pc : s.pc = .suspended
  registered : s.registered
  cancelled : s.cancelled
  passed : ∀ i, (s.timers i).cancelling = false

theorem Call.Stuck.setTimer (h : s.Stuck) {pc : TimerPc} (hpc : pc.cancelling = false) :
    (s.setTimer i pc).Stuck :=
  { h with
    passed := by
      intro j
      rw [timers_setTimer]
      split_ifs
      · exact hpc
      · exact h.passed j }

/-- **Nothing but an event resumes a stuck fiber.** -/
theorem Call.Stuck.step {timeout : Bool} {a : Action} (h : s.Stuck) (hq : s.queued = false)
    (hs : (machine hook timeout).step s a = some t) (ha : a ≠ .event true) :
    t.Stuck ∧ t.queued = false := by
  have hpassed : ∀ i, s.timers i ≠ .set ∧ s.timers i ≠ .find ∧ s.timers i ≠ .cancelEvent := by
    intro i
    have := h.passed i
    refine ⟨?_, ?_, ?_⟩ <;> rintro hi <;> rw [hi] at this <;> cases this
  simp only [machine] at hs
  cases a with
  | expire i =>
    simp only [Call.step] at hs
    split_ifs at hs
    cases hs
    exact ⟨h.setTimer rfl, hq⟩
  | lock i =>
    simp only [Call.step, h.pc] at hs
    split_ifs at hs
    cases hs
    exact ⟨h.setTimer rfl, hq⟩
  | testTimer i =>
    simp only [Call.step, h.cancelled, if_true] at hs
    split_ifs at hs
    cases hs
    exact ⟨h.setTimer rfl, hq⟩
  | event accepted =>
    cases accepted with
    | true => exact absurd rfl ha
    | false =>
      simp only [Call.step, h.registered, if_true] at hs
      cases hs
      exact ⟨h, hq⟩
  | set i => simp [Call.step, (hpassed i).1] at hs
  | findTimer i => simp [Call.step, (hpassed i).2.1] at hs
  | cancelEvent i accepted => simp [Call.step, (hpassed i).2.2] at hs
  | _ => simp [Call.step, h.pc, hq] at hs

/-- **A stuck fiber stays so** in every run without an event. -/
theorem Call.Stuck.forever {timeout : Bool} (h : s.Stuck) (hq : s.queued = false)
    (hreach : (machine hook timeout).Reach (fun _ a => a ≠ .event true) s t) : t.Stuck :=
  (hreach.invariant (P := fun t => t.Stuck ∧ t.queued = false) ⟨h, hq⟩
    fun _ _ _ ht ha hs => ht.1.step ht.2 hs ha).1

/-! ## Runs -/

/-- **The wakeup of a hooked call**: a run of a call with a timeout keeps `Wakes` exactly if every
step of it is in time. -/
theorem wakes_iff {found : Bool} {as : List Action}
    (hrun : (machine hook true).run { found := found } as = some s) :
    (machine hook true).Keeps Wakes { found := found } as ↔
      (machine hook true).Meets InTime { found := found } as := by
  refine Machine.keeps_iff_meets (I := Inv) (fun s a t h hs => h.step hs) ?_ (inv_new found) ?_ hrun
  · intro s a t h hw hs
    rw [(h.step hs).wakes_iff_coming]
    exact h.coming_step (h.wakes_iff_coming.mp hw) hs
  · exact fun _ hw => nomatch hw

/-- A read that times out while the fiber is suspended. -/
theorem wakes_iff_read :
    let as := [.io .again, .arm, .find, .addEvent true, .yield, .expire 0, .lock 0, .testTimer 0,
      .set 0, .findTimer 0, .cancelEvent 0 true, .resume, .cancel, .test]
    (∃ s, (machine .do_io true).run { found := false } as = some s ∧ s.pc = .returned true) ∧
      ((machine .do_io true).Keeps Wakes { found := false } as ↔
        (machine .do_io true).Meets InTime { found := false } as) :=
  ⟨⟨_, rfl, rfl⟩, wakes_iff rfl⟩

/-- A lost wakeup: the callback of the timer has run before the event is registered. The fiber is
suspended, and stays so until there is an event. -/
theorem timeout_lost :
    ∃ s, (machine .do_io true).run { found := true } [.io .again, .arm, .expire 0, .lock 0,
        .testTimer 0, .set 0, .findTimer 0, .cancelEvent 0 true, .find, .addEvent true,
        .yield] = some s ∧
      s.timers 0 = .ran ∧ s.pc = .suspended ∧ s.registered ∧ s.queued = false ∧ ¬ s.Wakes ∧
      ∀ t, (machine .do_io true).Reach (fun _ a => a ≠ .event true) s t → t.pc = .suspended := by
  refine ⟨_, rfl, rfl, rfl, rfl, rfl, ?_, fun t ht => (Stuck.forever ?_ rfl ht).pc⟩
  · intro hw
    refine absurd (hw ⟨⟨0, rfl⟩, ?_⟩ rfl) (by decide)
    rintro (⟨i, hi⟩ | ⟨hc, -⟩)
    · rcases i with _ | i <;> cases hi
    · cases hc
  · exact ⟨rfl, rfl, rfl, fun i => by rcases i with _ | i <;> rfl⟩

end Hook

end Sylar

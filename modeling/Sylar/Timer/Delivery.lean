import Mathlib.Data.List.Nodup
import Mathlib.Order.Nat
import Sylar.Timer.Invariant

/-!
# Which timers are delivered, and when

The purpose of the timer manager, as alarms: a table of the armed timers with their deadlines. An
expiry at a clock reading delivers exactly the alarms that are due, in order of deadline; then the
recurring ones get a new deadline and the others are gone. With a clock that does not go back and
no wraparound, every run of `addTimer`, `cancel` and `listExpiredCb` is a run of alarms.

## Main definitions

* `Alarms`, `Alarms.Step`: the armed timers and what a call does to them
* `Run`: a call of the timer manager at a clock reading that does not go back
* `Event.Delivers`: the timer is delivered by the call

## Main results

* `run_refines`: every call is a step of alarms
* `Alarms.dead`, `Alarms.oneShot`, `Alarms.stays`: what a run of alarms does with one timer
* `delivery_exact`: the two together, for every run of a new timer manager
-/

namespace Sylar

open Foundation

namespace TimerManager

/-- An armed timer. -/
structure Alarm (β : Type) where
  deadline : ℕ
  ms : ℕ
  recurring : Bool
  cb : Option β

/-- An alarm after an expiry: if it was due, it is gone, or it is due again after its interval. -/
def Alarm.after {β : Type} (now : ℕ) (a : Alarm β) : Option (Alarm β) :=
  if a.deadline ≤ now then
    if a.recurring then some { a with deadline := now + a.ms } else none
  else
    some a

/-- The armed timers. -/
structure Alarms (β : Type) where
  armed : ℕ → Option (Alarm β)
  created : ℕ

/-- A call at a clock reading, and its answer. -/
structure Event (β : Type) where
  now : ℕ
  call : Call β
  answer : Answer β

namespace Event

variable {β : Type}

/-- The call delivers the timer. -/
def Delivers (i : ℕ) (e : Event β) : Prop :=
  match e.answer with
  | .fired expired _ => i ∈ expired
  | _ => False

instance (i : ℕ) : DecidablePred (Delivers (β := β) i) := by
  intro e
  unfold Delivers
  split <;> infer_instance

end Event

namespace Alarms

variable {β : Type} {σ σ' : Alarms β} {i : ℕ} {a : Alarm β} {e : Event β} {trace : List (Event β)}

/-- Nothing is armed. -/
def none : Alarms β := ⟨fun _ => .none, 0⟩

/-- What the calls do to the alarms. -/
inductive Step : Alarms β → Event β → Alarms β → Prop
  | addTimer (σ : Alarms β) (now ms : ℕ) (cb : Option β) (recurring : Bool) (addr : ℕ) :
      Step σ ⟨now, .addTimer ms cb recurring addr, .handle σ.created⟩
        ⟨Function.update σ.armed σ.created (some ⟨now + ms, ms, recurring, cb⟩), σ.created + 1⟩
  | cancel (σ : Alarms β) (now i : ℕ) (a : Alarm β) (ha : σ.armed i = some a)
      (hcb : a.cb.isSome) :
      Step σ ⟨now, .cancel i, .flag true⟩ { σ with armed := Function.update σ.armed i .none }
  | cancelFails (σ : Alarms β) (now i : ℕ) (h : ∀ a, σ.armed i = some a → a.cb = .none) :
      Step σ ⟨now, .cancel i, .flag false⟩ σ
  | expire (σ : Alarms β) (now probe : ℕ) (due : List ℕ) (cbs : List (Option β))
      (hnodup : due.Nodup)
      (hdue : ∀ i, i ∈ due ↔ ∃ a, σ.armed i = some a ∧ a.deadline ≤ now)
      (horder : due.Pairwise fun i j => ∀ a b, σ.armed i = some a → σ.armed j = some b →
        a.deadline ≤ b.deadline)
      (hcbs : cbs = due.map fun i => (σ.armed i).bind Alarm.cb) :
      Step σ ⟨now, .listExpiredCb probe, .fired due cbs⟩
        { σ with armed := fun i => (σ.armed i).bind (Alarm.after now) }

/-! ## One timer in a run of alarms -/

/-- Only created timers are armed. -/
def Wf (σ : Alarms β) : Prop := ∀ i, σ.created ≤ i → σ.armed i = .none

theorem Wf.lt (wf : σ.Wf) (h : σ.armed i = some a) : i < σ.created := by
  by_contra hle
  rw [wf i (not_lt.mp hle)] at h
  cases h

theorem Step.wf (h : Step σ e σ') (wf : σ.Wf) : σ'.Wf ∧ σ.created ≤ σ'.created := by
  cases h with
  | addTimer =>
    refine ⟨fun i hi => ?_, Nat.le_succ _⟩
    have hne : i ≠ σ.created := by
      rintro rfl
      exact Nat.not_succ_le_self _ hi
    exact (Function.update_of_ne hne ..).trans (wf i (Nat.le_of_succ_le hi))
  | cancel now i a ha hcb =>
    refine ⟨fun j hj => ?_, Nat.le_refl _⟩
    simp only [Function.update_apply]
    split_ifs
    · rfl
    · exact wf j hj
  | cancelFails => exact ⟨wf, Nat.le_refl _⟩
  | expire =>
    refine ⟨fun i hi => ?_, Nat.le_refl _⟩
    simp only [wf i hi, Option.bind_none]

theorem wf_of_traces (h : Traces Step σ trace σ') (wf : σ.Wf) :
    σ'.Wf ∧ σ.created ≤ σ'.created := by
  induction h with
  | nil => exact ⟨wf, Nat.le_refl _⟩
  | cons hstep _ ih =>
    obtain ⟨wf₁, hle⟩ := hstep.wf wf
    obtain ⟨wf', hle'⟩ := ih wf₁
    exact ⟨wf', hle.trans hle'⟩

/-- Only an armed timer is delivered. -/
theorem Step.armed_of_delivers (h : Step σ e σ') (hd : e.Delivers i) :
    ∃ a, σ.armed i = some a := by
  cases h with
  | addTimer | cancel | cancelFails => cases hd
  | expire now probe due cbs _ hdue =>
    obtain ⟨a, ha, -⟩ := (hdue i).mp hd
    exact ⟨a, ha⟩

/-- A timer that is not armed any more stays so. -/
theorem Step.dead (h : Step σ e σ') (hi : i < σ.created) (hn : σ.armed i = .none) :
    σ'.armed i = .none := by
  cases h with
  | addTimer => exact (Function.update_of_ne hi.ne ..).trans hn
  | cancel now j a ha hcb =>
    simp only [Function.update_apply]
    split_ifs
    · rfl
    · exact hn
  | cancelFails => exact hn
  | expire => simp only [hn, Option.bind_none]

/-- A timer that is not armed any more is never delivered. -/
theorem dead (h : Traces Step σ trace σ') (wf : σ.Wf) (hi : i < σ.created)
    (hn : σ.armed i = .none) : ∀ e ∈ trace, ¬ e.Delivers i := by
  induction h with
  | nil => simp
  | cons hstep _ ih =>
    intro e he hd
    rcases List.mem_cons.mp he with rfl | he
    · obtain ⟨a, ha⟩ := hstep.armed_of_delivers hd
      rw [hn] at ha
      cases ha
    · obtain ⟨wf₁, hle⟩ := hstep.wf wf
      exact ih wf₁ (hi.trans_le hle) (hstep.dead hi hn) e he hd

/-- A timer is not delivered before it is created. -/
theorem unborn (h : Traces Step σ trace σ') (wf : σ.Wf) (hi : σ'.created ≤ i) :
    ∀ e ∈ trace, ¬ e.Delivers i := by
  induction h with
  | nil => simp
  | cons hstep hrest ih =>
    intro e he hd
    obtain ⟨wf₁, hle⟩ := hstep.wf wf
    rcases List.mem_cons.mp he with rfl | he
    · obtain ⟨a, ha⟩ := hstep.armed_of_delivers hd
      have hlt := wf.lt ha
      have hle' := (wf_of_traces hrest wf₁).2
      omega
    · exact ih wf₁ hi e he hd

/-- What one call does to an armed timer: a successful `cancel` or an expiry that is due ends this
arming; every other call leaves the timer as it is and does not deliver it. -/
theorem Step.armed (h : Step σ e σ') (wf : σ.Wf) (ha : σ.armed i = some a) :
    (σ'.armed i = some a ∧ ¬ e.Delivers i) ∨
    (σ'.armed i = .none ∧ ¬ e.Delivers i ∧ ∃ now, e = ⟨now, .cancel i, .flag true⟩) ∨
    (σ'.armed i = Alarm.after e.now a ∧ e.Delivers i ∧ a.deadline ≤ e.now ∧
      ∃ probe, e.call = .listExpiredCb probe) := by
  cases h with
  | addTimer => exact .inl ⟨(Function.update_of_ne (wf.lt ha).ne ..).trans ha, id⟩
  | cancel now j b hb hcb =>
    rcases eq_or_ne i j with rfl | hne
    · exact .inr (.inl ⟨Function.update_self .., id, now, rfl⟩)
    · exact .inl ⟨(Function.update_of_ne hne ..).trans ha, id⟩
  | cancelFails => exact .inl ⟨ha, id⟩
  | expire now probe due cbs _ hdue =>
    by_cases hle : a.deadline ≤ now
    · exact .inr (.inr ⟨by simp only [ha, Option.bind_some], (hdue i).mpr ⟨a, ha, hle⟩, hle,
        probe, rfl⟩)
    · refine .inl ⟨by simp only [ha, Option.bind_some, Alarm.after, if_neg hle], fun hd => hle ?_⟩
      obtain ⟨b, hb, hle'⟩ := (hdue i).mp hd
      rw [ha] at hb
      rwa [Option.some.inj hb]

/-- **A one-shot timer is delivered at most once.** -/
theorem oneShot (h : Traces Step σ trace σ') (wf : σ.Wf) (ha : σ.armed i = some a)
    (hr : a.recurring = false) : (trace.filter fun e => e.Delivers i).length ≤ 1 := by
  induction h with
  | nil => simp
  | @cons σ σ₁ σ' e es hstep hrest ih =>
    obtain ⟨wf₁, hle⟩ := hstep.wf wf
    have hlt := (wf.lt ha).trans_le hle
    have hdead : σ₁.armed i = .none → (es.filter fun e => e.Delivers i).length = 0 := by
      intro hn
      rw [List.length_eq_zero_iff, List.filter_eq_nil_iff]
      exact fun e he => by simpa using dead hrest wf₁ hlt hn e he
    rcases hstep.armed wf ha with ⟨ha', hd⟩ | ⟨hn, hd, -⟩ | ⟨hafter, hd, hle, -⟩
    · rw [List.filter_cons_of_neg (by simpa using hd)]
      exact ih wf₁ ha'
    · rw [List.filter_cons_of_neg (by simpa using hd), hdead hn]
      exact Nat.zero_le 1
    · rw [Alarm.after, if_pos hle, if_neg (by simp [hr])] at hafter
      rw [List.filter_cons_of_pos (by simpa using hd), List.length_cons, hdead hafter]

/-- Until it is cancelled or due, an armed timer stays as it is. -/
theorem stays (h : Traces Step σ trace σ') (wf : σ.Wf) (ha : σ.armed i = some a)
    (hcancel : ∀ e ∈ trace, ∀ now, e ≠ ⟨now, .cancel i, .flag true⟩)
    (hdue : ∀ e ∈ trace, ∀ probe, e.call = .listExpiredCb probe → e.now < a.deadline) :
    σ'.armed i = some a := by
  induction h with
  | nil => exact ha
  | cons hstep hrest ih =>
    obtain ⟨wf₁, -⟩ := hstep.wf wf
    rcases hstep.armed wf ha with ⟨ha', -⟩ | ⟨-, -, now, heq⟩ | ⟨-, -, hle, probe, hcall⟩
    · exact ih wf₁ ha' (fun e he => hcancel e (by simp [he])) fun e he => hdue e (by simp [he])
    · exact absurd heq (hcancel _ (by simp) now)
    · exact absurd (hdue _ (by simp) probe hcall) (not_lt.mpr hle)

/-! ## Whole runs of alarms -/

theorem fired_nodup (h : Traces Step σ trace σ') :
    ∀ e ∈ trace, ∀ expired cbs, e.answer = .fired expired cbs → expired.Nodup := by
  induction h with
  | nil => simp
  | cons hstep _ ih =>
    intro e he expired cbs heq
    rcases List.mem_cons.mp he with rfl | he
    · cases hstep <;> cases heq
      assumption
    · exact ih e he expired cbs heq

/-- A run cut at an `addTimer`: before it the timer is never delivered, behind it it is armed. -/
theorem cut_addTimer {pre post : List (Event β)} {now ms addr : ℕ} {cb : Option β}
    {recurring : Bool} (wf : σ.Wf)
    (h : Traces Step σ (pre ++ ⟨now, .addTimer ms cb recurring addr, .handle i⟩ :: post) σ') :
    (∀ e ∈ pre, ¬ e.Delivers i) ∧ ∃ σ₁, σ₁.Wf ∧ Traces Step σ₁ post σ' ∧
      σ₁.armed i = some ⟨now + ms, ms, recurring, cb⟩ := by
  obtain ⟨σ₀, hpre, hrest⟩ := Traces.append_iff.mp h
  have wf₀ := (wf_of_traces hpre wf).1
  obtain _ | ⟨hadd, hpost⟩ := hrest
  have wf₁ := (hadd.wf wf₀).1
  cases hadd with
  | addTimer =>
    refine ⟨unborn hpre wf (Nat.le_refl _), _, wf₁, hpost, ?_⟩
    exact Function.update_self ..

theorem oneShot_of_trace (h : Traces Step σ trace σ') (wf : σ.Wf) :
    ∀ pre post now ms cb addr i,
      trace = pre ++ ⟨now, .addTimer ms cb false addr, .handle i⟩ :: post →
        (trace.filter fun e => e.Delivers i).length ≤ 1 := by
  rintro pre post now ms cb addr i rfl
  obtain ⟨hpre, σ₁, wf₁, hpost, ha⟩ := cut_addTimer wf h
  have hnil : pre.filter (fun e => e.Delivers i) = [] :=
    List.filter_eq_nil_iff.mpr fun e he => by simpa using hpre e he
  have hnot : ¬ (⟨now, .addTimer ms cb false addr, .handle i⟩ : Event β).Delivers i := id
  rw [List.filter_append, hnil, List.nil_append, List.filter_cons_of_neg (by simpa using hnot)]
  exact oneShot hpost wf₁ ha rfl

theorem delivered_of_trace (h : Traces Step σ trace σ') (wf : σ.Wf) :
    ∀ pre mid post t ms cb recurring addr i now probe expired cbs,
      trace = pre ++ ⟨t, .addTimer ms cb recurring addr, .handle i⟩ ::
          (mid ++ ⟨now, .listExpiredCb probe, .fired expired cbs⟩ :: post) →
        t + ms ≤ now →
        (∀ e ∈ mid, ∀ t', e ≠ ⟨t', .cancel i, .flag true⟩) →
        (∀ e ∈ mid, ∀ probe', e.call = .listExpiredCb probe' → e.now < t + ms) →
        (i, cb) ∈ expired.zip cbs := by
  rintro pre mid post t ms cb recurring addr i now probe expired cbs rfl hle hcancel hdue
  obtain ⟨-, σ₁, wf₁, hrest, ha⟩ := cut_addTimer wf h
  obtain ⟨σ₂, hmid, hexpire⟩ := Traces.append_iff.mp hrest
  have ha₂ := stays hmid wf₁ ha hcancel hdue
  obtain _ | ⟨hstep, -⟩ := hexpire
  cases hstep with
  | expire now probe due cbs hnodup hmem horder hcbs =>
    have hi : i ∈ expired := (hmem i).mpr ⟨_, ha₂, hle⟩
    have hcb : (σ₂.armed i).bind Alarm.cb = cb := by rw [ha₂]; rfl
    rw [hcbs, ← List.map_prod_left_eq_zip, ← hcb]
    exact List.mem_map_of_mem hi

theorem cancelled_of_trace (h : Traces Step σ trace σ') (wf : σ.Wf) :
    ∀ pre post now i, trace = pre ++ ⟨now, .cancel i, .flag true⟩ :: post →
      ∀ e ∈ post, ¬ e.Delivers i := by
  rintro pre post now i rfl
  obtain ⟨σ₀, hpre, hrest⟩ := Traces.append_iff.mp h
  have wf₀ := (wf_of_traces hpre wf).1
  obtain _ | ⟨hcancel, hpost⟩ := hrest
  cases hcancel with
  | cancel now i a ha hcb =>
    exact dead hpost (Step.wf (.cancel σ₀ now i a ha hcb) wf₀).1 (wf₀.lt ha)
      (Function.update_self ..)

end Alarms

variable {β : Type} {m m' : TimerManager β} {σ : Alarms β} {e : Event β}

/-! ## The timer manager -/

/-- The calls the alarms know, without wraparound. -/
def Admissible (m : TimerManager β) (now : ℕ) : Call β → Prop
  | .addTimer ms _ _ _ => now + ms < 2 ^ 64
  | .cancel _ => True
  | .listExpiredCb _ => ∀ i ∈ m.timers, now + (m.heap i).ms < 2 ^ 64
  | .refresh _ | .reset .. | .getNextTimer => False

/-- A call of the timer manager, at a clock reading that is not before the last one. -/
structure Run (c : ℕ × TimerManager β) (e : Event β) (c' : ℕ × TimerManager β) : Prop where
  clock : c.1 ≤ e.now ∧ c'.1 = e.now
  admissible : c.2.Admissible e.now e.call
  exec : c.2.exec e.now e.call = some (e.answer, c'.2)

/-- The timer manager has the armed timers of the alarms, and its clock never went back. -/
structure Keeps (c : ℕ × TimerManager β) (σ : Alarms β) : Prop where
  wf : c.2.Wf
  clock : c.2.previouseTime ≤ c.1
  created : σ.created = c.2.created
  member : ∀ i, i ∈ c.2.timers ↔ (σ.armed i).isSome
  timer : ∀ i a, σ.armed i = some a → (c.2.heap i).next = a.deadline ∧ (c.2.heap i).ms = a.ms ∧
    (c.2.heap i).recurring = a.recurring ∧ (c.2.heap i).cb = a.cb

theorem Keeps.new (t₀ : ℕ) : Keeps (t₀, (new t₀ : TimerManager β)) Alarms.none where
  wf := Wf.new t₀
  clock := Nat.le_refl _
  created := rfl
  member := by simp [TimerManager.new, Alarms.none]
  timer := fun i a h => by cases h

theorem u64_of_lt {n : ℕ} (h : n < 2 ^ 64) : u64 n = n := Nat.mod_eq_of_lt h

theorem not_rollover {now : ℕ} (h : m.previouseTime ≤ now) : m.rollover now = false := by
  simp only [rollover, Bool.and_eq_false_imp, decide_eq_true_eq]
  omega

@[simp] theorem previouseTime_fireOne (now : ℕ) (m : TimerManager β) (i : ℕ) :
    (m.fireOne now i).previouseTime = m.previouseTime := by
  unfold fireOne
  split_ifs <;> rfl

@[simp] theorem previouseTime_fire (now : ℕ) (es : List ℕ) (m : TimerManager β) :
    (fire now es m).2.previouseTime = m.previouseTime := by
  induction es generalizing m with
  | nil => rfl
  | cons i es ih => rw [fire, ih, previouseTime_fireOne]

/-- Only `listExpiredCb` notes the clock. -/
theorem previouseTime_exec {now : ℕ} {c : Call β} {a : Answer β}
    (h : m.exec now c = some (a, m')) (ha : m.Admissible now c) :
    m'.previouseTime = m.previouseTime ∨ m'.previouseTime = now := by
  cases c with
  | refresh | reset | getNextTimer => exact ha.elim
  | addTimer ms cb recurring addr =>
    obtain ⟨r, hr, heq⟩ := Option.map_eq_some_iff.mp h
    obtain ⟨-, rfl⟩ := Prod.mk.inj heq
    unfold TimerManager.addTimer at hr
    split_ifs at hr
    obtain rfl := Option.some.inj hr
    simp only [TimerManager.addTimerPtr]
    split_ifs <;> exact .inl rfl
  | cancel i =>
    simp only [TimerManager.exec] at h
    split_ifs at h
    obtain ⟨r, hr, heq⟩ := Option.map_eq_some_iff.mp h
    obtain ⟨-, rfl⟩ := Prod.mk.inj heq
    simp only [TimerManager.cancel] at hr
    split_ifs at hr
    all_goals
      obtain rfl := Option.some.inj hr
      exact .inl rfl
  | listExpiredCb probe =>
    obtain ⟨r, hr, heq⟩ := Option.map_eq_some_iff.mp h
    obtain ⟨-, rfl⟩ := Prod.mk.inj heq
    simp only [TimerManager.listExpiredCb, expire] at hr
    split_ifs at hr with hempty hroll
    · obtain rfl := Option.some.inj hr
      exact .inl rfl
    · obtain rfl := Option.some.inj hr
      exact .inr (previouseTime_fire ..)
    · split at hr
      · cases hr
      · split_ifs at hr
        all_goals obtain rfl := Option.some.inj hr
        · exact .inr rfl
        · exact .inr (previouseTime_fire ..)

/-- The timers that are due are the alarms that are due, in order of deadline. -/
theorem Keeps.due {c : ℕ × TimerManager β} (h : Keeps c σ) {now : ℕ} (hnow : c.1 ≤ now) :
    (c.2.due now).Nodup ∧
    (∀ i, i ∈ c.2.due now ↔ ∃ a, σ.armed i = some a ∧ a.deadline ≤ now) ∧
    (c.2.due now).Pairwise (fun i j => ∀ a b, σ.armed i = some a → σ.armed j = some b →
      a.deadline ≤ b.deadline) ∧
    (c.2.due now).map (fun i => (c.2.heap i).cb) =
      (c.2.due now).map fun i => (σ.armed i).bind Alarm.cb := by
  have hdue : c.2.due now = c.2.timers.filter fun i => decide ((c.2.heap i).next ≤ now) := by
    rw [TimerManager.due, not_rollover (h.clock.trans hnow), if_neg (by simp)]
  have hmem : ∀ i, i ∈ c.2.due now ↔ ∃ a, σ.armed i = some a ∧ a.deadline ≤ now := by
    intro i
    rw [hdue, List.mem_filter, h.member, decide_eq_true_eq]
    constructor
    · rintro ⟨hi, hle⟩
      obtain ⟨a, ha⟩ := Option.isSome_iff_exists.mp hi
      exact ⟨a, ha, by rwa [← (h.timer i a ha).1]⟩
    · rintro ⟨a, ha, hle⟩
      exact ⟨by simp [ha], by rwa [(h.timer i a ha).1]⟩
  refine ⟨h.wf.nodup.sublist (due_sublist ..), hmem, ?_, List.map_congr_left fun i hi => ?_⟩
  · refine (h.wf.sorted.sublist (due_sublist ..)).imp fun {i j} hlt a b ha hb => ?_
    rw [less_iff, (h.timer i a ha).1, (h.timer j b hb).1] at hlt
    omega
  · obtain ⟨a, ha, -⟩ := (hmem i).mp hi
    rw [ha, (h.timer i a ha).2.2.2]
    rfl

theorem Keeps.addTimer {c c' : ℕ × TimerManager β} (h : Keeps c σ) {now ms addr : ℕ}
    {cb : Option β} {recurring : Bool} {a : Answer β} (hlt : now + ms < 2 ^ 64)
    (hclock : c'.2.previouseTime ≤ c'.1)
    (hexec : c.2.exec now (.addTimer ms cb recurring addr) = some (a, c'.2)) :
    ∃ σ', Alarms.Step σ ⟨now, .addTimer ms cb recurring addr, a⟩ σ' ∧ Keeps c' σ' := by
  obtain ⟨r, hr, heq⟩ := Option.map_eq_some_iff.mp hexec
  obtain ⟨rfl, hc'⟩ := Prod.mk.inj heq
  have wf' := h.wf.addTimer hr
  obtain ⟨hi, hl⟩ := addTimer_spec h.wf hr
  rw [hc'] at wf' hl
  rw [hi, ← h.created]
  refine ⟨_, .addTimer σ now ms cb recurring addr, wf', hclock, ?_, fun j => ?_, fun j b hb => ?_⟩
  · rw [hl.created, h.created]
  · rw [hl.mem, h.member, ← h.created]
    simp only [Function.update_apply]
    split_ifs with hj <;> simp [hj]
  · rw [hl.heap, ← h.created]
    simp only [Function.update_apply] at hb
    split_ifs at hb ⊢ with hj
    · obtain rfl := Option.some.inj hb
      exact ⟨u64_of_lt hlt, rfl, rfl, rfl⟩
    · exact h.timer j b hb

theorem Keeps.cancel {c c' : ℕ × TimerManager β} (h : Keeps c σ) {now i : ℕ} {a : Answer β}
    (hclock : c'.2.previouseTime ≤ c'.1) (hexec : c.2.exec now (.cancel i) = some (a, c'.2)) :
    ∃ σ', Alarms.Step σ ⟨now, .cancel i, a⟩ σ' ∧ Keeps c' σ' := by
  simp only [TimerManager.exec] at hexec
  split_ifs at hexec
  obtain ⟨r, hr, heq⟩ := Option.map_eq_some_iff.mp hexec
  obtain ⟨rfl, hc'⟩ := Prod.mk.inj heq
  cases hcb : (c.2.heap i).cb with
  | none =>
    rw [cancel_empty hcb] at hr
    obtain rfl := Option.some.inj hr
    refine ⟨σ, .cancelFails σ now i fun b hb => ?_, ?_⟩
    · rw [← (h.timer i b hb).2.2.2, hcb]
    · simp only at hc'
      exact ⟨by rw [← hc']; exact h.wf, hclock, by rw [← hc']; exact h.created,
        by rw [← hc']; exact h.member, by rw [← hc']; exact h.timer⟩
  | some cb =>
    have hsome : (c.2.heap i).cb.isSome := by simp [hcb]
    obtain ⟨b, hb⟩ := Option.isSome_iff_exists.mp ((h.member i).mp (h.wf.armed i hsome))
    have wf' := h.wf.cancel hr
    obtain ⟨m', hm', hl⟩ := cancel_spec h.wf hsome
    obtain rfl := Option.some.inj (hm'.symm.trans hr)
    change m' = c'.2 at hc'
    subst hc'
    refine ⟨_, .cancel σ now i b hb (by rw [← (h.timer i b hb).2.2.2]; exact hsome), wf', hclock,
      ?_, fun j => ?_, fun j d hd => ?_⟩
    · rw [hl.created, h.created]
    · rw [hl.mem, h.member]
      simp only [Function.update_apply]
      split_ifs with hj <;> simp [hj]
    · simp only [Function.update_apply] at hd
      split_ifs at hd with hj
      rw [hl.heap, if_neg hj]
      exact h.timer j d hd

theorem Keeps.expire {c c' : ℕ × TimerManager β} (h : Keeps c σ) {now probe : ℕ} {a : Answer β}
    (hnow : c.1 ≤ now) (hlt : ∀ i ∈ c.2.timers, now + (c.2.heap i).ms < 2 ^ 64)
    (hclock : c'.2.previouseTime ≤ c'.1)
    (hexec : c.2.exec now (.listExpiredCb probe) = some (a, c'.2)) :
    ∃ σ', Alarms.Step σ ⟨now, .listExpiredCb probe, a⟩ σ' ∧ Keeps c' σ' := by
  obtain ⟨r, hr, heq⟩ := Option.map_eq_some_iff.mp hexec
  obtain ⟨rfl, hc'⟩ := Prod.mk.inj heq
  have wf' := h.wf.listExpiredCb hr
  obtain ⟨m', hm', hl⟩ := listExpiredCb_spec h.wf.toOrdered now probe
  obtain rfl := Option.some.inj (hm'.symm.trans hr)
  change m' = c'.2 at hc'
  subst hc'
  obtain ⟨hnodup, hmem, horder, hcbs⟩ := h.due hnow
  refine ⟨_, .expire σ now probe _ _ hnodup hmem horder hcbs, wf', hclock, ?_, fun j => ?_,
    fun j d hd => ?_⟩
  · rw [hl.created, h.created]
  · rw [hl.mem, h.member, hmem]
    change _ ↔ ((σ.armed j).bind (Alarm.after now)).isSome = true
    cases hj : σ.armed j with
    | none => simp
    | some b =>
      obtain ⟨-, -, hrec, -⟩ := h.timer j b hj
      rw [Option.bind_some, Alarm.after, hrec]
      split_ifs with hle hr <;> simp [hle, hr]
  · obtain ⟨b, hb, hafter⟩ := Option.bind_eq_some_iff.mp hd
    obtain ⟨hnext, hms, hrec, hcb⟩ := h.timer j b hb
    have hbound := hlt j ((h.member j).mpr (by simp [hb]))
    rw [hms] at hbound
    rw [hl.heap]
    unfold Alarm.after at hafter
    split_ifs at hafter with hle hr
    · obtain rfl := Option.some.inj hafter
      rw [if_pos ((hmem j).mpr ⟨b, hb, hle⟩), firedTimer, if_pos (by rw [hrec, hr])]
      exact ⟨by rw [hms]; exact u64_of_lt hbound, hms, hrec, hcb⟩
    · obtain rfl := Option.some.inj hafter
      have hnot : j ∉ c.2.due now := by
        rw [hmem]
        rintro ⟨d, hd', hle'⟩
        rw [hb] at hd'
        obtain rfl := Option.some.inj hd'
        exact hle hle'
      rw [if_neg hnot]
      exact ⟨hnext, hms, hrec, hcb⟩

/-- **Every call is a step of alarms**, with the same answer. -/
theorem run_refines (c : ℕ × TimerManager β) (σ : Alarms β) (e : Event β)
    (c' : ℕ × TimerManager β) (h : Keeps c σ) (hrun : Run c e c') :
    ∃ σ', Alarms.Step σ e σ' ∧ Keeps c' σ' := by
  obtain ⟨now, call, answer⟩ := e
  obtain ⟨⟨hnow, hc'⟩, hadm, hexec⟩ := hrun
  have hclock : c'.2.previouseTime ≤ c'.1 := by
    have hp := h.clock
    rcases previouseTime_exec hexec hadm with hprev | hprev <;> simp only at * <;> omega
  cases call with
  | refresh | reset | getNextTimer => exact hadm.elim
  | addTimer ms cb recurring addr => exact h.addTimer hadm hclock hexec
  | cancel i => exact h.cancel hclock hexec
  | listExpiredCb probe => exact h.expire hnow hadm hclock hexec

/-- **Timer delivery is exact**: every run of `addTimer`, `cancel` and `listExpiredCb` from a new
timer manager is a run of alarms, so each `listExpiredCb` delivers exactly the armed timers whose
deadline is reached, in order of deadline, and puts the recurring ones back at `now + ms`. Hence
each call delivers a timer at most once; a one-shot timer is delivered at most once in the whole
run; a timer is delivered by the first call at or after its deadline unless it is cancelled
before; and a timer is not delivered after a `cancel` that returned true. -/
theorem delivery_exact {t₀ : ℕ} {trace : List (Event β)} {c : ℕ × TimerManager β}
    (hrun : Traces Run (t₀, new t₀) trace c) :
    (∃ σ, Traces Alarms.Step Alarms.none trace σ ∧ Keeps c σ) ∧
    (∀ e ∈ trace, ∀ expired cbs, e.answer = .fired expired cbs → expired.Nodup) ∧
    (∀ pre post now ms cb addr i,
      trace = pre ++ ⟨now, .addTimer ms cb false addr, .handle i⟩ :: post →
        (trace.filter fun e => e.Delivers i).length ≤ 1) ∧
    (∀ pre mid post t ms cb recurring addr i now probe expired cbs,
      trace = pre ++ ⟨t, .addTimer ms cb recurring addr, .handle i⟩ ::
          (mid ++ ⟨now, .listExpiredCb probe, .fired expired cbs⟩ :: post) →
        t + ms ≤ now →
        (∀ e ∈ mid, ∀ t', e ≠ ⟨t', .cancel i, .flag true⟩) →
        (∀ e ∈ mid, ∀ probe', e.call = .listExpiredCb probe' → e.now < t + ms) →
        (i, cb) ∈ expired.zip cbs) ∧
    (∀ pre post now i, trace = pre ++ ⟨now, .cancel i, .flag true⟩ :: post →
      ∀ e ∈ post, ¬ e.Delivers i) := by
  obtain ⟨σ, hσ, hk⟩ := hrun.simulate run_refines (Keeps.new t₀)
  have wf₀ : (Alarms.none : Alarms β).Wf := fun _ _ => rfl
  exact ⟨⟨σ, hσ, hk⟩, Alarms.fired_nodup hσ, Alarms.oneShot_of_trace hσ wf₀,
    Alarms.delivered_of_trace hσ wf₀, Alarms.cancelled_of_trace hσ wf₀⟩

/-- A one-shot and a recurring timer with the same deadline, both delivered at it. -/
theorem delivery_exact_two : ∃ (c : ℕ × TimerManager Unit) (trace : List (Event Unit)),
    trace = [⟨0, .addTimer 5 (some ()) false 16, .handle 0⟩,
      ⟨0, .addTimer 5 (some ()) true 32, .handle 1⟩,
      ⟨5, .listExpiredCb 24, .fired [0, 1] [some (), some ()]⟩] ∧
    Traces Run (0, new 0) trace c ∧ c.2.timers = [1] ∧
    (trace.filter fun e => e.Delivers 0).length ≤ 1 := by
  have hrun : ∃ c : ℕ × TimerManager Unit, Traces Run (0, new 0)
      [⟨0, .addTimer 5 (some ()) false 16, .handle 0⟩,
        ⟨0, .addTimer 5 (some ()) true 32, .handle 1⟩,
        ⟨5, .listExpiredCb 24, .fired [0, 1] [some (), some ()]⟩] c ∧ c.2.timers = [1] := by
    refine ⟨(5, _), .cons (t := (0, _)) ⟨by decide, ?_, rfl⟩ (.cons (t := (0, _))
      ⟨by decide, ?_, rfl⟩ (.cons ⟨by decide, ?_, rfl⟩ (.nil _))), rfl⟩
    · show 0 + 5 < 2 ^ 64
      decide
    · show 0 + 5 < 2 ^ 64
      decide
    · show ∀ i ∈ [0, 1], _
      decide
  obtain ⟨c, hrun, hc⟩ := hrun
  exact ⟨c, _, rfl, hrun, hc, (delivery_exact hrun).2.2.1 [] _ 0 5 (some ()) 16 0 rfl⟩

end TimerManager

end Sylar

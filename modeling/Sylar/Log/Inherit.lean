import Mathlib.Tactic.SplitIfs
import Sylar.Foundation.Transition
import Sylar.Log.Model

/-!
# Appenders that follow their logger

An appender without a formatter of its own has a copy of the pointer of its logger. The copy is made
when the appender is added, if it has no formatter at all, and again when the formatter of the
logger is set, for the appenders that are in its list then. An appender that is taken out keeps its
copy and is not given another one when it is added again; one that is reset while it is in the list
has none, and `log` follows its null pointer.

## Main definitions

* `System`, `Op`, `step`: a logger and its appenders, with a history of the formatters of their own
* `Follows`: each appender of the list has its own formatter, or that of the logger
* `Careful`: the calls that keep this

## Main results

* `heap_setFormatterPtr`: which appenders are given the formatter
* `follows_step_iff`: a call keeps `Follows` exactly if it is careful
* `follows_iff`: so do sequences of calls
-/

namespace Sylar

namespace Log

open Foundation

/-! ## Writing -/

/-- `LogAppender::log`: the formatter that is used, if the level is high enough. A null pointer
leads nowhere. -/
def LogAppender.log (ap : LogAppender) (level : Level) : Option (Option LogFormatter) :=
  if level.val < ap.level.val then some none else ap.formatter.map some

/-- `Logger::log`, for a logger with appenders. -/
def Logger.log (l : Logger) (heap : Heap) (level : Level) : Option (List (Option LogFormatter)) :=
  if level.val < l.level.val then some [] else l.appenders.mapM fun p => (heap p).log level

namespace Inherit

/-! ## Calls -/

/-- A logger and its appenders. What the last `LogAppender::setFormatter` of each appender was
called with is a history variable; it is null in front of the first one. -/
structure System where
  logger : Logger
  heap : Heap
  own : ℕ → Option LogFormatter

/-- A call. -/
inductive Op
  | addAppender (p : ℕ)
  | delAppender (p : ℕ)
  /-- `Logger::setFormatter(LogFormatter::ptr)`. -/
  | setFormatterPtr (val : Option LogFormatter)
  /-- `Logger::setFormatter(const std::string&)`. -/
  | setFormatter (val : List UInt8)
  /-- `LogAppender::setFormatter`. -/
  | appenderFormatter (p : ℕ) (val : Option LogFormatter)
  deriving DecidableEq

def step (s : System) : Op → System
  | .addAppender p =>
    let r := s.logger.addAppender s.heap p
    { s with logger := r.1, heap := r.2 }
  | .delAppender p => { s with logger := s.logger.delAppender p }
  | .setFormatterPtr val =>
    let r := s.logger.setFormatterPtr s.heap val
    { s with logger := r.1, heap := r.2 }
  | .setFormatter val =>
    let r := s.logger.setFormatter s.heap val
    { s with logger := r.1, heap := r.2 }
  | .appenderFormatter p val =>
    { s with
      heap := Function.update s.heap p ((s.heap p).setFormatter val)
      own := Function.update s.own p val }

def machine : Machine System Op where
  step s op := some (step s op)

/-- A new logger, and appenders that are new too. -/
structure IsNew (s : System) : Prop where
  logger : s.logger = {}
  heap : ∀ p, (s.heap p).hasFormatter = false ∧ (s.heap p).formatter = none
  own : ∀ p, s.own p = none

/-- **Each appender of the list** has a formatter: its own, or else that of the logger. -/
def Follows (s : System) : Prop :=
  ∀ p ∈ s.logger.appenders, (s.heap p).formatter ≠ none ∧
    (s.heap p).formatter = if s.own p = none then s.logger.formatter else s.own p

/-- The flag and the pointer of an appender agree with the history. -/
def Tracks (s : System) : Prop :=
  ∀ p, (s.heap p).hasFormatter = (s.own p).isSome ∧
    ∀ f, s.own p = some f → (s.heap p).formatter = some f

/-- **The calls that keep this**: an appender without a formatter of its own is added when the
logger has a formatter, and has none or that one; the formatter of the logger is not set to null
while such an appender is in the list; and no appender of the list is reset. -/
def Careful (s : System) : Op → Prop
  | .addAppender p =>
    (s.heap p).hasFormatter = false →
      s.logger.formatter ≠ none ∧
        ((s.heap p).formatter = none ∨ (s.heap p).formatter = s.logger.formatter)
  | .setFormatterPtr none => ∀ p ∈ s.logger.appenders, (s.heap p).hasFormatter = true
  | .appenderFormatter p none => p ∉ s.logger.appenders
  | _ => True

/-! ## One call -/

section Step

variable {s : System} {p q : ℕ}

/-- What the loop over the appenders gives to each. -/
theorem heap_setFormatterPtr (l : Logger) (heap : Heap) (val : Option LogFormatter) (p : ℕ) :
    (l.setFormatterPtr heap val).2 p =
      if p ∈ l.appenders ∧ (heap p).hasFormatter = false then (heap p).follow val else heap p := by
  rw [Logger.setFormatterPtr]
  simp only
  generalize l.appenders = ps
  induction ps generalizing heap with
  | nil => rw [if_neg fun h => absurd h.1 List.not_mem_nil, List.foldl_nil]
  | cons q ps ih =>
    rw [List.foldl_cons, ih]
    by_cases hq : (heap q).hasFormatter = true
    · rw [if_pos hq]
      by_cases hpq : p = q
      · subst hpq
        rw [if_neg (by simp [hq]), if_neg (by simp [hq])]
      · simp only [List.mem_cons, hpq, false_or]
    · rw [if_neg hq]
      by_cases hpq : p = q
      · subst hpq
        have hflag : ((heap p).follow val).hasFormatter = (heap p).hasFormatter := rfl
        rw [Function.update_self, hflag]
        have hmem : p ∈ p :: ps ∧ (heap p).hasFormatter = false :=
          ⟨List.mem_cons_self .., Bool.not_eq_true _ ▸ hq⟩
        rw [if_pos hmem]
        split_ifs
        · rfl
        · rfl
      · rw [Function.update_of_ne hpq]
        simp only [List.mem_cons, hpq, false_or]

theorem hasFormatter_setFormatterPtr (l : Logger) (heap : Heap) (val : Option LogFormatter) :
    ((l.setFormatterPtr heap val).2 p).hasFormatter = (heap p).hasFormatter := by
  rw [heap_setFormatterPtr]
  split_ifs
  · rfl
  · rfl

theorem Tracks.hasFormatter_eq_false_iff (h : Tracks s) :
    (s.heap p).hasFormatter = false ↔ s.own p = none := by
  rw [(h p).1, Option.isSome_eq_false_iff, Option.isNone_iff_eq_none]

theorem tracks_setFormatterPtr (h : Tracks s) (val : Option LogFormatter) :
    Tracks (step s (.setFormatterPtr val)) := by
  intro p
  refine ⟨?_, fun f hf => ?_⟩
  · exact (hasFormatter_setFormatterPtr ..).trans (h p).1
  · change ((s.logger.setFormatterPtr s.heap val).2 p).formatter = some f
    have hown : ¬ (p ∈ s.logger.appenders ∧ (s.heap p).hasFormatter = false) := fun hflag => by
      have hnone := h.hasFormatter_eq_false_iff.mp hflag.2
      rw [show s.own p = some f from hf] at hnone
      cases hnone
    rw [heap_setFormatterPtr, if_neg hown]
    exact (h p).2 f hf

/-- A call of `setFormatter` with a pattern does nothing, or is one with a pointer. -/
theorem step_setFormatter (s : System) (val : List UInt8) :
    step s (.setFormatter val) = s ∨
      step s (.setFormatter val) = step s (.setFormatterPtr (some ⟨val⟩)) := by
  by_cases herror : (⟨val⟩ : LogFormatter).isError = true
  · left
    simp only [step, Logger.setFormatter, if_pos herror]
  · right
    simp only [step, Logger.setFormatter, if_neg herror]

/-- **The history** is tracked by every call. -/
theorem tracks_step (h : Tracks s) (op : Op) : Tracks (step s op) := by
  cases op with
  | addAppender p =>
    intro q
    have hq := h q
    simp only [step, Logger.addAppender]
    split_ifs with hnone
    · by_cases hqp : q = p
      · subst hqp
        rw [Function.update_self]
        refine ⟨hq.1, fun f hf => ?_⟩
        rw [hq.2 f hf] at hnone
        cases hnone
      · rw [Function.update_of_ne hqp]
        exact hq
    · exact hq
  | delAppender p => exact h
  | setFormatterPtr val => exact tracks_setFormatterPtr h val
  | setFormatter val =>
    -- a pattern with an error changes nothing
    rcases step_setFormatter s val with heq | heq
    · rw [heq]
      exact h
    · rw [heq]
      exact tracks_setFormatterPtr h _
  | appenderFormatter p val =>
    intro q
    simp only [step]
    by_cases hqp : q = p
    · subst hqp
      rw [Function.update_self, Function.update_self]
      exact ⟨rfl, fun f hf => hf⟩
    · rw [Function.update_of_ne hqp, Function.update_of_ne hqp]
      exact h q

/-- The heap behind `addAppender`: an appender that has a formatter keeps it. -/
theorem heap_addAppender (s : System) (p q : ℕ) : (step s (.addAppender p)).heap q =
    if q = p ∧ (s.heap p).formatter = none then (s.heap p).follow s.logger.formatter
    else s.heap q := by
  simp only [step, Logger.addAppender]
  split_ifs with hnone hq hq
  · rw [hq.1, Function.update_self]
  · rw [Function.update_of_ne fun h => hq ⟨h, hnone⟩]
  · exact absurd hq.2 hnone
  · rfl

theorem follows_addAppender_iff (ht : Tracks s) (hs : Follows s) :
    Follows (step s (.addAppender p)) ↔ Careful s (.addAppender p) := by
  have hlist : (step s (.addAppender p)).logger.appenders = s.logger.appenders ++ [p] := rfl
  -- the appenders that are in the list have a formatter, and so keep it
  have hother : ∀ q ∈ s.logger.appenders, (step s (.addAppender p)).heap q = s.heap q := by
    intro q hq
    rw [heap_addAppender, if_neg]
    rintro ⟨rfl, hnone⟩
    exact (hs q hq).1 hnone
  have hnew : ((step s (.addAppender p)).heap p).formatter =
      if (s.heap p).formatter = none then s.logger.formatter else (s.heap p).formatter := by
    rw [heap_addAppender]
    by_cases hnone : (s.heap p).formatter = none
    · rw [if_pos ⟨rfl, hnone⟩, if_pos hnone]
      rfl
    · rw [if_neg fun h => hnone h.2, if_neg hnone]
  have hiff : Follows (step s (.addAppender p)) ↔
      ((step s (.addAppender p)).heap p).formatter ≠ none ∧
        ((step s (.addAppender p)).heap p).formatter =
          if s.own p = none then s.logger.formatter else s.own p := by
    constructor
    · intro h
      exact h p (by rw [hlist]; exact List.mem_append_right _ (List.mem_singleton_self p))
    · intro h q hq
      rw [hlist, List.mem_append, List.mem_singleton] at hq
      rcases hq with hq | rfl
      · rw [hother q hq]
        exact hs q hq
      · exact h
  rw [hiff, hnew, Careful, ht.hasFormatter_eq_false_iff]
  cases hown : s.own p with
  | some f =>
    have hformatter := (ht p).2 f hown
    rw [hformatter]
    simp
  | none =>
    cases hformatter : (s.heap p).formatter with
    | none => simp
    | some g =>
      rw [if_neg (by simp), if_pos rfl, imp_iff_right rfl]
      constructor
      · rintro ⟨-, heq⟩
        rw [← heq]
        exact ⟨by simp, .inr rfl⟩
      · rintro ⟨-, hnone | heq⟩
        · cases hnone
        · exact ⟨by simp, heq⟩

theorem follows_setFormatterPtr_iff (ht : Tracks s) (val : Option LogFormatter) :
    Follows (step s (.setFormatterPtr val)) ↔
      (val = none → ∀ p ∈ s.logger.appenders, (s.heap p).hasFormatter = true) := by
  have hheap (p : ℕ) (hp : p ∈ s.logger.appenders) :
      ((step s (.setFormatterPtr val)).heap p).formatter =
        if s.own p = none then val else s.own p := by
    change ((s.logger.setFormatterPtr s.heap val).2 p).formatter = _
    rw [heap_setFormatterPtr]
    cases hown : s.own p with
    | none => rw [if_pos ⟨hp, ht.hasFormatter_eq_false_iff.mpr hown⟩, if_pos rfl]; rfl
    | some f =>
      rw [if_neg fun h => ?_, if_neg (by simp)]
      · exact (ht p).2 f hown
      · rw [ht.hasFormatter_eq_false_iff.mp h.2] at hown
        cases hown
  constructor
  -- an appender without a formatter of its own would have none
  · rintro h rfl p hp
    have hne := (h p hp).1
    rw [hheap p hp] at hne
    by_contra hflag
    exact hne (if_pos (ht.hasFormatter_eq_false_iff.mp (Bool.not_eq_true _ ▸ hflag)))
  · intro h p hp
    rw [hheap p hp]
    refine ⟨?_, rfl⟩
    split_ifs with hown
    · intro hval
      have hflag := h hval p hp
      rw [ht.hasFormatter_eq_false_iff.mpr hown] at hflag
      cases hflag
    · exact hown

/-- **One call** keeps `Follows` exactly if it is careful. -/
theorem follows_step_iff (ht : Tracks s) (hs : Follows s) (op : Op) :
    Follows (step s op) ↔ Careful s op := by
  cases op with
  | addAppender p => exact follows_addAppender_iff ht hs
  | delAppender p => exact iff_of_true (fun q hq => hs q (List.mem_of_mem_erase hq)) trivial
  | setFormatterPtr val =>
    rw [follows_setFormatterPtr_iff ht]
    cases val with
    | none => exact imp_iff_right rfl
    | some f => exact iff_of_true (fun h => by cases h) trivial
  | setFormatter val =>
    refine iff_of_true ?_ trivial
    rcases step_setFormatter s val with heq | heq
    · rw [heq]
      exact hs
    · rw [heq, follows_setFormatterPtr_iff ht]
      exact fun h => by cases h
  | appenderFormatter p val =>
    -- the other appenders are not touched
    have hother {q : ℕ} (hq : q ≠ p) :
        (step s (.appenderFormatter p val)).heap q = s.heap q ∧
          (step s (.appenderFormatter p val)).own q = s.own q :=
      ⟨Function.update_of_ne hq .., Function.update_of_ne hq ..⟩
    have hself : ((step s (.appenderFormatter p val)).heap p).formatter = val ∧
        (step s (.appenderFormatter p val)).own p = val := by
      simp only [step]
      rw [Function.update_self, Function.update_self]
      exact ⟨rfl, rfl⟩
    cases val with
    | none =>
      constructor
      · intro h hp
        exact (h p hp).1 hself.1
      · intro hp q hq
        have hne : q ≠ p := fun heq => hp (heq ▸ hq)
        rw [(hother hne).1, (hother hne).2]
        exact hs q hq
    | some f =>
      refine iff_of_true (fun q hq => ?_) trivial
      by_cases hqp : q = p
      · subst hqp
        rw [hself.1, hself.2]
        simp
      · rw [(hother hqp).1, (hother hqp).2]
        exact hs q hq

end Step

/-! ## Sequences of calls -/

theorem IsNew.tracks {s : System} (h : IsNew s) : Tracks s := by
  intro p
  rw [h.own p, (h.heap p).1]
  exact ⟨rfl, fun f hf => by cases hf⟩

theorem IsNew.follows {s : System} (h : IsNew s) : Follows s := by
  intro p hp
  rw [h.logger] at hp
  cases hp

theorem isSome_mapM {α β : Type} {f : α → Option β} {l : List α}
    (h : ∀ a ∈ l, (f a).isSome = true) : (l.mapM f).isSome = true := by
  induction l with
  | nil => rfl
  | cons a l ih =>
    obtain ⟨b, hb⟩ := Option.isSome_iff_exists.mp (h a (List.mem_cons_self ..))
    obtain ⟨bs, hbs⟩ := Option.isSome_iff_exists.mp
      (ih fun a' ha' => h a' (List.mem_cons_of_mem _ ha'))
    rw [List.mapM_cons, hb, hbs]
    rfl

/-- With a formatter everywhere `log` comes to its end. -/
theorem Follows.log {s : System} (h : Follows s) (level : Level) :
    (s.logger.log s.heap level).isSome = true := by
  unfold Logger.log
  split_ifs
  · rfl
  · refine isSome_mapM fun p hp => ?_
    unfold LogAppender.log
    split_ifs
    · rfl
    · rw [Option.isSome_map]
      exact Option.isSome_iff_ne_none.mpr (h p hp).1

theorem exists_run (s : System) (ops : List Op) : ∃ t, machine.run s ops = some t := by
  induction ops generalizing s with
  | nil => exact ⟨s, rfl⟩
  | cons op ops ih => exact ih (step s op)

/-- **Appenders follow their logger** along a sequence of calls exactly if every call is careful,
and `log` then follows no null pointer. -/
theorem follows_iff {s : System} (h : IsNew s) (ops : List Op) :
    (machine.Keeps Follows s ops ↔ machine.Meets Careful s ops) ∧
      (machine.Meets Careful s ops →
        machine.Keeps (fun t => ∀ level, (t.logger.log t.heap level).isSome = true) s ops) := by
  obtain ⟨t, hrun⟩ := exists_run s ops
  have htracks : ∀ s op t, Tracks s → machine.step s op = some t → Tracks t := by
    rintro s op t hs heq
    obtain rfl := Option.some.inj heq
    exact tracks_step hs op
  constructor
  · refine Machine.keeps_iff_meets (I := Tracks) htracks ?_ h.tracks h.follows hrun
    rintro s op t ht hs heq
    obtain rfl := Option.some.inj heq
    exact follows_step_iff ht hs op
  · refine Machine.keeps_of_meets (I := fun s => Tracks s ∧ Follows s) ?_
      (fun s hs => hs.2.log) ⟨h.tracks, h.follows⟩
    rintro s op t ⟨ht, hs⟩ hcareful heq
    refine ⟨htracks s op t ht heq, ?_⟩
    obtain rfl := Option.some.inj heq
    exact (follows_step_iff ht hs op).mpr hcareful

/-- A new logger and new appenders. -/
def new : System where
  logger := {}
  heap _ := { sink := .stdout }
  own _ := none

theorem isNew_new : IsNew new where
  logger := rfl
  heap _ := ⟨rfl, rfl⟩
  own _ := rfl

/-- An appender that follows its logger to another pattern. -/
theorem follows_iff_pattern :
    (machine.Keeps Follows new [.addAppender 0, .setFormatter (bytes "%m%n")] ↔
      machine.Meets Careful new [.addAppender 0, .setFormatter (bytes "%m%n")]) ∧
    (machine.Meets Careful new [.addAppender 0, .setFormatter (bytes "%m%n")] →
      machine.Keeps (fun t => ∀ level, (t.logger.log t.heap level).isSome = true) new
        [.addAppender 0, .setFormatter (bytes "%m%n")]) :=
  follows_iff isNew_new _

/-- An appender that is reset after it was added is left with a null pointer, and one that is taken
out while the formatter of the logger is set comes back with the old one. -/
theorem stops_following :
    (∃ t, machine.run new [.addAppender 0, .appenderFormatter 0 none] = some t ∧
      t.logger.log t.heap .INFO = none ∧ ¬ Follows t) ∧
    ∃ t, machine.run new [.addAppender 0, .delAppender 0, .setFormatter (bytes "%m%n"),
        .addAppender 0] = some t ∧
      t.logger.formatter = some ⟨bytes "%m%n"⟩ ∧ t.own 0 = none ∧
      (t.heap 0).formatter = ({} : Logger).formatter ∧ ¬ Follows t := by
  refine ⟨⟨_, rfl, by decide, fun h => ?_⟩, ⟨_, rfl, by decide, by decide, by decide, fun h => ?_⟩⟩
  · exact (h 0 (by decide)).1 (by decide)
  · exact absurd (h 0 (by decide)).2 (by decide)

end Inherit

end Log

end Sylar

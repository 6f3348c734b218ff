import Mathlib.Data.List.Forall2
import Mathlib.Data.List.Nodup
import Sylar.Foundation.SortedSet
import Sylar.Foundation.Transition
import Sylar.Log.Model

/-!
# Applying a log configuration

When the set of defines changes, `LogIniter`'s listener goes through the new set. A logger whose
define is new or has changed is given its level and its formatter, loses its appenders and is given
new ones; the loggers whose defines are gone are silenced. An appender's own pattern is tested the
wrong way round: a valid one is reported and dropped, and the appender is given the logger's
formatter, while an invalid one becomes its formatter.

The listener looks defines up by name, but compares them as a whole. A pointer to an appender that
was not made, because the define has neither type, is dereferenced and leads nowhere.

## Main definitions

* `LoggerManager`: the loggers by name, and the appenders
* `LoggerManager.applyDefine`, `removeDefine`, `onChange`: the listener
* `LoggerMatches`, `Matches`: a logger is as a define says, and the loggers as a set does
* `Applied`: what the listener is to do
* `Plain`: the defines of which it does

## Main results

* `configure_spec`: one logger, with its new appenders
* `applyNew_spec`: the loop over the new set
* `applied_iff`: the listener does what it is to do exactly if every new or changed define is plain
-/

namespace Sylar

open Foundation

namespace Log

/-! ## The listener -/

/-- A logger with the appenders on the heap, the first `made` of which have been made. -/
structure Draft where
  logger : Logger
  heap : Heap
  made : ℕ

namespace Draft

/-- `ap.reset(…)`; neither type leaves the pointer empty. -/
def sink (a : LogAppenderDefine) : Option Sink :=
  if a.type = 1 then some (.file a.file) else if a.type = 2 then some .stdout else none

/-- The appender, before it is added. -/
def appender (a : LogAppenderDefine) (sink : Sink) : LogAppender :=
  let ap : LogAppender := { sink := sink, level := a.level }
  if a.formatter ≠ [] then
    let fmt : LogFormatter := ⟨a.formatter⟩
    -- the test is the wrong way round
    if fmt.isError then ap.setFormatter (some fmt) else ap
  else ap

/-- The turn of the loop over the appenders. -/
def add (s : Draft) (a : LogAppenderDefine) : Option Draft :=
  (sink a).map fun sink =>
    let r := s.logger.addAppender (Function.update s.heap s.made (appender a sink)) s.made
    ⟨r.1, r.2, s.made + 1⟩

/-- What is done to the logger of a new or changed define. -/
def configure (s : Draft) (d : LogDefine) : Option Draft :=
  let logger := s.logger.setLevel d.level
  let r := if d.formatter ≠ [] then logger.setFormatter s.heap d.formatter else (logger, s.heap)
  -- the old appenders go, and each definition makes a new one
  d.appenders.foldlM add ⟨r.1.clearAppenders, r.2, s.made⟩

end Draft

/-- The loggers by name, and the appenders. -/
structure LoggerManager where
  loggers : List UInt8 → Option Logger
  heap : Heap
  made : ℕ

namespace LoggerManager

/-- `getLogger`; a logger that is not there is made. -/
def getLogger (m : LoggerManager) (name : List UInt8) : Logger := (m.loggers name).getD {}

/-- The manager with a logger and the appenders. -/
def put (m : LoggerManager) (name : List UInt8) (s : Draft) : LoggerManager where
  loggers := Function.update m.loggers name (some s.logger)
  heap := s.heap
  made := s.made

def applyDefine (m : LoggerManager) (d : LogDefine) : Option LoggerManager :=
  (Draft.configure ⟨m.getLogger d.name, m.heap, m.made⟩ d).map (m.put d.name)

/-- The logger of a define that is gone. -/
def removeDefine (m : LoggerManager) (d : LogDefine) : LoggerManager :=
  m.put d.name ⟨((m.getLogger d.name).setLevel ⟨100⟩).clearAppenders, m.heap, m.made⟩

end LoggerManager

/-- `find`, by name. -/
def LogDefines.find (v : LogDefines) (d : LogDefine) : Option LogDefine :=
  v.list.find? fun e => Same LogDefine.lt d e

/-- The first loop of the listener: a define that is found and equal is passed over. -/
def applyNew (old_value : LogDefines) (m : LoggerManager) (l : List LogDefine) :
    Option LoggerManager :=
  l.foldlM (fun m i =>
    match old_value.find i with
    -- a new name
    | none => m.applyDefine i
    -- a changed definition is applied from scratch
    | some it => if i ≠ it then m.applyDefine i else some m) m

/-- The second loop. -/
def removeOld (new_value : LogDefines) (m : LoggerManager) (l : List LogDefine) : LoggerManager :=
  l.foldl (fun m i => if new_value.find i = none then m.removeDefine i else m) m

/-- The listener of `g_log_defines`. -/
def onChange (m : LoggerManager) (old_value new_value : LogDefines) : Option LoggerManager :=
  (applyNew old_value m new_value.list).map fun m => removeOld new_value m old_value.list

/-! ## What it is to do -/

/-- The pattern is given and valid. -/
def Valid (pattern : List UInt8) : Prop := pattern ≠ [] ∧ (⟨pattern⟩ : LogFormatter).isError = false

instance (pattern : List UInt8) : Decidable (Valid pattern) := inferInstanceAs (Decidable (_ ∧ _))

/-- An appender is as its define says, when its logger has the formatter `f`. -/
structure AppenderMatches (f : Option LogFormatter) (a : LogAppenderDefine) (ap : LogAppender) :
    Prop where
  sink : Draft.sink a = some ap.sink
  level : ap.level = a.level
  formatter : ap.formatter = if Valid a.formatter then some ⟨a.formatter⟩ else f

/-- A logger is as its define says: its level, its formatter if a valid one is given, and one
appender for each define of one, in order. -/
def LoggerMatches (m : LoggerManager) (d : LogDefine) : Prop :=
  ∃ l, m.loggers d.name = some l ∧ l.level = d.level ∧
    (Valid d.formatter → l.formatter = some ⟨d.formatter⟩) ∧ l.appenders.Nodup ∧
    List.Forall₂ (fun a p => AppenderMatches l.formatter a (m.heap p)) d.appenders l.appenders

/-- A logger has its own appenders, which no other logger has. -/
def Separate (m : LoggerManager) (name : List UInt8) : Prop :=
  ∀ l ∈ m.loggers name, ∀ other ≠ name, ∀ l' ∈ m.loggers other, ∀ p ∈ l.appenders,
    p ∉ l'.appenders

/-- Only appenders that have been made are in loggers. -/
def Bounded (m : LoggerManager) : Prop :=
  ∀ name, ∀ l ∈ m.loggers name, ∀ p ∈ l.appenders, p < m.made

/-- **The loggers match a set of defines**: each of them is as its define says, with appenders of
its own. -/
structure Matches (m : LoggerManager) (v : LogDefines) : Prop where
  bounded : Bounded m
  logger : ∀ d ∈ v.list, LoggerMatches m d
  separate : ∀ d ∈ v.list, Separate m d.name

/-- A logger and its appenders are as before. -/
def Untouched (m m' : LoggerManager) (name : List UInt8) : Prop :=
  m'.loggers name = m.loggers name ∧
    ∀ l ∈ m.loggers name, ∀ p ∈ l.appenders, m'.heap p = m.heap p

/-- **What the listener is to do.** -/
structure Applied (m m' : LoggerManager) (old_value new_value : LogDefines) : Prop where
  changed : ∀ d ∈ new_value.list, d ∉ old_value.list → LoggerMatches m' d
  unchanged : ∀ d ∈ new_value.list, d ∈ old_value.list → Untouched m m' d.name
  removed : ∀ d ∈ old_value.list, (∀ e ∈ new_value.list, e.name ≠ d.name) →
    ∃ l, m'.loggers d.name = some l ∧ l.level = ⟨100⟩ ∧ l.appenders = []

/-- The formatter that the logger of a define ends up with. -/
def LogDefine.resulting (d : LogDefine) (l : Logger) : Option LogFormatter :=
  if Valid d.formatter then some ⟨d.formatter⟩ else l.formatter

/-- Every appender has one of the two types, and no pattern other than that of its logger. -/
def LogDefine.Plain (d : LogDefine) (m : LoggerManager) : Prop :=
  ∀ a ∈ d.appenders, (a.type = 1 ∨ a.type = 2) ∧
    (a.formatter = [] ∨ d.resulting (m.getLogger d.name) = some ⟨a.formatter⟩)

/-! ## One logger -/

namespace Draft

variable {s t : Draft} {a : LogAppenderDefine} {l : List LogAppenderDefine}

theorem sink_isSome : (sink a).isSome ↔ a.type = 1 ∨ a.type = 2 := by
  unfold sink
  split_ifs <;> simp_all

/-- What a turn of the loop does: one more appender, which has its own pattern if that is given and
invalid, and the formatter of its logger otherwise. -/
structure Added (s t : Draft) (a : LogAppenderDefine) : Prop where
  logger : t.logger = { s.logger with appenders := s.logger.appenders ++ [s.made] }
  made : t.made = s.made + 1
  heap : ∀ p ≠ s.made, t.heap p = s.heap p
  sink : Draft.sink a = some (t.heap s.made).sink
  level : (t.heap s.made).level = a.level
  formatter : (t.heap s.made).formatter =
    if a.formatter ≠ [] ∧ (⟨a.formatter⟩ : LogFormatter).isError then some ⟨a.formatter⟩
    else s.logger.formatter

theorem appender_spec (a : LogAppenderDefine) (k : Sink) :
    (appender a k).sink = k ∧ (appender a k).level = a.level ∧
      (appender a k).formatter =
        if a.formatter ≠ [] ∧ (⟨a.formatter⟩ : LogFormatter).isError then some ⟨a.formatter⟩
        else none := by
  unfold appender
  by_cases hgiven : a.formatter = []
  · simp [hgiven]
  · by_cases herror : (⟨a.formatter⟩ : LogFormatter).isError <;>
      simp [hgiven, herror, LogAppender.setFormatter]

theorem add_spec (h : s.add a = some t) : Added s t a := by
  simp only [add, Option.map_eq_some_iff] at h
  obtain ⟨k, hk, rfl⟩ := h
  obtain ⟨hsink, hlevel, hformatter⟩ := appender_spec a k
  refine ⟨rfl, rfl, fun p hp => ?_, ?_, ?_, ?_⟩ <;>
    simp only [Logger.addAppender, Function.update_self]
  · split_ifs <;> simp [Function.update_of_ne hp]
  · split_ifs <;> simp [hk, hsink, LogAppender.follow]
  · split_ifs <;> simp [hlevel, LogAppender.follow]
  · rw [hformatter]
    split_ifs with hown hnone hnone
    · cases hnone
    · simp [hformatter, hown]
    · simp [LogAppender.follow]
    · exact absurd rfl hnone

/-- The new appender is as its define says exactly if its pattern is the one of its logger. -/
theorem Added.matches_iff (h : Added s t a) :
    AppenderMatches s.logger.formatter a (t.heap s.made) ↔
      a.formatter = [] ∨ s.logger.formatter = some ⟨a.formatter⟩ := by
  have hiff : AppenderMatches s.logger.formatter a (t.heap s.made) ↔
      (t.heap s.made).formatter =
        if Valid a.formatter then some ⟨a.formatter⟩ else s.logger.formatter :=
    ⟨fun hm => hm.formatter, fun hf => ⟨h.sink, h.level, hf⟩⟩
  rw [hiff, h.formatter]
  by_cases hgiven : a.formatter = []
  · rw [if_neg fun hown => hown.1 hgiven, if_neg fun hvalid => hvalid.1 hgiven]
    exact iff_of_true rfl (.inl hgiven)
  · cases herror : (⟨a.formatter⟩ : LogFormatter).isError with
    | true =>
      rw [if_pos ⟨hgiven, rfl⟩, if_neg fun hvalid => by simp [hvalid.2] at herror]
      simp [hgiven, eq_comm]
    | false =>
      rw [if_neg (by simp), if_pos ⟨hgiven, herror⟩]
      simp [hgiven]

/-- **The loop over the appenders.** -/
structure AddedAll (s t : Draft) (l : List LogAppenderDefine) : Prop where
  logger : t.logger =
    { s.logger with appenders := s.logger.appenders ++ List.range' s.made l.length }
  made : t.made = s.made + l.length
  heap : ∀ p < s.made, t.heap p = s.heap p
  matches_iff : List.Forall₂ (fun a p => AppenderMatches s.logger.formatter a (t.heap p)) l
      (List.range' s.made l.length) ↔
    ∀ a ∈ l, a.formatter = [] ∨ s.logger.formatter = some ⟨a.formatter⟩

theorem addAll_spec (h : l.foldlM add s = some t) : AddedAll s t l := by
  induction l generalizing s with
  | nil =>
    obtain rfl : s = t := by simpa using h
    exact ⟨by simp, rfl, fun _ _ => rfl, by simp⟩
  | cons a l ih =>
    rw [List.foldlM_cons, Option.bind_eq_bind, Option.bind_eq_some_iff] at h
    obtain ⟨s', hs', h⟩ := h
    have hadd := add_spec hs'
    have hrest := ih h
    have hlogger : s'.logger.formatter = s.logger.formatter := by rw [hadd.logger]
    have hiff := hrest.matches_iff
    rw [hlogger, hadd.made] at hiff
    refine ⟨?_, ?_, fun p hp => ?_, ?_⟩
    · rw [hrest.logger, hadd.logger, hadd.made, List.length_cons, List.range'_succ]
      simp
    · rw [hrest.made, hadd.made, List.length_cons]
      omega
    · rw [hrest.heap p (by rw [hadd.made]; omega), hadd.heap p (by omega)]
    · rw [List.length_cons, List.range'_succ, List.forall₂_cons, hiff, List.forall_mem_cons,
        hrest.heap s.made (by rw [hadd.made]; omega), hadd.matches_iff]

theorem addAll_isSome : (l.foldlM add s).isSome ↔ ∀ a ∈ l, a.type = 1 ∨ a.type = 2 := by
  induction l generalizing s with
  | nil => simp
  | cons a l ih =>
    rw [List.foldlM_cons, List.forall_mem_cons, ← sink_isSome, add]
    cases sink a with
    | none => simp
    | some k => simpa using ih

/-- The appenders that follow a logger are among its own. -/
theorem foldl_follow (f : Option LogFormatter) (ps : List ℕ) (heap : Heap) {p : ℕ} (hp : p ∉ ps) :
    ps.foldl (fun heap p =>
      if (heap p).hasFormatter then heap else Function.update heap p ((heap p).follow f)) heap p =
      heap p := by
  induction ps generalizing heap with
  | nil => rfl
  | cons p' ps ih =>
    obtain ⟨hne, hps⟩ := not_or.mp (mt List.mem_cons.mpr hp)
    rw [List.foldl_cons, ih _ hps]
    split_ifs
    · rfl
    · exact Function.update_of_ne hne ..

theorem setFormatter_spec (logger : Logger) (heap : Heap) {d : LogDefine} :
    let r := if d.formatter ≠ [] then logger.setFormatter heap d.formatter else (logger, heap)
    r.1 = { logger with formatter := d.resulting logger } ∧
      ∀ p ∉ logger.appenders, r.2 p = heap p := by
  by_cases hgiven : d.formatter = []
  · rw [if_neg (by simpa using hgiven), LogDefine.resulting, if_neg fun hvalid => hvalid.1 hgiven]
    exact ⟨rfl, fun _ _ => rfl⟩
  · rw [if_pos hgiven, Logger.setFormatter, LogDefine.resulting]
    cases herror : (⟨d.formatter⟩ : LogFormatter).isError with
    | true =>
      rw [if_pos rfl, if_neg fun hvalid => by simp [hvalid.2] at herror]
      exact ⟨rfl, fun _ _ => rfl⟩
    | false =>
      rw [if_neg Bool.false_ne_true, if_pos ⟨hgiven, herror⟩]
      exact ⟨rfl, fun p hp => foldl_follow _ _ _ hp⟩

/-- **A logger is configured**: it has new appenders, and those that it had are let go. -/
structure Configured (s t : Draft) (d : LogDefine) : Prop where
  logger : t.logger =
    ⟨d.level, d.resulting s.logger, List.range' s.made d.appenders.length⟩
  made : t.made = s.made + d.appenders.length
  heap : ∀ p < s.made, p ∉ s.logger.appenders → t.heap p = s.heap p
  matches_iff : List.Forall₂ (fun a p => AppenderMatches (d.resulting s.logger) a (t.heap p))
      d.appenders (List.range' s.made d.appenders.length) ↔
    ∀ a ∈ d.appenders, a.formatter = [] ∨ d.resulting s.logger = some ⟨a.formatter⟩

theorem configure_spec {d : LogDefine} (h : s.configure d = some t) : Configured s t d := by
  obtain ⟨hlogger, hheap⟩ := setFormatter_spec (s.logger.setLevel d.level) s.heap (d := d)
  have hadd := addAll_spec h
  have hres : d.resulting (s.logger.setLevel d.level) = d.resulting s.logger := rfl
  have hiff := hadd.matches_iff
  simp only [hlogger, Logger.clearAppenders, hres] at hiff
  refine ⟨?_, hadd.made, fun p hp hnot => ?_, hiff⟩
  · rw [hadd.logger]
    simp only [hlogger, hres, Logger.clearAppenders, List.nil_append]
    rfl
  · rw [hadd.heap p hp]
    exact hheap p hnot

theorem configure_isSome {d : LogDefine} :
    (s.configure d).isSome ↔ ∀ a ∈ d.appenders, a.type = 1 ∨ a.type = 2 := addAll_isSome

end Draft

/-! ## One define -/

variable {m m' : LoggerManager} {d : LogDefine} {name : List UInt8}

/-- **A define is applied**: only its logger changes, and appenders that are not its own. -/
structure AppliedOne (m m' : LoggerManager) (d : LogDefine) : Prop where
  others : ∀ name ≠ d.name, m'.loggers name = m.loggers name
  logger : m'.loggers d.name = some ⟨d.level, d.resulting (m.getLogger d.name),
    List.range' m.made d.appenders.length⟩
  made : m'.made = m.made + d.appenders.length
  heap : ∀ p < m.made, p ∉ (m.getLogger d.name).appenders → m'.heap p = m.heap p
  matches_iff : LoggerMatches m' d ↔ ∀ a ∈ d.appenders,
    a.formatter = [] ∨ d.resulting (m.getLogger d.name) = some ⟨a.formatter⟩

theorem applyDefine_spec (h : m.applyDefine d = some m') : AppliedOne m m' d := by
  simp only [LoggerManager.applyDefine, Option.map_eq_some_iff] at h
  obtain ⟨t, ht, rfl⟩ := h
  have hconf := Draft.configure_spec ht
  have hlogger : (m.put d.name t).loggers d.name = some ⟨d.level, d.resulting (m.getLogger d.name),
      List.range' m.made d.appenders.length⟩ :=
    (Function.update_self ..).trans (congrArg some hconf.logger)
  refine ⟨fun name hne => Function.update_of_ne hne .., hlogger, hconf.made, hconf.heap, ?_⟩
  rw [← hconf.matches_iff, LoggerMatches, hlogger]
  constructor
  · rintro ⟨l, hl, -, -, -, hforall⟩
    cases hl
    exact hforall
  · intro hforall
    refine ⟨_, rfl, rfl, fun hvalid => ?_, List.nodup_range', hforall⟩
    exact if_pos hvalid

theorem applyDefine_isSome : (m.applyDefine d).isSome ↔
    ∀ a ∈ d.appenders, a.type = 1 ∨ a.type = 2 := by
  rw [LoggerManager.applyDefine, Option.isSome_map]
  exact Draft.configure_isSome

namespace AppliedOne

theorem bounded (h : AppliedOne m m' d) (hm : Bounded m) : Bounded m' := by
  intro name l hl p hp
  rcases eq_or_ne name d.name with rfl | hne
  · rw [h.logger] at hl
    cases hl
    have := (List.mem_range'_1.mp hp).2
    rw [h.made]
    exact this
  · rw [h.others name hne] at hl
    have := hm name l hl p hp
    rw [h.made]
    omega

/-- The new appenders are in no other logger. -/
theorem separate_self (h : AppliedOne m m' d) (hm : Bounded m) : Separate m' d.name := by
  intro l hl other hne l' hl' p hp hp'
  rw [h.logger] at hl
  cases hl
  rw [h.others other hne] at hl'
  have hlt := hm other l' hl' p hp'
  have hge := (List.mem_range'_1.mp hp).1
  omega

theorem separate (h : AppliedOne m m' d) (hm : Bounded m) (hne : name ≠ d.name)
    (hsep : Separate m name) : Separate m' name := by
  intro l hl other hother l' hl' p hp hp'
  rw [h.others name hne] at hl
  rcases eq_or_ne other d.name with rfl | hod
  · rw [h.logger] at hl'
    cases hl'
    have hlt := hm name l hl p hp
    have hge := (List.mem_range'_1.mp hp').1
    omega
  · rw [h.others other hod] at hl'
    exact hsep l hl other hother l' hl' p hp hp'

theorem untouched (h : AppliedOne m m' d) (hm : Bounded m) (hne : name ≠ d.name)
    (hsep : Separate m name) : Untouched m m' name := by
  refine ⟨h.others name hne, fun l hl p hp => h.heap p (hm name l hl p hp) fun hp' => ?_⟩
  unfold LoggerManager.getLogger at hp'
  cases hd : m.loggers d.name with
  | none => simp [hd] at hp'
  | some l' =>
    rw [hd] at hp'
    exact hsep l hl d.name hne.symm l' hd p hp hp'

end AppliedOne

/-! ## Sets of defines -/

theorem same_iff {d e : LogDefine} : Same LogDefine.lt d e ↔ d.name = e.name := by
  constructor
  · rintro ⟨h, h'⟩
    exact List.le_antisymm h' h
  · intro h
    have hirrefl := List.lt_irrefl e.name
    rw [Same, LogDefine.lt, LogDefine.lt, h]
    exact ⟨hirrefl, hirrefl⟩

namespace LogDefines

variable {v : LogDefines} {d e : LogDefine}

theorem nodup_names (v : LogDefines) : (v.list.map LogDefine.name).Nodup :=
  List.pairwise_map.mpr <| v.sorted.imp fun {d e} hlt heq => by
    rw [LogDefine.lt, heq] at hlt
    exact List.lt_irrefl _ hlt

theorem eq_of_name (hd : d ∈ v.list) (he : e ∈ v.list) (h : d.name = e.name) : d = e :=
  List.inj_on_of_nodup_map v.nodup_names hd he h

theorem find_eq_some : v.find d = some e ↔ e ∈ v.list ∧ d.name = e.name := by
  constructor
  · intro h
    exact ⟨List.mem_of_find?_eq_some h, same_iff.mp (by simpa using List.find?_some h)⟩
  · rintro ⟨he, hname⟩
    cases hfind : v.find d with
    | none =>
      have hnot := List.find?_eq_none.mp hfind e he
      exact absurd (decide_eq_true (same_iff.mpr hname)) hnot
    | some e' =>
      have hname' := same_iff.mp (by simpa using List.find?_some hfind)
      rw [eq_of_name (List.mem_of_find?_eq_some hfind) he (hname'.symm.trans hname)]

theorem find_eq_none : v.find d = none ↔ ∀ e ∈ v.list, e.name ≠ d.name := by
  simp only [find, same_iff, List.find?_eq_none, decide_eq_true_eq]
  exact forall₂_congr fun e _ => not_congr eq_comm

end LogDefines

/-! ## The loop over the new set -/

variable {old_value new_value : LogDefines} {l : List LogDefine}

/-- The turn of the loop: a define of the old set is passed over. -/
theorem applyNew_cons : applyNew old_value m (d :: l) =
    (if d ∈ old_value.list then some m else m.applyDefine d).bind fun m =>
      applyNew old_value m l := by
  rw [applyNew, List.foldlM_cons]
  refine congrArg (fun x => Option.bind x _) ?_
  cases hfind : old_value.find d with
  | none =>
    rw [if_neg fun hmem => LogDefines.find_eq_none.mp hfind d hmem rfl]
  | some it =>
    obtain ⟨hit, hname⟩ := LogDefines.find_eq_some.mp hfind
    rcases eq_or_ne d it with rfl | hne
    · rw [if_pos hit]
      simp
    · rw [if_neg fun hmem => hne (LogDefines.eq_of_name hmem hit hname)]
      simp [hne]

theorem Untouched.refl (m : LoggerManager) (name : List UInt8) : Untouched m m name :=
  ⟨rfl, fun _ _ _ _ => rfl⟩

theorem Untouched.trans {m₁ m₂ m₃ : LoggerManager} (h : Untouched m₁ m₂ name)
    (h' : Untouched m₂ m₃ name) : Untouched m₁ m₃ name :=
  ⟨h'.1.trans h.1, fun l hl p hp => (h'.2 l (h.1 ▸ hl) p hp).trans (h.2 l hl p hp)⟩

theorem forall₂_congr_mem {α β : Type*} {R R' : α → β → Prop} {as : List α} {bs : List β}
    (h : ∀ a, ∀ b ∈ bs, (R a b ↔ R' a b)) : List.Forall₂ R as bs ↔ List.Forall₂ R' as bs := by
  induction as generalizing bs with
  | nil => cases bs <;> simp
  | cons a as ih =>
    cases bs with
    | nil => simp
    | cons b bs =>
      rw [List.forall₂_cons, List.forall₂_cons, h a b List.mem_cons_self,
        ih fun a b hb => h a b (List.mem_cons_of_mem _ hb)]

/-- A logger that is untouched is as a define says if it was before. -/
theorem Untouched.loggerMatches_iff (h : Untouched m m' d.name) :
    LoggerMatches m' d ↔ LoggerMatches m d := by
  unfold LoggerMatches
  rw [h.1]
  refine exists_congr fun l => and_congr_right fun hl => ?_
  refine and_congr_right fun _ => and_congr_right fun _ => and_congr_right fun _ => ?_
  exact forall₂_congr_mem fun a p hp => by rw [h.2 l hl p hp]

/-- **The loop over the new set**, from managers in which no appender is shared: what is not
configured is untouched, and what is configured is as its define says exactly if that is plain. -/
structure AppliedNew (old_value : LogDefines) (m m' : LoggerManager) (l : List LogDefine) :
    Prop where
  bounded : Bounded m → Bounded m'
  others : ∀ name, (∀ d ∈ l, d ∉ old_value.list → d.name ≠ name) → m'.loggers name = m.loggers name
  untouched : Bounded m → ∀ name, (∀ d ∈ l, d ∉ old_value.list → d.name ≠ name) →
    Separate m name → Untouched m m' name ∧ Separate m' name
  matches_iff : Bounded m → ∀ d ∈ l, d ∉ old_value.list →
    Separate m' d.name ∧ (LoggerMatches m' d ↔ ∀ a ∈ d.appenders,
      a.formatter = [] ∨ d.resulting (m.getLogger d.name) = some ⟨a.formatter⟩)

theorem applyNew_spec (hnames : (l.map LogDefine.name).Nodup)
    (h : applyNew old_value m l = some m') : AppliedNew old_value m m' l := by
  induction l generalizing m with
  | nil =>
    obtain rfl : m = m' := by simpa [applyNew] using h
    exact ⟨id, fun _ _ => rfl, fun _ name _ hsep => ⟨Untouched.refl m name, hsep⟩, fun _ d hd => by
      cases hd⟩
  | cons d l ih =>
    rw [applyNew_cons, Option.bind_eq_some_iff] at h
    obtain ⟨m₁, hone, h⟩ := h
    rw [List.map_cons, List.nodup_cons] at hnames
    have hrest := ih hnames.2 h
    have hfresh : ∀ e ∈ l, e ∉ old_value.list → e.name ≠ d.name := fun e he _ heq =>
      hnames.1 (heq ▸ List.mem_map_of_mem he)
    split_ifs at hone with hold
    · cases hone
      have hd : ∀ {name}, (∀ e ∈ d :: l, e ∉ old_value.list → e.name ≠ name) →
          ∀ e ∈ l, e ∉ old_value.list → e.name ≠ name := fun h e he =>
        h e (List.mem_cons_of_mem _ he)
      refine ⟨hrest.bounded, fun name hname => hrest.others name (hd hname),
        fun hm name hname hsep => hrest.untouched hm name (hd hname) hsep, fun hm e he hnew => ?_⟩
      rcases List.mem_cons.mp he with rfl | he
      · exact absurd hold hnew
      · exact hrest.matches_iff hm e he hnew
    · have happ := applyDefine_spec hone
      refine ⟨fun hm => hrest.bounded (happ.bounded hm), fun name hname => ?_,
        fun hm name hname hsep => ?_, fun hm e he hnew => ?_⟩
      · rw [hrest.others name fun e he => hname e (List.mem_cons_of_mem _ he)]
        exact happ.others name (hname d List.mem_cons_self hold).symm
      · have hne := (hname d List.mem_cons_self hold).symm
        obtain ⟨hunt, hsep'⟩ := hrest.untouched (happ.bounded hm) name
          (fun e he => hname e (List.mem_cons_of_mem _ he)) (happ.separate hm hne hsep)
        exact ⟨(happ.untouched hm hne hsep).trans hunt, hsep'⟩
      · rcases List.mem_cons.mp he with rfl | he
        · -- the rest of the loop leaves the new appenders alone
          obtain ⟨hunt, hsep⟩ := hrest.untouched (happ.bounded hm) e.name hfresh
            (happ.separate_self hm)
          exact ⟨hsep, hunt.loggerMatches_iff.trans happ.matches_iff⟩
        · have hlogger : m₁.getLogger e.name = m.getLogger e.name := by
            rw [LoggerManager.getLogger, happ.others e.name (hfresh e he hnew)]
            rfl
          have hiff := hrest.matches_iff (happ.bounded hm) e he hnew
          rwa [hlogger] at hiff

theorem applyNew_isSome : (applyNew old_value m l).isSome ↔
    ∀ d ∈ l, d ∉ old_value.list → ∀ a ∈ d.appenders, a.type = 1 ∨ a.type = 2 := by
  induction l generalizing m with
  | nil => simp [applyNew]
  | cons d l ih =>
    rw [applyNew_cons, List.forall_mem_cons]
    split_ifs with hold
    · simp only [Option.bind_some, hold, not_true_eq_false, false_imp_iff, true_and]
      exact ih
    · rw [← applyDefine_isSome (m := m)]
      cases m.applyDefine d with
      | none => simp [hold]
      | some m₁ =>
        simp only [Option.bind_some, hold, not_false_eq_true, Option.isSome_some, true_imp_iff,
          true_and]
        exact ih

/-! ## The loop over the old set -/

theorem removeDefine_untouched (hne : name ≠ d.name) : Untouched m (m.removeDefine d) name :=
  ⟨Function.update_of_ne hne .., fun _ _ _ _ => rfl⟩

theorem removeDefine_loggers : ∃ l, (m.removeDefine d).loggers d.name = some l ∧
    l.level = ⟨100⟩ ∧ l.appenders = [] :=
  ⟨_, Function.update_self .., rfl, rfl⟩

/-- **The loop over the old set**: the loggers whose defines are gone are silenced, and no other is
touched. -/
theorem removeOld_spec (new_value : LogDefines) (m : LoggerManager) (l : List LogDefine) :
    (∀ name, (∀ d ∈ l, (∀ e ∈ new_value.list, e.name ≠ d.name) → d.name ≠ name) →
      Untouched m (removeOld new_value m l) name) ∧
    ((l.map LogDefine.name).Nodup → ∀ d ∈ l, (∀ e ∈ new_value.list, e.name ≠ d.name) →
      ∃ l', (removeOld new_value m l).loggers d.name = some l' ∧ l'.level = ⟨100⟩ ∧
        l'.appenders = []) := by
  induction l generalizing m with
  | nil => exact ⟨fun name _ => Untouched.refl m name, fun _ d hd => by cases hd⟩
  | cons d l ih =>
    change (∀ name, _ → Untouched m (removeOld new_value
        (if new_value.find d = none then m.removeDefine d else m) l) name) ∧ _
    have hturn : ∀ name, ((∀ e ∈ new_value.list, e.name ≠ d.name) → d.name ≠ name) →
        Untouched m (if new_value.find d = none then m.removeDefine d else m) name := by
      intro name hname
      split_ifs with hgone
      · exact removeDefine_untouched (hname (LogDefines.find_eq_none.mp hgone)).symm
      · exact Untouched.refl m name
    refine ⟨fun name hname => ?_, fun hnames e he hgone => ?_⟩
    · exact (hturn name (hname d List.mem_cons_self)).trans
        ((ih _).1 name fun e he => hname e (List.mem_cons_of_mem _ he))
    · rw [List.map_cons, List.nodup_cons] at hnames
      rcases List.mem_cons.mp he with rfl | he
      · obtain ⟨l', hl', hlevel, happ⟩ := removeDefine_loggers (m := m) (d := e)
        have hrest := (ih (m.removeDefine e)).1 e.name fun d hd _ heq =>
          hnames.1 (heq ▸ List.mem_map_of_mem hd)
        refine ⟨l', ?_, hlevel, happ⟩
        change (removeOld new_value
          (if new_value.find e = none then m.removeDefine e else m) l).loggers e.name = some l'
        rw [if_pos (LogDefines.find_eq_none.mpr hgone), hrest.1, hl']
      · exact (ih _).2 hnames.2 e he hgone

/-- The second loop makes no appender and moves none. -/
theorem removeOld_loggers (new_value : LogDefines) (m : LoggerManager) (l : List LogDefine) :
    (removeOld new_value m l).made = m.made ∧ ∀ name, ∀ l' ∈ (removeOld new_value m l).loggers name,
      l'.appenders = [] ∨ l' ∈ m.loggers name := by
  induction l generalizing m with
  | nil => exact ⟨rfl, fun _ _ hl' => .inr hl'⟩
  | cons d l ih =>
    obtain ⟨hmade, hloggers⟩ := ih (if new_value.find d = none then m.removeDefine d else m)
    refine ⟨hmade.trans (by split_ifs <;> rfl), fun name l' hl' => ?_⟩
    rcases hloggers name l' hl' with hnil | hl'
    · exact .inl hnil
    · split_ifs at hl'
      · rcases eq_or_ne name d.name with rfl | hne
        · obtain ⟨l'', hl'', -, hnil⟩ := removeDefine_loggers (m := m) (d := d)
          rw [hl''] at hl'
          cases hl'
          exact .inl hnil
        · exact .inr (by rwa [(removeDefine_untouched hne).1] at hl')
      · exact .inr hl'

theorem removeOld_bounded (h : Bounded m) : Bounded (removeOld new_value m l) := by
  obtain ⟨hmade, hloggers⟩ := removeOld_loggers new_value m l
  intro name l' hl' p hp
  rw [hmade]
  rcases hloggers name l' hl' with hnil | hl'
  · rw [hnil] at hp
    cases hp
  · exact h name l' hl' p hp

theorem removeOld_separate (h : Separate m name) : Separate (removeOld new_value m l) name := by
  obtain ⟨-, hloggers⟩ := removeOld_loggers new_value m l
  intro l₁ hl₁ other hne l₂ hl₂ p hp hp'
  rcases hloggers name l₁ hl₁ with hnil | hl₁
  · rw [hnil] at hp
    cases hp
  rcases hloggers other l₂ hl₂ with hnil | hl₂
  · rw [hnil] at hp'
    cases hp'
  exact h l₁ hl₁ other hne l₂ hl₂ p hp hp'

/-! ## The listener -/

/-- **Applying a configuration.** From loggers that match the old set, the listener ends with the
loggers that it is to end with exactly if every new or changed define is plain. -/
theorem applied_iff (hmatches : Matches m old_value) :
    (∃ m', onChange m old_value new_value = some m' ∧ Applied m m' old_value new_value) ↔
      ∀ d ∈ new_value.list, d ∉ old_value.list → d.Plain m := by
  have hremoved m₁ : ∀ d ∈ new_value.list,
      Untouched m₁ (removeOld new_value m₁ old_value.list) d.name := fun d hd =>
    (removeOld_spec new_value m₁ old_value.list).1 d.name fun e _ hgone heq => hgone d hd heq.symm
  constructor
  · rintro ⟨m', hm', happlied⟩ d hd hnew a ha
    rw [onChange, Option.map_eq_some_iff] at hm'
    obtain ⟨m₁, hm₁, rfl⟩ := hm'
    have htypes := applyNew_isSome.mp (hm₁ ▸ rfl : (applyNew old_value m new_value.list).isSome)
    have hspec := applyNew_spec new_value.nodup_names hm₁
    have hmatch := (hremoved m₁ d hd).loggerMatches_iff.mp (happlied.changed d hd hnew)
    exact ⟨htypes d hd hnew a ha, ((hspec.matches_iff hmatches.bounded d hd hnew).2.mp hmatch) a ha⟩
  · intro hplain
    obtain ⟨m₁, hm₁⟩ := Option.isSome_iff_exists.mp <| applyNew_isSome.mpr fun d hd hnew a ha =>
      (hplain d hd hnew a ha).1
    have hspec := applyNew_spec new_value.nodup_names hm₁
    refine ⟨removeOld new_value m₁ old_value.list, by rw [onChange, hm₁, Option.map_some], ?_⟩
    refine ⟨fun d hd hnew => ?_, fun d hd hold => ?_, fun d hd hgone => ?_⟩
    · exact (hremoved m₁ d hd).loggerMatches_iff.mpr
        ((hspec.matches_iff hmatches.bounded d hd hnew).2.mpr fun a ha =>
          (hplain d hd hnew a ha).2)
    · have hother : ∀ e ∈ new_value.list, e ∉ old_value.list → e.name ≠ d.name := by
        intro e he hnew heq
        exact hnew (LogDefines.eq_of_name he hd heq ▸ hold)
      exact (hspec.untouched hmatches.bounded d.name hother (hmatches.separate d hold)).1.trans
        (hremoved m₁ d hd)
    · exact (removeOld_spec new_value m₁ old_value.list).2 old_value.nodup_names d hd hgone

/-! ## Configurations one after the other -/

/-- **A configuration that is plain is matched**, and the next one finds loggers that match it. -/
theorem Matches.onChange (hmatches : Matches m old_value)
    (hplain : ∀ d ∈ new_value.list, d ∉ old_value.list → d.Plain m)
    (h : onChange m old_value new_value = some m') : Matches m' new_value := by
  rw [Log.onChange, Option.map_eq_some_iff] at h
  obtain ⟨m₁, hm₁, rfl⟩ := h
  have hspec := applyNew_spec new_value.nodup_names hm₁
  have hmem : ∀ d ∈ new_value.list, LoggerMatches m₁ d ∧ Separate m₁ d.name := by
    intro d hd
    by_cases hold : d ∈ old_value.list
    · have hother : ∀ e ∈ new_value.list, e ∉ old_value.list → e.name ≠ d.name := by
        intro e he hnew heq
        exact hnew (LogDefines.eq_of_name he hd heq ▸ hold)
      obtain ⟨hunt, hsep⟩ := hspec.untouched hmatches.bounded d.name hother
        (hmatches.separate d hold)
      exact ⟨hunt.loggerMatches_iff.mpr (hmatches.logger d hold), hsep⟩
    · obtain ⟨hsep, hiff⟩ := hspec.matches_iff hmatches.bounded d hd hold
      exact ⟨hiff.mpr fun a ha => (hplain d hd hold a ha).2, hsep⟩
  refine ⟨removeOld_bounded (hspec.bounded hmatches.bounded), fun d hd => ?_, fun d hd =>
    removeOld_separate (hmem d hd).2⟩
  have hunt := (removeOld_spec new_value m₁ old_value.list).1 d.name
    fun e _ hgone heq => hgone d hd heq.symm
  exact hunt.loggerMatches_iff.mpr (hmem d hd).1

/-- The loggers and the set of defines that is in force, as sets are put in force one after the
other. -/
def machine : Machine (LoggerManager × LogDefines) LogDefines where
  step s new_value := (onChange s.1 s.2 new_value).map fun m => (m, new_value)

/-- The manager as it is made: the root logger writes to the standard output. -/
def LoggerManager.start : LoggerManager :=
  let r := Logger.addAppender {} (fun _ => { sink := .stdout }) 0
  { loggers := Function.update (fun _ => none) (bytes "root") (some r.1), heap := r.2, made := 1 }

theorem start_loggers (name : List UInt8) : LoggerManager.start.loggers name =
    if name = bytes "root" then some { appenders := [0] } else none := by
  unfold LoggerManager.start
  dsimp only
  rw [Function.update_apply]
  rfl

theorem matches_start : Matches .start ⟨[], List.Pairwise.nil⟩ where
  bounded name l hl p hp := by
    rw [start_loggers] at hl
    split_ifs at hl
    · cases hl
      obtain rfl := List.mem_singleton.mp hp
      exact Nat.zero_lt_one
    · cases hl
  logger d hd := by cases hd
  separate d hd := by cases hd

/-- **Every configuration of a run is matched**, if each puts only plain defines in force. -/
theorem keeps_matches {sets : List LogDefines}
    (h : machine.Meets (fun s new_value => ∀ d ∈ new_value.list, d ∉ s.2.list → d.Plain s.1)
      (.start, ⟨[], List.Pairwise.nil⟩) sets) :
    machine.Keeps (fun s => Matches s.1 s.2) (.start, ⟨[], List.Pairwise.nil⟩) sets :=
  Machine.keeps_of_meets (I := fun s => Matches s.1 s.2) (fun s new_value t hs hok hstep => by
    rw [machine, Option.map_eq_some_iff] at hstep
    obtain ⟨m', hm', rfl⟩ := hstep
    exact hs.onChange hok hm') (fun _ hs => hs) matches_start h

/-- A new level for the root logger, and an appender. -/
def rootDefine (a : LogAppenderDefine) : LogDefines where
  list := [{ name := bytes "root", level := .INFO, appenders := [a] }]
  sorted := List.pairwise_singleton _ _

theorem applied_iff_stdout : ∃ m',
    onChange .start ⟨[], List.Pairwise.nil⟩ (rootDefine { type := 2 }) = some m' ∧
      Applied .start m' ⟨[], List.Pairwise.nil⟩ (rootDefine { type := 2 }) :=
  (applied_iff matches_start).mpr fun d hd _ a ha => by
    obtain rfl := List.mem_singleton.mp hd
    obtain rfl := List.mem_singleton.mp ha
    exact ⟨.inr rfl, .inl rfl⟩

/-- A file for messages alone. -/
def messages : LogAppenderDefine :=
  { type := 1, formatter := bytes "%m%n", file := bytes "messages.txt" }

/-- The pattern is valid, and the appender is given the formatter of its logger. -/
theorem pattern_dropped : Matches .start ⟨[], List.Pairwise.nil⟩ ∧ Valid messages.formatter ∧
    ∃ m', onChange .start ⟨[], List.Pairwise.nil⟩ (rootDefine messages) = some m' ∧
      (m'.heap 1).formatter = ({} : Logger).formatter ∧
      ¬ Applied .start m' ⟨[], List.Pairwise.nil⟩ (rootDefine messages) := by
  have hrun : (onChange .start ⟨[], List.Pairwise.nil⟩ (rootDefine messages)).map
      (fun m' => (m'.loggers (bytes "root"), m'.heap 1)) =
      some (some { level := .INFO, appenders := [1] },
        { sink := .file (bytes "messages.txt"), level := .UNKNOW
          formatter := ({} : Logger).formatter }) := by decide
  obtain ⟨m', hm', heq⟩ := Option.map_eq_some_iff.mp hrun
  obtain ⟨hlogger, hheap⟩ := Prod.mk.inj heq
  refine ⟨matches_start, by decide, m', hm', by rw [hheap], fun happlied => ?_⟩
  obtain ⟨l, hl, -, -, -, hforall⟩ := happlied.changed _ List.mem_cons_self (by simp)
  obtain rfl : { level := .INFO, appenders := [1] } = l :=
    Option.some.inj (hlogger.symm.trans hl)
  have hformatter := (List.forall₂_cons.mp hforall).1.formatter
  rw [hheap] at hformatter
  exact absurd hformatter (by decide)

end Log

end Sylar

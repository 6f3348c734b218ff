import Sylar.Fd.Manager
import Sylar.IOManager.Table

/-!
# Descriptors out of range

Six functions index a table by a file descriptor that they are given as an `int`: the two of
`FdManager`, and the four of the IO manager. Each compares it with the size of the table, as an
`int`, and none but `get` looks at its sign, where only -1 is refused. A closed socket passes -1 to
`cancelAll`.

The calls run one at a time. An index out of range leads nowhere, and an aborted program makes no
more calls.

## Main definitions

* `FdCall`, `Descriptors`: a call, and the two tables
* `findContext`, `ensureContext`: the lookups of the IO manager
* `Handled`: no index is out of range, and a negative descriptor has no context
* `InRange`: the condition on a call, and the sizes of the tables
* `Plain`: the condition on its descriptor alone, for tables of ordinary size

## Main results

* `handled_iff`: one call
* `all_in_range_iff`: a history of calls
-/

namespace Sylar

open Foundation

namespace IOManager

open Fd

/-! ## The calls -/

/-- The lookup of `delEvent`, `cancelEvent` and `cancelAll`: they return false, or go on. -/
def findContext (fd : Int) (m : IOManager) : Option (Option ℕ) :=
  if signed32 m.fdContexts.length ≤ fd then some none else (index m.fdContexts fd).map some

/-- The lookup of `addEvent`, with the growth of the table. -/
def ensureContext (fd : Int) (m : IOManager) : Option (ℕ × IOManager) :=
  if fd < signed32 m.fdContexts.length then (index m.fdContexts fd).map fun c => (c, m)
  else
    (growth fd).bind fun size =>
      let m := contextResize size m
      (index m.fdContexts fd).map fun c => (c, m)

/-- A call; `accepted` is the result of `epoll_ctl`, if it comes to one. -/
inductive FdCall
  | get (fd : Int) (auto_create : Bool)
  | del (fd : Int)
  | addEvent (fd : Int) (event : Event) (cb : Bool) (scheduler : ℕ) (accepted : Bool)
  | delEvent (fd : Int) (event : Event) (accepted : Bool)
  | cancelEvent (fd : Int) (event : Event) (accepted : Bool)
  | cancelAll (fd : Int) (accepted : Bool)
  deriving DecidableEq, Repr

def FdCall.fd : FdCall → Int
  | get fd _ | del fd | addEvent fd .. | delEvent fd .. | cancelEvent fd .. | cancelAll fd _ => fd

/-- The two tables. -/
structure Descriptors where
  fds : FdManager
  io : IOManager

namespace Descriptors

/-- The start of the program. -/
def start : Descriptors := { fds := .new, io := .new }

/-- The section of a call on a context that was found. -/
def underMutex (op : Op) (c : ℕ) (accepted : Bool) (io : IOManager) : Bool × IOManager :=
  runLocked op io.calls c accepted { io with calls := io.calls + 1 }

/-- `delEvent`, `cancelEvent` and `cancelAll`. -/
def onContext (s : Descriptors) (fd : Int) (op : ℕ → Op) (accepted : Bool) :
    Option (Bool × Descriptors) :=
  (findContext fd s.io).map fun
    | none => (false, s)
    | some c =>
      let r := underMutex (op fd.toNat) c accepted s.io
      (r.1, { s with io := r.2 })

/-- What a call does, and what it says: whether there is a context for `get`, whether it succeeded
for the calls of the IO manager. -/
def exec (s : Descriptors) : FdCall → Option (Bool × Descriptors)
  | .get fd auto_create =>
    (s.fds.get fd auto_create).map fun r => (r.1.isSome, { s with fds := r.2 })
  | .del fd => (s.fds.del fd).map fun fds => (false, { s with fds := fds })
  | .addEvent fd event cb scheduler accepted =>
    (ensureContext fd s.io).map fun r =>
      let r := underMutex (.addEvent fd.toNat event cb scheduler) r.1 accepted r.2
      (r.1, { s with io := r.2 })
  | .delEvent fd event accepted => s.onContext fd (.delEvent · event) accepted
  | .cancelEvent fd event accepted => s.onContext fd (.cancelEvent · event) accepted
  | .cancelAll fd accepted => s.onContext fd .cancelAll accepted

/-- The calls of a program that has not aborted. -/
def machine : Machine Descriptors FdCall where
  step s a := if s.io.aborted then none else (s.exec a).map Prod.snd

/-! ## What is promised -/

/-- No index of the call is out of range, and a negative descriptor is reported as one without a
context and changes nothing. -/
def Handled (s : Descriptors) (a : FdCall) : Prop :=
  ∃ answer s', s.exec a = some (answer, s') ∧ (a.fd < 0 → answer = false ∧ s' = s)

/-- The descriptor is not negative, or the size of the table, as an `int`, is not above it. -/
def Found (size : ℕ) (fd : Int) : Prop := signed32 size ≤ fd ∨ 0 ≤ fd

/-- **The condition on a call**: a call that may make the table larger has a descriptor that is
not negative, and is not 0 or 1 when the table does become larger; the others have a descriptor
that is not negative or not below the size. -/
def InRange (s : Descriptors) : FdCall → Prop
  | .get fd true => fd = -1 ∨ FdManager.Reaches s.fds.datas.length fd
  | .get fd false => fd = -1 ∨ Found s.fds.datas.length fd
  | .del fd => Found s.fds.datas.length fd
  | .addEvent fd .. => FdManager.Reaches s.io.fdContexts.length fd
  | .delEvent fd .. | .cancelEvent fd .. | .cancelAll fd _ => Found s.io.fdContexts.length fd

/-- The descriptor is not negative; `get` also knows -1. -/
def Plain : FdCall → Prop
  | .get fd _ => -1 ≤ fd
  | .del fd | .addEvent fd .. | .delEvent fd .. | .cancelEvent fd .. | .cancelAll fd _ => 0 ≤ fd

variable {s s' : Descriptors} {fd : Int} {a : FdCall}

/-! ## One call -/

theorem isSome_index_of_found {α : Type} {v : List α} (hle : ¬ signed32 v.length ≤ fd) :
    (index v fd).isSome ↔ Found v.length fd := by
  have hlen := signed32_le v.length
  rw [isSome_index_iff, Found]
  exact ⟨fun h => .inr h.1, fun h => h.elim (fun h => absurd h hle) fun h => ⟨h, by omega⟩⟩

/-- A call that says no and changes nothing. -/
theorem handled_of_refused (h : s.exec a = some (false, s)) : Handled s a :=
  ⟨false, s, h, fun _ => ⟨rfl, rfl⟩⟩

/-- A call without an answer for a negative descriptor only has to be answered. -/
theorem handled_iff_isSome (hneg : a.fd < 0 → s.exec a = none) :
    Handled s a ↔ (s.exec a).isSome := by
  constructor
  · rintro ⟨answer, s', h, -⟩
    exact Option.isSome_of_eq_some h
  · intro h
    obtain ⟨r, hr⟩ := Option.isSome_iff_exists.mp h
    refine ⟨r.1, r.2, hr, fun hfd => ?_⟩
    rw [hneg hfd] at hr
    cases hr

theorem handled_get (auto_create : Bool) :
    Handled s (.get fd auto_create) ↔ InRange s (.get fd auto_create) := by
  by_cases hone : fd = -1
  · subst hone
    refine iff_of_true (handled_of_refused ?_) ?_
    · rw [exec, FdManager.get_minus_one]
      rfl
    · cases auto_create <;> exact .inl rfl
  have hexec : (s.exec (.get fd auto_create)).isSome = (s.fds.get fd auto_create).isSome := by
    rw [exec, Option.isSome_map]
  have hnone : ¬ (s.fds.get fd auto_create).isSome → s.exec (.get fd auto_create) = none := by
    rw [← hexec, Bool.not_eq_true, Option.isSome_eq_false_iff, Option.isNone_iff_eq_none]
    exact id
  by_cases hle : signed32 s.fds.datas.length ≤ fd
  · cases auto_create with
    | false =>
      refine iff_of_true (handled_of_refused ?_) (.inr (.inl hle))
      rw [exec, FdManager.get_false_of_le hone hle]
      rfl
    | true =>
      have hget := FdManager.get_true_of_le hone hle
      rw [handled_iff_isSome fun hneg => hnone fun h => ?_, hexec, hget]
      · exact ⟨.inr, fun h => h.resolve_left hone⟩
      · exact absurd (hget.mp h).1 (Int.not_le.mpr hneg)
  · have hget : (s.fds.get fd auto_create).isSome ↔ 0 ≤ fd :=
      FdManager.isSome_get_of_lt hone hle
    rw [handled_iff_isSome fun hneg => hnone fun h => absurd (hget.mp h) (Int.not_le.mpr hneg),
      hexec, hget]
    cases auto_create with
    | false => exact ⟨fun h => .inr (.inr h), fun h => (h.resolve_left hone).resolve_left hle⟩
    | true => exact ⟨fun h => .inr ⟨h, fun h' => absurd h' hle⟩, fun h => (h.resolve_left hone).1⟩

theorem handled_del : Handled s (.del fd) ↔ InRange s (.del fd) := by
  by_cases hle : signed32 s.fds.datas.length ≤ fd
  · refine iff_of_true (handled_of_refused ?_) (.inl hle)
    rw [exec, FdManager.del, if_pos hle]
    rfl
  · have hexec : s.exec (.del fd) = (index s.fds.datas fd).map fun _ =>
        (false, { s with fds := { s.fds with datas := s.fds.datas.set fd.toNat none } }) := by
      rw [exec, FdManager.del, if_neg hle, Option.map_map]
      rfl
    rw [handled_iff_isSome fun hneg => ?_, hexec, Option.isSome_map, isSome_index_of_found hle]
    · rfl
    · have hfd : fd < 0 := hneg
      rw [hexec, index_of_neg hfd, Option.map_none]

theorem handled_onContext (op : ℕ → Op) (accepted : Bool)
    (h : s.exec a = s.onContext a.fd op accepted) :
    Handled s a ↔ Found s.io.fdContexts.length a.fd := by
  by_cases hle : signed32 s.io.fdContexts.length ≤ a.fd
  · refine iff_of_true (handled_of_refused ?_) (.inl hle)
    rw [h, onContext, findContext, if_pos hle]
    rfl
  · have hfind : (s.exec a).isSome = (index s.io.fdContexts a.fd).isSome := by
      rw [h, onContext, findContext, if_neg hle, Option.isSome_map, Option.isSome_map]
    rw [handled_iff_isSome fun hneg => ?_, hfind, isSome_index_of_found hle]
    have hnone : (s.exec a).isSome = false := by
      rw [hfind, index_of_neg hneg, Option.isSome_none]
    simpa using hnone

theorem isSome_ensureContext_iff (m : IOManager) :
    (ensureContext fd m).isSome ↔ FdManager.Reaches m.fdContexts.length fd := by
  unfold ensureContext FdManager.Reaches
  by_cases hlt : fd < signed32 m.fdContexts.length
  · have hlen := signed32_le m.fdContexts.length
    rw [if_pos hlt, Option.isSome_map, isSome_index_iff]
    exact ⟨fun h => ⟨h.1, fun h' => absurd hlt (Int.not_lt.mpr h')⟩, fun h => ⟨h.1, by omega⟩⟩
  · rw [if_neg hlt, growth]
    by_cases hfd : 0 ≤ fd
    · rw [if_pos hfd, Option.bind_some, Option.isSome_map, isSome_index_iff, length_contextResize]
      omega
    · rw [if_neg hfd]
      exact iff_of_false Bool.false_ne_true fun h => hfd h.1

theorem handled_addEvent (event : Event) (cb : Bool) (scheduler : ℕ) (accepted : Bool) :
    Handled s (.addEvent fd event cb scheduler accepted) ↔
      InRange s (.addEvent fd event cb scheduler accepted) := by
  have hexec : (s.exec (.addEvent fd event cb scheduler accepted)).isSome =
      (ensureContext fd s.io).isSome := by
    rw [exec, Option.isSome_map]
  rw [handled_iff_isSome fun hneg => ?_, hexec, isSome_ensureContext_iff]
  · rfl
  · have hfd : fd < 0 := hneg
    have hout : ¬ (ensureContext fd s.io).isSome := fun h =>
      absurd ((isSome_ensureContext_iff s.io).mp h).1 (Int.not_le.mpr hfd)
    rw [← hexec] at hout
    simpa using hout

/-- **One call** is handled exactly if it meets the condition. -/
theorem handled_iff (s : Descriptors) (a : FdCall) : Handled s a ↔ InRange s a := by
  cases a with
  | get fd auto_create => exact handled_get auto_create
  | del fd => exact handled_del
  | addEvent fd event cb scheduler accepted => exact handled_addEvent event cb scheduler accepted
  | delEvent fd event accepted => exact handled_onContext (.delEvent · event) accepted rfl
  | cancelEvent fd event accepted => exact handled_onContext (.cancelEvent · event) accepted rfl
  | cancelAll fd accepted => exact handled_onContext .cancelAll accepted rfl

/-! ## Histories -/

/-- A program that has not aborted meets the condition. -/
def Alive (ok : Descriptors → FdCall → Prop) (s : Descriptors) (a : FdCall) : Prop :=
  s.io.aborted = false → ok s a

/-- The tables have their first size or more, and it is an `int`. -/
structure Sized (s : Descriptors) : Prop where
  fds_le : 2 ≤ s.fds.datas.length
  fds_lt : s.fds.datas.length < 2 ^ 31
  io_le : 2 ≤ s.io.fdContexts.length
  io_lt : s.io.fdContexts.length < 2 ^ 31

/-- A descriptor whose growth, to half as much again, is below 2^31. -/
def Small (a : FdCall) : Prop := a.fd < 1431655766

/-- The new size of a table that grows for a descriptor that is small. -/
theorem grown_lt {size : ℕ} (hle : 2 ≤ size) (hlt : size < 2 ^ 31) (hfd : fd < 1431655766)
    (hbeyond : signed32 size ≤ fd) :
    2 ≤ fd.toNat * 3 / 2 ∧ fd.toNat * 3 / 2 < 2 ^ 31 := by
  rw [signed32_of_lt hlt] at hbeyond
  omega

theorem Sized.fds (h : Sized s) {m : FdManager} (hle : 2 ≤ m.datas.length)
    (hlt : m.datas.length < 2 ^ 31) : Sized { s with fds := m } :=
  ⟨hle, hlt, h.io_le, h.io_lt⟩

theorem Sized.io (h : Sized s) {m m' : IOManager} (hm : 2 ≤ m.fdContexts.length)
    (hm' : m.fdContexts.length < 2 ^ 31) (hsame : SameTable m m') :
    Sized { s with io := m' } :=
  ⟨h.fds_le, h.fds_lt, hsame.1 ▸ hm, hsame.1 ▸ hm'⟩

theorem sameTable_underMutex (op : Op) (c : ℕ) (accepted : Bool) (io : IOManager) :
    SameTable io (underMutex op c accepted io).2 := by
  have hcalls : SameTable io { io with calls := io.calls + 1 } := ⟨rfl, rfl⟩
  exact hcalls.trans (sameTable_runLocked op io.calls c accepted)

theorem Sized.onContext (h : Sized s) {op : ℕ → Op} {accepted answer : Bool}
    (hexec : s.onContext fd op accepted = some (answer, s')) : Sized s' := by
  obtain ⟨found, -, heq⟩ := Option.map_eq_some_iff.mp hexec
  cases found with
  | none =>
    obtain ⟨-, rfl⟩ := Prod.mk.inj heq
    exact h
  | some c =>
    obtain ⟨-, rfl⟩ := Prod.mk.inj heq
    exact h.io h.io_le h.io_lt (sameTable_underMutex _ c accepted s.io)

theorem Sized.create (h : Sized s) (hsmall : fd < 1431655766) {ctx : ℕ} {m : FdManager}
    (hcreate : s.fds.create fd = some (ctx, m)) : Sized { s with fds := m } := by
  obtain ⟨-, -, -, rfl⟩ := FdManager.create_eq hcreate
  have hlen : (s.fds.grown fd).length = if signed32 s.fds.datas.length ≤ fd
      then fd.toNat * 3 / 2 else s.fds.datas.length := by
    rw [FdManager.grown]
    split_ifs
    · rw [length_resize]
    · rfl
  have hgrown : 2 ≤ (s.fds.grown fd).length ∧ (s.fds.grown fd).length < 2 ^ 31 := by
    rw [hlen]
    split_ifs with hbeyond
    · exact grown_lt h.fds_le h.fds_lt hsmall hbeyond
    · exact ⟨h.fds_le, h.fds_lt⟩
  refine h.fds ?_ ?_
  · rw [List.length_set]
    exact hgrown.1
  · rw [List.length_set]
    exact hgrown.2

/-- **A call with a small descriptor** leaves the sizes in their bounds. -/
theorem Sized.exec (h : Sized s) (hsmall : Small a) {answer : Bool}
    (hexec : s.exec a = some (answer, s')) : Sized s' := by
  cases a with
  | get fd auto_create =>
    obtain ⟨⟨ctx, m⟩, hget, heq⟩ := Option.map_eq_some_iff.mp hexec
    obtain ⟨-, rfl⟩ := Prod.mk.inj heq
    obtain ⟨looked, hlooked, hrest⟩ := Option.bind_eq_some_iff.mp hget
    cases looked with
    | returns ctx' =>
      obtain ⟨-, rfl⟩ := Prod.mk.inj (Option.some.inj hrest)
      exact h
    | creates =>
      obtain ⟨⟨ctx', m'⟩, hcreate, heq'⟩ := Option.map_eq_some_iff.mp hrest
      obtain ⟨-, rfl⟩ := Prod.mk.inj heq'
      exact h.create hsmall hcreate
  | del fd =>
    obtain ⟨m, hdel, heq⟩ := Option.map_eq_some_iff.mp hexec
    obtain ⟨-, rfl⟩ := Prod.mk.inj heq
    unfold FdManager.del at hdel
    split_ifs at hdel
    · obtain rfl := Option.some.inj hdel
      exact h
    · obtain ⟨x, -, rfl⟩ := Option.map_eq_some_iff.mp hdel
      refine h.fds ?_ ?_
      · rw [List.length_set]
        exact h.fds_le
      · rw [List.length_set]
        exact h.fds_lt
  | addEvent fd event cb scheduler accepted =>
    rw [Descriptors.exec] at hexec
    obtain ⟨⟨c, m⟩, hensure, heq⟩ := Option.map_eq_some_iff.mp hexec
    obtain ⟨-, rfl⟩ := Prod.mk.inj heq
    unfold ensureContext at hensure
    split_ifs at hensure with hlt
    · obtain ⟨x, -, heq'⟩ := Option.map_eq_some_iff.mp hensure
      obtain ⟨-, rfl⟩ := Prod.mk.inj heq'
      exact h.io h.io_le h.io_lt (sameTable_underMutex _ c accepted s.io)
    -- the descriptor lies beyond the table, so the table grows for it
    · obtain ⟨size, hsize, hmap⟩ := Option.bind_eq_some_iff.mp hensure
      obtain ⟨x, -, heq'⟩ := Option.map_eq_some_iff.mp hmap
      obtain ⟨-, rfl⟩ := Prod.mk.inj heq'
      have hgrown := grown_lt h.io_le h.io_lt hsmall (Int.not_lt.mp hlt)
      have hsize' : size = fd.toNat * 3 / 2 := by
        unfold growth at hsize
        split_ifs at hsize
        exact (Option.some.inj hsize).symm
      have hlen : (contextResize size s.io).fdContexts.length = fd.toNat * 3 / 2 := by
        rw [length_contextResize, hsize']
      refine h.io ?_ ?_ (sameTable_underMutex _ c accepted _)
      · rw [hlen]
        exact hgrown.1
      · rw [hlen]
        exact hgrown.2
  | delEvent fd event accepted =>
    rw [Descriptors.exec] at hexec
    exact h.onContext hexec
  | cancelEvent fd event accepted =>
    rw [Descriptors.exec] at hexec
    exact h.onContext hexec
  | cancelAll fd accepted =>
    rw [Descriptors.exec] at hexec
    exact h.onContext hexec

/-- In tables of ordinary size only the sign of the descriptor matters. -/
theorem Sized.inRange_iff (h : Sized s) (a : FdCall) : InRange s a ↔ Plain a := by
  have hreaches : ∀ {size : ℕ} {fd : Int}, 2 ≤ size → size < 2 ^ 31 →
      (FdManager.Reaches size fd ↔ 0 ≤ fd) := by
    intro size fd hle hlt
    rw [FdManager.Reaches, signed32_of_lt hlt]
    omega
  have hfound : ∀ {size : ℕ} {fd : Int}, size < 2 ^ 31 → (Found size fd ↔ 0 ≤ fd) := by
    intro size fd hlt
    rw [Found, signed32_of_lt hlt]
    omega
  cases a with
  | get fd auto_create =>
    cases auto_create with
    | false =>
      rw [InRange, hfound h.fds_lt, Plain]
      omega
    | true =>
      rw [InRange, hreaches h.fds_le h.fds_lt, Plain]
      omega
  | del fd => exact hfound h.fds_lt
  | addEvent fd event cb scheduler accepted => exact hreaches h.io_le h.io_lt
  | delEvent fd event accepted => exact hfound h.io_lt
  | cancelEvent fd event accepted => exact hfound h.io_lt
  | cancelAll fd accepted => exact hfound h.io_lt

theorem sized_start : Sized start where
  fds_le := by decide
  fds_lt := by decide
  io_le := by
    rw [start, IOManager.new, length_contextResize]
    decide
  io_lt := by
    rw [start, IOManager.new, length_contextResize]
    decide

/-- **All indices in range**: every call of a history is handled exactly if every call meets the
condition; and when no descriptor is so large that the size of a table is no `int`, exactly if
no descriptor is negative, but for a `get` of -1. -/
theorem all_in_range_iff (as : List FdCall) :
    (machine.Meets (Alive Handled) start as ↔ machine.Meets (Alive InRange) start as) ∧
    ((∀ a ∈ as, Small a) → (machine.Meets (Alive Handled) start as ↔
      machine.Meets (Alive fun _ => Plain) start as)) := by
  have hstep : ∀ (s : Descriptors) (a : FdCall) (t : Descriptors), Small a → Sized s →
      machine.step s a = some t → Sized t := by
    intro s a t hsmall hsized h
    unfold machine at h
    dsimp only at h
    split_ifs at h
    obtain ⟨⟨answer, t'⟩, hexec, rfl⟩ := Option.map_eq_some_iff.mp h
    exact hsized.exec hsmall hexec
  constructor
  · have hok : ∀ s a, Alive Handled s a ↔ Alive InRange s a := fun s a =>
      imp_congr_right fun _ => handled_iff s a
    rw [funext₂ fun s a => propext (hok s a)]
  · intro hsmall
    refine Machine.meets_congr hstep (fun s a _ hsized => ?_) hsmall sized_start
    exact imp_congr_right fun _ => (handled_iff s a).trans (hsized.inRange_iff a)

/-- `cancelAll` of a closed socket, `get` of -2 and `del` of -1 have an index out of range. -/
theorem out_of_range : ¬ machine.Meets (Alive Handled) start [.cancelAll (-1) true] ∧
    ¬ machine.Meets (Alive Handled) start [.get (-2) true] ∧
    ¬ machine.Meets (Alive Handled) start [.del (-1)] := by
  have hplain : ∀ a, machine.Meets (Alive Handled) start [a] → Plain a := fun a h =>
    (sized_start.inRange_iff a).mp ((handled_iff start a).mp (h.1 rfl))
  refine ⟨fun h => ?_, fun h => ?_, fun h => ?_⟩
  · exact absurd (hplain _ h) (by decide : ¬ (0 : Int) ≤ -1)
  · exact absurd (hplain _ h) (by decide : ¬ (-1 : Int) ≤ -2)
  · exact absurd (hplain _ h) (by decide : ¬ (0 : Int) ≤ -1)

end Descriptors

end IOManager

end Sylar

import Mathlib.Data.List.GetD
import Sylar.Fd.Model

/-!
# The two non-blocking flags

A socket that the hooks know is to be non-blocking in the kernel, whatever its user asked for, and
`F_GETFL` is to show what the user asked for. `FdCtx::init` sets the flag in the kernel, `F_SETFL`
adds it to what it passes on, and `F_GETFL` replaces it in what it returns. `ioctl(FIONBIO)` keeps
the user's value as well, and then passes it on as it is: a user who asks for a blocking socket
gets one, and the next hooked call runs its function on a descriptor that blocks, and the thread
with it.

## Main definitions

* `note`: what the user asked for, as a history of the run
* `Separated`: the user's flag is shown, and the kernel's is set
* `Spares`: the condition on a call

## Main results

* `Inv.step`: the table, the kernel and the history agree after every call
* `separated_iff`: a run keeps the flags apart exactly if `FIONBIO` never asks for a blocking socket
-/

namespace Sylar

open Foundation

namespace Fd

/-- Whether the user asked for a non-blocking descriptor last; a new one was not asked for. -/
def note (_ : Process) (a : Action) (asked : Int → Bool) : Int → Bool :=
  match a with
  | .socket fd _ => Function.update asked fd false
  | .setfl fd arg => Function.update asked fd (nonblock arg)
  | .fionbio fd v => Function.update asked fd (decide (v ≠ 0))
  | _ => asked

/-- **The flags are kept apart**, for every socket that the hooks know: `F_GETFL` shows the user's
flag, the kernel's is set, and no hooked call blocks its thread. -/
def Separated (s : Process × (Int → Bool)) : Prop :=
  ∀ fd ctx, s.1.ctx fd = some ctx → ctx.isSocket = true →
    (∃ arg, s.1.fcntlGetfl fd = some arg ∧ nonblock arg = s.2 fd) ∧
    (∃ file, s.1.files fd = some file ∧ nonblock file.flags = true) ∧ ¬ s.1.MayBlock fd

/-- `FIONBIO` does not ask for a blocking socket that the hooks know. -/
def Spares (s : Process) (a : Action) : Prop :=
  ∀ fd, a = .fionbio fd 0 → ∀ ctx, s.ctx fd = some ctx → ctx.isSocket = false

/-! ## Steps -/

/-- What the table has for a descriptor agrees with the kernel and with what the user asked for. -/
structure Agrees (ctx : Option FdCtx) (file : Option File) (asked : Bool) (fd : Int) : Prop where
  opened : ctx.isSome → file.isSome
  fd_eq : ∀ c ∈ ctx, c.fd = fd
  socket : ∀ c ∈ ctx, c.isSocket = true ∧ c.isClosed = false ∧ c.sysNonblock = true
  user : ∀ c ∈ ctx, c.userNonblock = asked

/-- The invariant of a run. -/
structure Inv (s : Process × (Int → Bool)) : Prop where
  length : 64 ≤ s.1.datas.length
  agrees : ∀ fd, Agrees (s.1.ctx fd) (s.1.files fd) (s.2 fd) fd

/-- The kernel's flag of a descriptor that the hooks know is set. -/
def Nonblocking (ctx : Option FdCtx) (file : Option File) : Prop :=
  ctx.isSome → ∀ f ∈ file, nonblock f.flags = true

variable {s t : Process} {asked : Int → Bool} {fd : Int} {c : FdCtx} {a : Action}
  {flags arg : BitVec 32}

theorem get_false (s : Process) (fd : Int) :
    s.get fd false = if fd < -1 then none else some (s.ctx fd, s) := by
  unfold Process.get Process.ctx
  by_cases hone : fd = -1
  · subst hone
    simp
  by_cases hneg : fd < 0
  · rw [if_neg hone, if_neg (by omega), if_pos hneg, if_pos (by omega)]
  · rw [if_neg hone, if_neg (show ¬ fd < -1 by omega), if_pos (Int.not_lt.mp hneg)]
    by_cases hlen : (s.datas.length : Int) ≤ fd
    · rw [if_pos ⟨hlen, rfl⟩, List.getD_eq_default _ _ (by omega)]
    · rw [if_neg (fun h => hlen h.1), if_neg hneg]
      cases s.datas.getD fd.toNat none <;> rfl

theorem ctx_eq_some (h : s.ctx fd = some c) :
    0 ≤ fd ∧ fd.toNat < s.datas.length ∧ s.datas.getD fd.toNat none = some c := by
  unfold Process.ctx at h
  split_ifs at h with hpos
  refine ⟨hpos, ?_, h⟩
  by_contra hlen
  rw [List.getD_eq_default _ _ (Nat.not_lt.mp hlen)] at h
  cases h

/-- The table with another entry for a descriptor. -/
theorem ctx_set (hpos : 0 ≤ fd) {datas : List (Option FdCtx)} (hlen : fd.toNat < datas.length)
    (ctx : Option FdCtx) (files : Files) (fd' : Int) :
    Process.ctx ⟨files, datas.set fd.toNat ctx⟩ fd' =
      if fd' = fd then ctx else Process.ctx ⟨files, datas⟩ fd' := by
  unfold Process.ctx
  split_ifs with h heq heq
  · subst heq
    rw [List.getD_eq_getElem _ _ (by rwa [List.length_set]), List.getElem_set_self]
  · rw [List.getD_eq_getElem?_getD, List.getElem?_set_ne (by omega), List.getD_eq_getElem?_getD]
  · omega
  · rfl

theorem ctx_setCtx (h : s.ctx fd = some c) (c' : FdCtx) (hfd : c'.fd = fd) (fd' : Int) :
    (s.setCtx c').ctx fd' = if fd' = fd then some c' else s.ctx fd' := by
  obtain ⟨hpos, hlen, -⟩ := ctx_eq_some h
  rw [Process.setCtx, hfd]
  exact ctx_set hpos hlen _ _ _

theorem ctx_resize {n : ℕ} (hn : s.datas.length ≤ n) (files : Files) (fd' : Int) :
    Process.ctx ⟨files, (s.datas ++ List.replicate n none).take n⟩ fd' = s.ctx fd' := by
  unfold Process.ctx
  split_ifs
  · simp only [List.getD_eq_getElem?_getD, List.getElem?_take]
    by_cases hin : fd'.toNat < s.datas.length
    · rw [if_pos (by omega), List.getElem?_append_left hin]
    · rw [List.getElem?_eq_none (Nat.not_lt.mp hin)]
      split_ifs
      · rw [List.getElem?_append_right (Nat.not_lt.mp hin), List.getElem?_replicate]
        split_ifs <;> rfl
      · rfl
  · rfl

theorem length_setCtx : (s.setCtx c).datas.length = s.datas.length := List.length_set ..

theorem modify_self (files : Files) (fd : Int) (f : BitVec 32 → BitVec 32) :
    files.modify fd f fd = (files fd).map fun file => { file with flags := f file.flags } :=
  Function.update_self ..

theorem modify_of_ne {fd' : Int} (h : fd' ≠ fd) (files : Files) (f : BitVec 32 → BitVec 32) :
    files.modify fd f fd' = files fd' :=
  Function.update_of_ne h _ _

/-- What a call does: only one descriptor is touched; there the table agrees with the history
again, and the kernel's flag is still set exactly if the call spares it. -/
structure Touches (s t : Process) (a : Action) (asked : Int → Bool) (fd : Int) : Prop where
  frame : ∀ fd' ≠ fd, t.ctx fd' = s.ctx fd' ∧ t.files fd' = s.files fd' ∧
    note s a asked fd' = asked fd'
  length : 64 ≤ t.datas.length
  agrees : Agrees (t.ctx fd) (t.files fd) (note s a asked fd) fd
  flag : Nonblocking (s.ctx fd) (s.files fd) →
    (Nonblocking (t.ctx fd) (t.files fd) ↔ Spares s a)

/-- A descriptor that the hooks do not know. -/
theorem Agrees.none {file : Option File} {b : Bool} : Agrees none file b fd where
  opened := by
    intro h
    cases h
  fd_eq := by
    intro c hc
    cases hc
  socket := by
    intro c hc
    cases hc
  user := by
    intro c hc
    cases hc

/-- The context of a socket passes the tests of the hooks. -/
theorem Agrees.socketCtx {file : Option File} {b : Bool} (h : Agrees (some c) file b fd) :
    Process.socketCtx (some c) = some c := by
  obtain ⟨hsocket, hclosed, -⟩ := h.socket c rfl
  simp [Process.socketCtx, hsocket, hclosed]

theorem Inv.ctx (inv : Inv (s, asked)) (h : s.ctx fd = some c) :
    Agrees (some c) (s.files fd) (asked fd) fd := h ▸ inv.agrees fd

/-- A call that changes the flags of a descriptor and, if the hooks know it as a socket, the user's
flag in its context. -/
theorem Touches.modify (inv : Inv (s, asked)) (f : BitVec 32 → BitVec 32) (user : Bool)
    (hfiles : t.files = s.files.modify fd f)
    (hctx : ∀ fd', t.ctx fd' =
      if fd' = fd then (s.ctx fd).map fun c => { c with userNonblock := user } else s.ctx fd')
    (hlength : t.datas.length = s.datas.length)
    (hnote : note s a asked = Function.update asked fd user)
    (hsome : ∀ c, s.ctx fd = some c → ∀ x, nonblock (f x) = true ↔ Spares s a)
    (hnone : s.ctx fd = none → Spares s a) : Touches s t a asked fd where
  frame := by
    intro fd' hne
    rw [hctx, if_neg hne, hfiles, modify_of_ne hne, hnote, Function.update_of_ne hne]
    exact ⟨rfl, rfl, rfl⟩
  length := hlength ▸ inv.length
  agrees := by
    have hold := inv.agrees fd
    rw [hctx, if_pos rfl, hfiles, modify_self, hnote, Function.update_self]
    refine ⟨?_, ?_, ?_, ?_⟩
    · intro h
      rw [Option.isSome_map] at h ⊢
      exact hold.opened h
    · intro c hc
      obtain ⟨c₀, hc₀, rfl⟩ := Option.map_eq_some_iff.mp hc
      exact hold.fd_eq c₀ hc₀
    · intro c hc
      obtain ⟨c₀, hc₀, rfl⟩ := Option.map_eq_some_iff.mp hc
      exact hold.socket c₀ hc₀
    · intro c hc
      obtain ⟨c₀, -, rfl⟩ := Option.map_eq_some_iff.mp hc
      rfl
  flag := by
    intro hflag
    rw [hctx, if_pos rfl, hfiles, modify_self]
    cases hc : s.ctx fd with
    | none => exact iff_of_true (fun h => by cases h) (hnone hc)
    | some c =>
      obtain ⟨file, hfile⟩ := Option.isSome_iff_exists.mp ((inv.ctx hc).opened rfl)
      rw [hfile, ← hsome c hc file.flags]
      constructor
      · intro h
        exact h rfl _ rfl
      · intro h _ g hg
        obtain rfl := Option.some.inj hg
        exact h

/-- Nothing is touched. -/
theorem Touches.rfl (inv : Inv (s, asked)) (hnote : note s a asked = asked)
    (hspares : Spares s a) (fd : Int) : Touches s s a asked fd where
  frame := fun _ _ => ⟨Eq.refl _, Eq.refl _, congrFun hnote _⟩
  length := inv.length
  agrees := by
    rw [hnote]
    exact inv.agrees fd
  flag := fun h => iff_of_true h hspares

theorem spares_of_ne (h : ∀ fd, a ≠ .fionbio fd 0) : Spares s a := fun fd ha => absurd ha (h fd)

/-- The lookup of a hook that goes on. -/
theorem eq_of_get {r : Option FdCtx × Process} (h : s.get fd false = some r) :
    r = (s.ctx fd, s) := by
  rw [get_false] at h
  split_ifs at h
  exact (Option.some.inj h).symm

theorem touches_setfl (inv : Inv (s, asked)) (h : s.fcntlSetfl fd arg = some t) :
    Touches s t (.setfl fd arg) asked fd := by
  have hspares : Spares s (.setfl fd arg) := spares_of_ne fun _ h => by cases h
  obtain ⟨r, hr, rfl⟩ := Option.map_eq_some_iff.mp h
  obtain rfl := eq_of_get hr
  cases hc : s.ctx fd with
  | none =>
    simp only [Process.socketCtx, Option.filter_none, Files.setfl]
    refine .modify inv (fun flags => flags &&& ~~~setflMask ||| arg &&& setflMask)
      (nonblock arg) rfl ?_ rfl rfl ?_ fun _ => hspares
    · intro fd'
      by_cases heq : fd' = fd
      · rw [if_pos heq, heq, hc]
        exact hc
      · rw [if_neg heq]
        rfl
    · intro c hc'
      rw [hc] at hc'
      cases hc'
  | some c =>
    have hagrees := inv.ctx hc
    simp only [hagrees.socketCtx, if_pos (hagrees.socket c rfl).2.2, Files.setfl]
    refine .modify inv
      (fun flags => flags &&& ~~~setflMask ||| (arg ||| O_NONBLOCK) &&& setflMask)
      (nonblock arg) rfl ?_ length_setCtx rfl ?_ fun _ => hspares
    · intro fd'
      rw [hc]
      exact ctx_setCtx hc { c with userNonblock := nonblock arg } (hagrees.fd_eq c rfl) fd'
    · intro c' _ x
      exact iff_of_true (nonblock_mask.trans nonblock_or) hspares

theorem touches_fionbio (inv : Inv (s, asked)) {v : BitVec 32}
    (h : s.ioctlFionbio fd v = some t) : Touches s t (.fionbio fd v) asked fd := by
  obtain ⟨r, hr, rfl⟩ := Option.map_eq_some_iff.mp h
  obtain rfl := eq_of_get hr
  have hnone : s.ctx fd = none → Spares s (.fionbio fd v) := by
    rintro hc fd' ha c hc'
    obtain ⟨rfl, -⟩ := Action.fionbio.inj ha
    rw [hc] at hc'
    cases hc'
  cases hc : s.ctx fd with
  | none =>
    simp only [Process.socketCtx, Option.filter_none, Files.fionbio]
    refine .modify inv
      (fun flags => if v = 0 then flags &&& ~~~O_NONBLOCK else flags ||| O_NONBLOCK)
      (decide (v ≠ 0)) rfl ?_ rfl rfl ?_ hnone
    · intro fd'
      by_cases heq : fd' = fd
      · rw [if_pos heq, heq, hc]
        exact hc
      · rw [if_neg heq]
        rfl
    · intro c hc'
      rw [hc] at hc'
      cases hc'
  | some c =>
    have hagrees := inv.ctx hc
    simp only [hagrees.socketCtx, Files.fionbio]
    refine .modify inv
      (fun flags => if v = 0 then flags &&& ~~~O_NONBLOCK else flags ||| O_NONBLOCK)
      (decide (v ≠ 0)) rfl ?_ length_setCtx rfl ?_ hnone
    · intro fd'
      rw [hc]
      exact ctx_setCtx hc { c with userNonblock := decide (v ≠ 0) } (hagrees.fd_eq c rfl) fd'
    · -- the user's value goes to the kernel as it is
      intro c' hc' x
      obtain rfl := Option.some.inj (hc.symm.trans hc')
      by_cases hv : v = 0
      · simp only [if_pos hv, nonblock_and]
        refine iff_of_false (by simp) fun h => ?_
        have hsocket := h fd (by rw [hv]) c hc
        rw [(hagrees.socket c rfl).1] at hsocket
        cases hsocket
      · simp only [if_neg hv, nonblock_or]
        refine iff_of_true trivial fun fd' ha => ?_
        exact absurd (Action.fionbio.inj ha).2 hv

/-- A call after which the hooks do not know its descriptor. -/
theorem Touches.forget (inv : Inv (s, asked)) {file : Option File}
    (hfiles : t.files = Function.update s.files fd file)
    (hctx : ∀ fd', t.ctx fd' = if fd' = fd then none else s.ctx fd')
    (hlength : t.datas.length = s.datas.length) (hnote : note s a asked = asked)
    (hspares : Spares s a) : Touches s t a asked fd where
  frame := by
    intro fd' hne
    rw [hctx, if_neg hne, hfiles, Function.update_of_ne hne, hnote]
    exact ⟨Eq.refl _, Eq.refl _, Eq.refl _⟩
  length := hlength ▸ inv.length
  agrees := by
    rw [hctx, if_pos (Eq.refl _)]
    exact .none
  flag := by
    intro _
    rw [hctx, if_pos (Eq.refl _)]
    exact iff_of_true (fun h => by cases h) hspares

theorem touches_close (inv : Inv (s, asked)) (h : s.close fd = some t) :
    Touches s t (.close fd) asked fd := by
  have hspares : Spares s (.close fd) := spares_of_ne fun _ h => by cases h
  obtain ⟨r, hr, hclose⟩ := Option.bind_eq_some_iff.mp h
  obtain rfl := eq_of_get hr
  obtain ⟨u, hu, rfl⟩ := Option.map_eq_some_iff.mp hclose
  cases hc : s.ctx fd with
  | none =>
    rw [hc] at hu
    obtain rfl := Option.some.inj hu
    refine .forget inv rfl (fun fd' => ?_) rfl rfl hspares
    by_cases heq : fd' = fd
    · rw [if_pos heq, heq]
      exact hc
    · rw [if_neg heq]
      rfl
  | some c =>
    obtain ⟨hpos, hlen, -⟩ := ctx_eq_some hc
    rw [hc, Option.isSome_some, if_pos rfl, Process.del, if_neg (by omega), if_neg (by omega)] at hu
    obtain rfl := Option.some.inj hu
    exact .forget inv rfl (ctx_set hpos hlen none _) (List.length_set ..) rfl hspares

/-- A descriptor that is not open is not known. -/
theorem Inv.ctx_eq_none (inv : Inv (s, asked)) (h : s.files fd = none) : s.ctx fd = none := by
  cases hc : s.ctx fd with
  | none => rfl
  | some c =>
    have hopened := (inv.ctx hc).opened rfl
    rw [h] at hopened
    cases hopened

theorem touches_openFile (inv : Inv (s, asked)) {file : File} (h : s.openFile fd file = some t) :
    Touches s t (.openFile fd file) asked fd := by
  unfold Process.openFile at h
  split_ifs at h with hnew
  obtain rfl := Option.some.inj h
  refine .forget inv rfl (fun fd' => ?_) rfl rfl (spares_of_ne fun _ h => by cases h)
  by_cases heq : fd' = fd
  · rw [if_pos heq, heq]
    exact inv.ctx_eq_none hnew.2
  · rw [if_neg heq]
    rfl

/-- The context of a new socket, and the kernel's flag behind it. -/
theorem init_socket (files : Files) (fd : Int) (flags : BitVec 32) :
    ∃ flags', nonblock flags' = true ∧
      FdCtx.init { fd := fd } (Function.update files fd (some ⟨true, flags⟩)) =
        ({ fd := fd, isInit := true, isSocket := true, sysNonblock := true },
          Function.update files fd (some ⟨true, flags'⟩)) := by
  cases hflag : nonblock flags with
  | true =>
    refine ⟨flags, hflag, ?_⟩
    simp [FdCtx.init, Files.getfl, hflag]
  | false =>
    refine ⟨flags &&& ~~~setflMask ||| (flags ||| O_NONBLOCK) &&& setflMask, by simp, ?_⟩
    simp [FdCtx.init, Files.getfl, Files.setfl, Files.modify, hflag]

theorem touches_socket (inv : Inv (s, asked)) (h : s.socket fd flags = some t) :
    Touches s t (.socket fd flags) asked fd := by
  unfold Process.socket at h
  split_ifs at h with hnew
  obtain ⟨hpos, hfile⟩ := hnew
  have hlength : 64 ≤ s.datas.length := inv.length
  have hctx := inv.ctx_eq_none hfile
  rw [Process.ctx, if_pos hpos] at hctx
  obtain ⟨flags', hflag, hinit⟩ := init_socket s.files fd flags
  rw [Process.get, if_neg (by omega), if_neg (by simp), if_neg (by omega)] at h
  simp only [hctx, hinit, Bool.true_eq_false, if_false] at h
  -- the table after it has grown for the descriptor
  generalize hdatas : (if (s.datas.length : Int) ≤ fd then
      (s.datas ++ List.replicate (fd.toNat * 3 / 2) none).take (fd.toNat * 3 / 2)
    else s.datas) = datas at h
  have hgrown : s.datas.length ≤ datas.length ∧
      ∀ files fd', Process.ctx ⟨files, datas⟩ fd' = s.ctx fd' := by
    rw [← hdatas]
    split_ifs with hle
    · refine ⟨?_, ctx_resize (by omega)⟩
      rw [List.length_take, List.length_append, List.length_replicate]
      omega
    · exact ⟨Nat.le_refl _, fun _ _ => rfl⟩
  split_ifs at h with hlen
  swap
  · cases h
  simp only [Option.map_some, Option.some.injEq] at h
  subst h
  have htable := ctx_set hpos hlen
    (some { fd := fd, isInit := true, isSocket := true, sysNonblock := true })
    (Function.update s.files fd (some ⟨true, flags'⟩))
  have hself : ∀ datas, Process.files ⟨Function.update s.files fd (some ⟨true, flags'⟩), datas⟩ fd =
      some ⟨true, flags'⟩ := fun _ => Function.update_self ..
  have hnote : note s (.socket fd flags) asked fd = false := Function.update_self ..
  refine ⟨?_, ?_, ?_, ?_⟩
  · intro fd' hne
    refine ⟨?_, Function.update_of_ne hne _ _, Function.update_of_ne hne _ _⟩
    rw [htable, if_neg hne, hgrown.2]
  · rw [List.length_set]
    omega
  · rw [htable, if_pos rfl, hself, hnote]
    refine ⟨fun _ => rfl, ?_, ?_, ?_⟩
    · rintro c hc
      obtain rfl := Option.some.inj hc
      rfl
    · rintro c hc
      obtain rfl := Option.some.inj hc
      exact ⟨rfl, rfl, rfl⟩
    · rintro c hc
      obtain rfl := Option.some.inj hc
      rfl
  · intro _
    rw [hself]
    refine iff_of_true (fun _ f hf => ?_) (spares_of_ne fun _ h => by cases h)
    obtain rfl := Option.some.inj hf
    exact hflag

/-- **One call** touches one descriptor. -/
theorem touches_step (inv : Inv (s, asked)) (h : machine.step s a = some t) :
    ∃ fd, Touches s t a asked fd := by
  cases a with
  | socket fd flags => exact ⟨fd, touches_socket inv h⟩
  | openFile fd file => exact ⟨fd, touches_openFile inv h⟩
  | close fd => exact ⟨fd, touches_close inv h⟩
  | setfl fd arg => exact ⟨fd, touches_setfl inv h⟩
  | getfl fd =>
    obtain ⟨-, -, rfl⟩ := Option.map_eq_some_iff.mp h
    exact ⟨fd, .rfl inv rfl (spares_of_ne fun _ h => by cases h) fd⟩
  | fionbio fd v => exact ⟨fd, touches_fionbio inv h⟩

/-! ## The flags along a run -/

theorem Inv.step (inv : Inv (s, asked)) (h : machine.step s a = some t) :
    Inv (t, note s a asked) := by
  obtain ⟨fd, htouches⟩ := touches_step inv h
  refine ⟨htouches.length, fun fd' => ?_⟩
  by_cases heq : fd' = fd
  · rw [heq]
    exact htouches.agrees
  · obtain ⟨hctx, hfile, hasked⟩ := htouches.frame fd' heq
    simp only [hctx, hfile, hasked]
    exact inv.agrees fd'

theorem inv_new : Inv ({}, fun _ => false) := by
  have hctx : ∀ fd, Process.ctx {} fd = none := by
    intro fd
    unfold Process.ctx
    split_ifs
    · rw [List.getD_eq_getElem?_getD, List.getElem?_replicate]
      split_ifs <;> rfl
    · rfl
  refine ⟨by simp, fun fd => ?_⟩
  rw [hctx]
  exact .none

/-- `F_GETFL` shows what the user asked for, whatever the kernel has. -/
theorem Inv.getfl (inv : Inv (s, asked)) (hc : s.ctx fd = some c) :
    ∃ arg, s.fcntlGetfl fd = some arg ∧ nonblock arg = asked fd := by
  have hagrees := inv.ctx hc
  obtain ⟨hpos, -⟩ := ctx_eq_some hc
  have hget : s.get fd false = some (some c, s) := by
    rw [get_false, if_neg (by omega), hc]
  refine ⟨_, by rw [Process.fcntlGetfl, hget]; rfl, ?_⟩
  simp only [hagrees.socketCtx]
  rw [← hagrees.user c rfl]
  cases c.userNonblock
  · exact nonblock_and
  · exact nonblock_or

/-- With the invariant, the flags are apart exactly if the kernel's are set. -/
theorem separated_iff_nonblocking (inv : Inv (s, asked)) :
    Separated (s, asked) ↔ ∀ fd, Nonblocking (s.ctx fd) (s.files fd) := by
  constructor
  · intro h fd hsome f hf
    obtain ⟨c, hc⟩ := Option.isSome_iff_exists.mp hsome
    obtain ⟨-, ⟨file, hfile, hflag⟩, -⟩ := h fd c hc ((inv.ctx hc).socket c rfl).1
    obtain rfl := Option.some.inj (hfile.symm.trans hf)
    exact hflag
  · intro h fd c hc _
    obtain ⟨file, hfile⟩ := Option.isSome_iff_exists.mp ((inv.ctx hc).opened rfl)
    have hflag := h fd (by rw [hc]; rfl) file hfile
    refine ⟨inv.getfl hc, ⟨file, hfile, hflag⟩, ?_⟩
    rintro ⟨-, hblock⟩
    rw [Files.getfl, hfile, Option.map_some, Option.getD_some, hflag] at hblock
    cases hblock

theorem separated_step (inv : Inv (s, asked)) (hs : Separated (s, asked))
    (h : machine.step s a = some t) : Separated (t, note s a asked) ↔ Spares s a := by
  rw [separated_iff_nonblocking inv] at hs
  rw [separated_iff_nonblocking (inv.step h)]
  obtain ⟨fd, htouches⟩ := touches_step inv h
  constructor
  · intro ht
    exact (htouches.flag (hs fd)).mp (ht fd)
  · intro hspares fd'
    by_cases heq : fd' = fd
    · rw [heq]
      exact (htouches.flag (hs fd)).mpr hspares
    · obtain ⟨hctx, hfile, -⟩ := htouches.frame fd' heq
      rw [hctx, hfile]
      exact hs fd'

/-- **The flags along a run**: they are kept apart in every state exactly if no call of `ioctl` asks
for a blocking socket that the hooks know. -/
theorem separated_iff {as : List Action} {s : Process × (Int → Bool)}
    (hrun : (machine.observe note).run ({}, fun _ => false) as = some s) :
    (machine.observe note).Keeps Separated ({}, fun _ => false) as ↔
      machine.Meets Spares {} as := by
  have hseparated : Separated ({}, fun _ => false) := by
    rw [separated_iff_nonblocking inv_new]
    intro fd _ f hf
    cases hf
  have hobserve : (machine.observe note).Meets (fun c a => Spares c.1 a) ({}, fun _ => false) as ↔
      machine.Meets Spares {} as := Machine.meets_observe
  rw [← hobserve]
  refine Machine.keeps_iff_meets (I := Inv) ?_ ?_ inv_new hseparated hrun
  · rintro ⟨s, asked⟩ a ⟨t, asked'⟩ inv hstep
    obtain ⟨hstep, rfl⟩ := Machine.observe_step.mp hstep
    exact inv.step hstep
  · rintro ⟨s, asked⟩ a ⟨t, asked'⟩ inv hs hstep
    obtain ⟨hstep, rfl⟩ := Machine.observe_step.mp hstep
    exact separated_step inv hs hstep

/-- A socket that its user makes non-blocking, asks, and makes blocking again. -/
theorem separated_iff_setfl :
    let as := [.socket 3 2, .fionbio 3 1, .getfl 3, .setfl 3 2]
    (∃ s, (machine.observe note).run ({}, fun _ => false) as = some s ∧
      s.1.fcntlGetfl 3 = some 2) ∧
    ((machine.observe note).Keeps Separated ({}, fun _ => false) as ↔
      machine.Meets Spares {} as) := by
  refine ⟨⟨_, rfl, by decide⟩, separated_iff rfl⟩

/-- `FIONBIO` with 0: the kernel's flag is gone, and a hooked call blocks its thread. -/
theorem fionbio_blocks :
    ∃ s, (machine.observe note).run ({}, fun _ => false) [.socket 3 2, .fionbio 3 0] = some s ∧
      ¬ Separated s ∧ s.1.MayBlock 3 := by
  refine ⟨_, rfl, fun h => ?_, rfl, rfl⟩
  exact (h 3 _ rfl rfl).2.2 ⟨rfl, rfl⟩

end Fd

end Sylar

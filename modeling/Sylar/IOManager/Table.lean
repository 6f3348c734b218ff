import Sylar.IOManager.Idle

/-!
# The table of contexts

`addEvent` looks at the size of the table under the read lock and resizes it under the write lock,
to half as much again as the file descriptor, without a second look. The table lasts exactly as
long as no other call has made it larger than that in between.

## Main definitions

* `Lasts`: between two states of a run the table has lost nothing
* `Idle.Grows`: a resize makes the table no smaller

## Main results

* `table_lasts_iff`: the table lasts all along a run exactly if every resize makes it no smaller
-/

namespace Sylar

open Foundation

namespace IOManager

variable {m m' m₁ m₂ : IOManager} {c k : ℕ} {e : Event} {op : Op} {s s' : Idle}

/-- **The table lasts**: it gets no smaller, the index of every lookup stays in range, and a file
descriptor whose `addEvent` succeeds keeps its context. -/
structure Lasts (m₁ m₂ : IOManager) : Prop where
  size : m₁.fdContexts.length ≤ m₂.fdContexts.length
  range : ∀ t op k c, m₁.threads t = .locked op k c → op.fd < m₂.fdContexts.length
  context : ∀ t fd e cb scheduler k c accepted,
    m₁.threads t = .locked (.addEvent fd e cb scheduler) k c →
    (runLocked (.addEvent fd e cb scheduler) k c accepted m₁).1 = true →
    m₂.fdContexts[fd]? = some c

/-! ## One step -/

/-- The lookups of the calls in flight are those of the table. -/
def Located (m : IOManager) : Prop :=
  ∀ t op k c, m.threads t = .locked op k c → m.fdContexts[op.fd]? = some c

theorem Located.lasts (h : m₁.Located) (hgrows : m₁.fdContexts <+: m₂.fdContexts) :
    Lasts m₁ m₂ := by
  have hfound : ∀ t op k c, m₁.threads t = .locked op k c → m₂.fdContexts[op.fd]? = some c := by
    intro t op k c ht
    obtain ⟨more, hmore⟩ := hgrows
    have hc := h t op k c ht
    obtain ⟨hlt, -⟩ := List.getElem?_eq_some_iff.mp hc
    rw [← hmore, List.getElem?_append_left hlt, hc]
  refine ⟨hgrows.length_le, fun t op k c ht => ?_, fun t fd e cb sch k c _ ht _ => ?_⟩
  · obtain ⟨hlt, -⟩ := List.getElem?_eq_some_iff.mp (hfound t op k c ht)
    exact hlt
  · exact hfound t _ k c ht

/-- What no section touches: the table and the other calls. -/
def SameTable (m m' : IOManager) : Prop := m'.fdContexts = m.fdContexts ∧ m'.threads = m.threads

theorem sameTable_trigger : SameTable m (trigger c e m) := by
  unfold trigger
  split <;> exact ⟨rfl, rfl⟩

theorem SameTable.trans (h : SameTable m m₁) (h' : SameTable m₁ m₂) : SameTable m m₂ :=
  ⟨h'.1.trans h.1, h'.2.trans h.2⟩

theorem SameTable.ite (h : SameTable m m') (p : Prop) [Decidable p] :
    SameTable m (if p then trigger c e m' else m') := by
  split_ifs
  · exact h.trans sameTable_trigger
  · exact h

theorem SameTable.checked (h : SameTable m m') (p : Prop) [Decidable p] :
    SameTable m (if p then (true, m') else (false, m'.abort)).2 := by
  split_ifs
  · exact h
  · exact h

theorem sameTable_runLocked (op : Op) (k c : ℕ) (accepted : Bool) :
    SameTable m (runLocked op k c accepted m).2 := by
  cases op with
  | addEvent fd e cb sch =>
    simp only [runLocked, addEvent]
    split_ifs <;> exact ⟨rfl, rfl⟩
  | delEvent fd e =>
    simp only [runLocked, delEvent]
    split_ifs <;> exact ⟨rfl, rfl⟩
  | cancelEvent fd e =>
    simp only [runLocked, cancelEvent]
    split_ifs
    · exact ⟨rfl, rfl⟩
    · refine SameTable.trans ?_ sameTable_trigger
      exact ⟨rfl, rfl⟩
  | cancelAll fd =>
    simp only [runLocked, cancelAll]
    by_cases hskip : ((m.heap c).events = .none || !accepted) = true
    · rw [if_pos hskip]
      exact ⟨rfl, rfl⟩
    · rw [if_neg hskip]
      have hctl : SameTable m (m.epollCtl fd none) := ⟨rfl, rfl⟩
      exact ((hctl.ite _).ite _).checked _

theorem sameTable_handle (r : Reported) (accepted : Bool) : SameTable m (handle r accepted m) := by
  unfold handle
  by_cases hskip : (m.heap r.fd_ctx).events.inter (r.real_events (m.heap r.fd_ctx).events) = .none
  · rw [if_pos hskip]
    exact ⟨rfl, rfl⟩
  · simp only [if_neg hskip]
    by_cases hfailed : (!accepted) = true
    · rw [if_pos hfailed]
      exact ⟨rfl, rfl⟩
    · rw [if_neg hfailed]
      have hctl : ∀ fd mask, SameTable m (m.epollCtl fd mask) := fun _ _ => ⟨rfl, rfl⟩
      exact ((hctl _ _).ite _).ite _

namespace Idle

/-- A resize makes the table no smaller: no other call has made it larger than that. -/
def Grows (s : Idle) : Action → Prop
  | .io (.resize t) =>
    match s.io.threads t with
    | .resize op _ => s.io.fdContexts.length ≤ op.fd * 3 / 2
    | _ => True
  | _ => True

end Idle

theorem grows_contextResize {size : ℕ} (h : m.fdContexts.length ≤ size) :
    m.fdContexts <+: (contextResize size m).fdContexts := by
  simp only [contextResize, List.take_of_length_le h]
  exact List.prefix_append _ _

theorem Located.goto (h : m.Located) {t : ℕ} {pc : Pc}
    (hpc : ∀ op k c, pc = .locked op k c → m.fdContexts[op.fd]? = some c) :
    (m.goto t pc).Located := by
  intro t' op k c ht'
  rcases eq_or_ne t' t with rfl | hne
  · rw [goto_threads_self] at ht'
    exact hpc op k c ht'
  · rw [goto_threads_of_ne hne] at ht'
    exact h t' op k c ht'

theorem Located.grown (h : m.Located) (hgrows : m.fdContexts <+: m'.fdContexts)
    (hthreads : m'.threads = m.threads) : m'.Located := by
  intro t op k c ht
  obtain ⟨more, hmore⟩ := hgrows
  have hc := h t op k c (hthreads ▸ ht)
  obtain ⟨hlt, -⟩ := List.getElem?_eq_some_iff.mp hc
  rw [← hmore, List.getElem?_append_left hlt, hc]

theorem SameTable.grows (h : SameTable m m') : m.fdContexts <+: m'.fdContexts := by
  rw [h.1]

/-- **One step**: a resize that makes the table no smaller keeps all of it. -/
theorem Located.step {a : Idle.Action} (h : s.io.Located) (hgrows : s.Grows a)
    (hs : Idle.machine.step s a = some s') :
    s'.io.Located ∧ s.io.fdContexts <+: s'.io.fdContexts := by
  simp only [Idle.machine] at hs
  split_ifs at hs
  cases a with
  | io a =>
    simp only [Idle.step] at hs
    split_ifs at hs
    obtain ⟨io, hio, rfl⟩ := Option.map_eq_some_iff.mp hs
    simp only
    cases a with
    | call t op =>
      simp only [IOManager.step] at hio
      split at hio
      · cases hio
        exact ⟨h.goto (fun _ _ _ hpc => by cases hpc), List.prefix_rfl⟩
      · cases hio
    -- the context that a call keeps is the one of its descriptor
    | lookup t =>
      simp only [IOManager.step] at hio
      split at hio
      · split at hio
        · rename_i hc
          cases hio
          refine ⟨h.goto fun _ _ _ hpc => ?_, List.prefix_rfl⟩
          cases hpc
          exact hc
        · split at hio <;> cases hio <;>
            exact ⟨h.goto (fun _ _ _ hpc => by cases hpc), List.prefix_rfl⟩
      · cases hio
    -- the table keeps what it has when it grows
    | resize t =>
      simp only [Idle.Grows] at hgrows
      simp only [IOManager.step] at hio
      split at hio
      · rename_i op k ht
        simp only [ht] at hgrows
        have hmore := grows_contextResize hgrows
        have hlocated := h.grown hmore rfl
        split at hio
        · rename_i hc
          cases hio
          refine ⟨hlocated.goto fun _ _ _ hpc => ?_, hmore⟩
          cases hpc
          exact hc
        · cases hio
          exact ⟨hlocated, hmore⟩
      · cases hio
    -- a section changes contexts, and not where they are
    | locked t accepted =>
      simp only [IOManager.step] at hio
      split at hio
      · rename_i op k c ht
        cases hio
        have hsame := sameTable_runLocked op k c accepted (m := s.io)
        exact ⟨(h.grown hsame.grows hsame.2).goto (fun _ _ _ hpc => by cases hpc), hsame.grows⟩
      · cases hio
  | wait t events =>
    simp only [Idle.step] at hs
    split at hs
    · split_ifs at hs
      cases hs
      exact ⟨h, List.prefix_rfl⟩
    · cases hs
  | handle t accepted =>
    simp only [Idle.step] at hs
    split at hs
    · cases hs
    · cases hs
      rename_i r rest _
      have hsame := sameTable_handle r accepted (m := s.io)
      exact ⟨h.grown hsame.grows hsame.2, hsame.grows⟩

/-- A resize leaves the table with exactly the size it was resized to. -/
theorem grows_of_size {a : Idle.Action} (hs : Idle.machine.step s a = some s')
    (hsize : s.io.fdContexts.length ≤ s'.io.fdContexts.length) : s.Grows a := by
  simp only [Idle.machine] at hs
  split_ifs at hs
  unfold Idle.Grows
  split
  · split
    · rename_i t _ op k ht
      simp only [Idle.step] at hs
      split_ifs at hs
      obtain ⟨io, hio, rfl⟩ := Option.map_eq_some_iff.mp hs
      simp only [IOManager.step, ht] at hio
      have hlength : io.fdContexts.length = op.fd * 3 / 2 := by
        split at hio <;> cases hio <;> exact length_contextResize
      exact hsize.trans_eq hlength
    · trivial
  · trivial

/-! ## Runs -/

theorem located_new : Idle.new.io.Located := fun _ _ _ _ ht => by cases ht

/-- **The table of contexts**: it lasts between any two states of a run exactly if every resize of
the run makes it no smaller. -/
theorem table_lasts_iff {as : List Idle.Action} (hrun : Idle.machine.run .new as = some s) :
    (∀ as₁ as₂ s₁ s₂, as₁ ++ as₂ <+: as → Idle.machine.run .new as₁ = some s₁ →
      Idle.machine.run s₁ as₂ = some s₂ → Lasts s₁.io s₂.io) ↔
      Idle.machine.Meets Idle.Grows .new as := by
  constructor
  · intro h
    induction as using List.reverseRecOn generalizing s with
    | nil => trivial
    | append_singleton as a ih =>
      rw [Machine.run_append, Option.bind_eq_some_iff] at hrun
      obtain ⟨s₁, hs₁, hlast⟩ := hrun
      rw [Machine.meets_append hs₁]
      refine ⟨ih hs₁ fun as₁ as₂ s₁ s₂ hle => h as₁ as₂ s₁ s₂ (hle.trans (List.prefix_append _ _)),
        ?_⟩
      have hlasts := h as [a] s₁ s List.prefix_rfl hs₁ hlast
      obtain ⟨s₂, hstep, heq⟩ := Option.bind_eq_some_iff.mp hlast
      obtain rfl : s₂ = s := Option.some.inj heq
      exact (Machine.meets_cons hstep).mpr ⟨grows_of_size hstep hlasts.size, trivial⟩
  · rintro h as₁ as₂ s₁ s₂ ⟨rest, rfl⟩ hs₁ hs₂
    have h₁₂ : Idle.machine.run .new (as₁ ++ as₂) = some s₂ := by
      rw [Machine.run_append, hs₁]
      exact hs₂
    obtain ⟨h, -⟩ := (Machine.meets_append h₁₂).mp h
    obtain ⟨h₁, h₂⟩ := (Machine.meets_append hs₁).mp h
    have hlocated : s₁.io.Located := (Machine.reach_of_meets hs₁ h₁).invariant
      (P := fun s => s.io.Located) located_new fun s a s' hl hg hs => (hl.step hg hs).1
    have hgrows := (Machine.reach_of_meets hs₂ h₂).invariant
      (P := fun s => s.io.Located ∧ s₁.io.fdContexts <+: s.io.fdContexts)
      ⟨hlocated, List.prefix_rfl⟩ fun s a s' hl hg hs =>
        ⟨(hl.1.step hg hs).1, hl.2.trans (hl.1.step hg hs).2⟩
    exact hlocated.lasts hgrows.2

/-- A table that grows from 32 to 60 contexts. -/
theorem table_lasts_iff_grown :
    let as : List Idle.Action := [.io (.call 0 (.addEvent 40 .read true 7)), .io (.lookup 0),
      .io (.resize 0), .io (.locked 0 true)]
    (∀ as₁ as₂ s₁ s₂, as₁ ++ as₂ <+: as → Idle.machine.run .new as₁ = some s₁ →
      Idle.machine.run s₁ as₂ = some s₂ → Lasts s₁.io s₂.io) ↔
      Idle.machine.Meets Idle.Grows .new as :=
  table_lasts_iff rfl

/-- A table that shrinks: two calls find it too small, and the one for the smaller file descriptor
resizes last. The file descriptor 100, whose `addEvent` succeeded, has no context any more. -/
theorem table_shrinks :
    ∃ s s', Idle.machine.run .new [.io (.call 0 (.addEvent 100 .read true 7)),
        .io (.call 1 (.addEvent 40 .read true 7)), .io (.lookup 0), .io (.lookup 1),
        .io (.resize 0), .io (.locked 0 true)] = some s ∧
      Idle.machine.step s (.io (.resize 1)) = some s' ∧
      s.io.fdContexts.length = 150 ∧ s'.io.fdContexts.length = 60 ∧
      s.io.threads 0 = .idle (some true) ∧ s.io.fdContexts[100]? = some 100 ∧
      s'.io.fdContexts[100]? = none :=
  ⟨_, _, rfl, rfl, by decide +kernel, by decide +kernel, rfl, by decide,
    by decide +kernel⟩

end IOManager

end Sylar

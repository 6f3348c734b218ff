import Mathlib.Data.List.Basic

/-!
# Machines, guarded runs and invariants

A machine moves from state to state by actions; an action that is not enabled leads nowhere.
A guarded run is a run all of whose steps meet a condition on the state before the step and on
the action. An invariant of the steps that meet the condition holds in every state such a run
reaches.

## Main definitions

* `Machine`, `Machine.run`: a machine with partial steps, and the end of a list of actions
* `Machine.Reach ok`: the states reached by steps that meet `ok`
* `Machine.Keeps P`: a list of actions along which `P` holds in every state
* `Machine.Meets ok`: a list of actions all of whose steps meet `ok`
* `Machine.observe`: a machine with a history variable
* `Traces`: the runs of a labelled step relation

## Main results

* `Machine.Reach.invariant`: the induction over a guarded run
* `Machine.keeps_iff_meets`: when one step keeps `P` exactly if it meets `ok`, a whole run keeps
  `P` exactly if all its steps meet `ok`
* `Machine.meets_iff_meets`: conditions that agree step by step agree on runs
* `Machine.keeps_of_meets`: an invariant of the steps that meet `ok`, along a run
* `Machine.exists_run_of_meets`: steps that are enabled and keep an invariant, along a run
* `Machine.meets_of_run`: a run that ends with what other steps break has met `ok` all along
* `Machine.run_of_observe`: a history variable changes no run
* `Traces.simulate`: a simulation of single steps is one of whole runs, label by label
-/

namespace Foundation

universe u v w

/-- A machine: `step s a` is the state after the action `a` in `s`, if `a` is enabled there. -/
structure Machine (σ : Type u) (α : Type v) where
  step : σ → α → Option σ

namespace Machine

variable {σ : Type u} {α : Type v} (M : Machine σ α)

/-- The state after the actions of a list, in order, if each is enabled. -/
def run : σ → List α → Option σ
  | s, [] => some s
  | s, a :: as => (M.step s a).bind fun t => run t as

@[simp] theorem run_nil (s : σ) : M.run s [] = some s := rfl

@[simp] theorem run_cons (s : σ) (a : α) (as : List α) :
    M.run s (a :: as) = (M.step s a).bind fun t => M.run t as := rfl

theorem run_append (s : σ) (as bs : List α) :
    M.run s (as ++ bs) = (M.run s as).bind fun t => M.run t bs := by
  induction as generalizing s with
  | nil => rfl
  | cons a as ih =>
    simp only [List.cons_append, run_cons, Option.bind_assoc]
    exact congrArg _ (funext ih)

/-- The states reached from `s` by steps that meet `ok`. -/
inductive Reach (ok : σ → α → Prop) (s : σ) : σ → Prop
  | refl : Reach ok s s
  | snoc {t u : σ} (a : α) : Reach ok s t → ok t a → M.step t a = some u → Reach ok s u

/-- The unguarded runs. -/
abbrev Reaches (s t : σ) : Prop := M.Reach (fun _ _ => True) s t

variable {M}

theorem Reach.mono {ok ok' : σ → α → Prop} (h : ∀ s a, ok s a → ok' s a) {s t : σ}
    (r : M.Reach ok s t) : M.Reach ok' s t := by
  induction r with
  | refl => exact .refl
  | snoc a _ hok hstep ih => exact .snoc a ih (h _ a hok) hstep

/-- **The run lemma**: what holds at the start and is kept by every step that meets the
condition holds in every state a guarded run reaches. -/
theorem Reach.invariant {ok : σ → α → Prop} {P : σ → Prop} {s t : σ} (r : M.Reach ok s t)
    (hs : P s) (hstep : ∀ t a u, P t → ok t a → M.step t a = some u → P u) : P t := by
  induction r with
  | refl => exact hs
  | snoc a _ hok hu ih => exact hstep _ a _ ih hok hu

theorem Reach.trans {ok : σ → α → Prop} {s t u : σ} (r : M.Reach ok s t) (r' : M.Reach ok t u) :
    M.Reach ok s u := by
  induction r' with
  | refl => exact r
  | snoc a _ hok hu ih => exact .snoc a ih hok hu

/-- A completed list of actions reaches its end. -/
theorem reaches_of_run {s t : σ} {as : List α} (h : M.run s as = some t) : M.Reaches s t := by
  induction as generalizing s with
  | nil =>
    obtain rfl : s = t := by simpa using h
    exact .refl
  | cons a as ih =>
    rw [run_cons, Option.bind_eq_some_iff] at h
    obtain ⟨u, hu, hrun⟩ := h
    exact Reach.trans (.snoc a .refl trivial hu) (ih hrun)

variable (M)

/-- `P` holds in every state along the actions from `s`. -/
def Keeps (P : σ → Prop) : σ → List α → Prop
  | s, [] => P s
  | s, a :: as => P s ∧ ∀ t, M.step s a = some t → Keeps P t as

/-- Every step along the actions from `s` meets `ok`. -/
def Meets (ok : σ → α → Prop) : σ → List α → Prop
  | _, [] => True
  | s, a :: as => ok s a ∧ ∀ t, M.step s a = some t → Meets ok t as

variable {M}

theorem meets_cons {ok : σ → α → Prop} {s t : σ} {a : α} {as : List α}
    (h : M.step s a = some t) : M.Meets ok s (a :: as) ↔ ok s a ∧ M.Meets ok t as := by
  simp [Meets, h]

theorem meets_append {ok : σ → α → Prop} {s t : σ} {as bs : List α} (h : M.run s as = some t) :
    M.Meets ok s (as ++ bs) ↔ M.Meets ok s as ∧ M.Meets ok t bs := by
  induction as generalizing s with
  | nil =>
    obtain rfl : s = t := by simpa using h
    simp [Meets]
  | cons a as ih =>
    rw [run_cons, Option.bind_eq_some_iff] at h
    obtain ⟨u, hu, hrun⟩ := h
    rw [List.cons_append, meets_cons hu, meets_cons hu, ih hrun, and_assoc]

/-- **Progress over runs**: if the steps that meet `ok` are enabled and keep `I`, so are runs of
them. -/
theorem exists_run_of_meets {I : σ → Prop} {ok : σ → α → Prop}
    (hI : ∀ s a, I s → ok s a → ∃ t, M.step s a = some t ∧ I t) {s : σ} {as : List α} (hs : I s)
    (hm : M.Meets ok s as) : ∃ t, M.run s as = some t ∧ I t := by
  induction as generalizing s with
  | nil => exact ⟨s, rfl, hs⟩
  | cons a as ih =>
    obtain ⟨u, hu, hIu⟩ := hI s a hs hm.1
    obtain ⟨t, ht, hIt⟩ := ih hIu (hm.2 u hu)
    exact ⟨t, by rw [run_cons, hu, Option.bind_some, ht], hIt⟩

/-- Whether the steps of a list of actions meet a condition can be computed. -/
instance decidableMeets {ok : σ → α → Prop} [∀ s a, Decidable (ok s a)] (s : σ) :
    (as : List α) → Decidable (M.Meets ok s as)
  | [] => .isTrue trivial
  | a :: as =>
    match h : M.step s a with
    | none => decidable_of_iff (ok s a) (by simp [Meets, h])
    | some t =>
      have : Decidable (M.Meets ok t as) := decidableMeets t as
      decidable_of_iff (ok s a ∧ M.Meets ok t as) (meets_cons h).symm

/-- A completed run whose steps meet `ok` is guarded by it. -/
theorem reach_of_meets {ok : σ → α → Prop} {s t : σ} {as : List α} (h : M.run s as = some t)
    (hm : M.Meets ok s as) : M.Reach ok s t := by
  induction as generalizing s with
  | nil =>
    obtain rfl : s = t := by simpa using h
    exact .refl
  | cons a as ih =>
    rw [run_cons, Option.bind_eq_some_iff] at h
    obtain ⟨u, hu, hrun⟩ := h
    obtain ⟨hok, hm⟩ := (meets_cons hu).mp hm
    exact Reach.trans (.snoc a .refl hok hu) (ih hrun hm)

theorem Keeps.head {P : σ → Prop} {s : σ} {as : List α} (h : M.Keeps P s as) : P s := by
  cases as with
  | nil => exact h
  | cons a as => exact h.1

theorem Keeps.last {P : σ → Prop} {s t : σ} {as : List α} (h : M.Keeps P s as)
    (hrun : M.run s as = some t) : P t := by
  induction as generalizing s with
  | nil =>
    obtain rfl : s = t := by simpa using hrun
    exact h
  | cons a as ih =>
    rw [run_cons, Option.bind_eq_some_iff] at hrun
    obtain ⟨u, hu, hrun⟩ := hrun
    exact ih (h.2 u hu) hrun

/-- **Exactness over runs**: if an invariant `I` holds and one enabled step from a state with `P`
keeps `P` exactly when it meets `ok`, then a completed run keeps `P` exactly when all its steps
meet `ok`. Only the actions of the run, which are `good`, matter. -/
theorem keeps_iff_meets_on {I P : σ → Prop} {ok : σ → α → Prop} {good : α → Prop}
    (hI : ∀ s a t, good a → I s → M.step s a = some t → I t)
    (hP : ∀ s a t, good a → I s → P s → M.step s a = some t → (P t ↔ ok s a))
    {s t : σ} {as : List α} (hgood : ∀ a ∈ as, good a) (hs : I s) (hPs : P s)
    (hrun : M.run s as = some t) : M.Keeps P s as ↔ M.Meets ok s as := by
  induction as generalizing s with
  | nil => simpa [Keeps, Meets] using hPs
  | cons a as ih =>
    rw [run_cons, Option.bind_eq_some_iff] at hrun
    obtain ⟨u, hu, hrun⟩ := hrun
    obtain ⟨hga, hgas⟩ := List.forall_mem_cons.mp hgood
    simp only [Keeps, Meets, hu, Option.some.injEq, forall_eq']
    constructor
    · rintro ⟨-, hk⟩
      exact ⟨(hP s a u hga hs hPs hu).mp hk.head,
        (ih hgas (hI s a u hga hs hu) hk.head hrun).mp hk⟩
    · rintro ⟨hok, hm⟩
      have hPu : P u := (hP s a u hga hs hPs hu).mpr hok
      exact ⟨hPs, (ih hgas (hI s a u hga hs hu) hPu hrun).mpr hm⟩

/-- Exactness over runs of any actions. -/
theorem keeps_iff_meets {I P : σ → Prop} {ok : σ → α → Prop}
    (hI : ∀ s a t, I s → M.step s a = some t → I t)
    (hP : ∀ s a t, I s → P s → M.step s a = some t → (P t ↔ ok s a))
    {s t : σ} {as : List α} (hs : I s) (hPs : P s) (hrun : M.run s as = some t) :
    M.Keeps P s as ↔ M.Meets ok s as :=
  keeps_iff_meets_on (fun s a t _ => hI s a t) (fun s a t _ => hP s a t)
    (fun a _ => (trivial : (fun _ : α => True) a)) hs hPs hrun

/-- Two conditions that agree on the enabled steps from states with an invariant agree on a
completed run. -/
theorem meets_iff_meets {I : σ → Prop} {ok ok' : σ → α → Prop}
    (hI : ∀ s a t, I s → M.step s a = some t → I t)
    (hok : ∀ s a t, I s → M.step s a = some t → (ok s a ↔ ok' s a))
    {s t : σ} {as : List α} (hs : I s) (hrun : M.run s as = some t) :
    M.Meets ok s as ↔ M.Meets ok' s as := by
  induction as generalizing s with
  | nil => exact Iff.rfl
  | cons a as ih =>
    rw [run_cons, Option.bind_eq_some_iff] at hrun
    obtain ⟨u, hu, hrun⟩ := hrun
    rw [meets_cons hu, meets_cons hu, hok s a u hs hu, ih (hI s a u hs hu) hrun]

/-- Two conditions that agree from states with an invariant, on actions that are `good`, agree on
a list of such actions. -/
theorem meets_congr {I : σ → Prop} {ok ok' : σ → α → Prop} {good : α → Prop}
    (hI : ∀ s a t, good a → I s → M.step s a = some t → I t)
    (hok : ∀ s a, good a → I s → (ok s a ↔ ok' s a)) {s : σ} {as : List α}
    (hgood : ∀ a ∈ as, good a) (hs : I s) : M.Meets ok s as ↔ M.Meets ok' s as := by
  induction as generalizing s with
  | nil => exact Iff.rfl
  | cons a as ih =>
    obtain ⟨hga, hgas⟩ := List.forall_mem_cons.mp hgood
    refine and_congr (hok s a hga hs) (forall_congr' fun t => ?_)
    exact imp_congr_right fun hstep => ih hgas (hI s a t hga hs hstep)

/-- **Guarded runs keep an invariant**: if the steps that meet `ok` keep `I`, then `P`, which
follows from `I`, holds all along a list of actions whose steps meet `ok`. -/
theorem keeps_of_meets {I P : σ → Prop} {ok : σ → α → Prop}
    (hI : ∀ s a t, I s → ok s a → M.step s a = some t → I t) (hP : ∀ s, I s → P s) {s : σ}
    {as : List α} (hs : I s) (hm : M.Meets ok s as) : M.Keeps P s as := by
  induction as generalizing s with
  | nil => exact hP s hs
  | cons a as ih => exact ⟨hP s hs, fun t ht => ih (hI s a t hs hm.1 ht) (hm.2 t ht)⟩

/-- What no step restores holds before a run after which it holds. -/
theorem of_run {P : σ → Prop} (hP : ∀ s a t, M.step s a = some t → P t → P s) {s t : σ}
    {as : List α} (hrun : M.run s as = some t) (ht : P t) : P s := by
  induction as generalizing s with
  | nil =>
    obtain rfl : s = t := by simpa using hrun
    exact ht
  | cons a as ih =>
    rw [run_cons, Option.bind_eq_some_iff] at hrun
    obtain ⟨u, hu, hrun⟩ := hrun
    exact hP s a u hu (ih hrun)

/-- **Exactness at the end**: if a step from a state with `I` that does not meet `ok` breaks `P`,
and no step restores `P`, then a run that ends with `P` has met `ok` all along. -/
theorem meets_of_run {I P : σ → Prop} {ok : σ → α → Prop}
    (hI : ∀ s a t, I s → ok s a → M.step s a = some t → I t)
    (hbreak : ∀ s a t, I s → ¬ ok s a → M.step s a = some t → ¬ P t)
    (hP : ∀ s a t, M.step s a = some t → P t → P s) {s t : σ} {as : List α} (hs : I s)
    (hrun : M.run s as = some t) (ht : P t) : M.Meets ok s as := by
  induction as generalizing s with
  | nil => trivial
  | cons a as ih =>
    rw [run_cons, Option.bind_eq_some_iff] at hrun
    obtain ⟨u, hu, hrun⟩ := hrun
    by_cases hok : ok s a
    · exact (meets_cons hu).mpr ⟨hok, ih (hI s a u hs hok hu) hrun⟩
    · exact absurd (of_run hP hrun ht) (hbreak s a u hs hok hu)

/-- If the steps that meet `ok` keep `I`, and every step from a state with `I` meets `ok'`, a list
of actions whose steps meet `ok` has steps that meet `ok'`. -/
theorem meets_of_keeps {I : σ → Prop} {ok ok' : σ → α → Prop}
    (hI : ∀ s a t, I s → ok s a → M.step s a = some t → I t) (hok : ∀ s a, I s → ok' s a) {s : σ}
    {as : List α} (hs : I s) (hm : M.Meets ok s as) : M.Meets ok' s as := by
  induction as generalizing s with
  | nil => trivial
  | cons a as ih => exact ⟨hok s a hs, fun t ht => ih (hI s a t hs hm.1 ht) (hm.2 t ht)⟩

/-! ### History variables -/

variable {ω : Type w}

/-- A machine with a history variable: after the action `a` in `s` it is `upd s a h`. -/
def observe (M : Machine σ α) (upd : σ → α → ω → ω) : Machine (σ × ω) α where
  step c a := (M.step c.1 a).map fun t => (t, upd c.1 a c.2)

theorem observe_step {upd : σ → α → ω → ω} {c c' : σ × ω} {a : α} :
    (M.observe upd).step c a = some c' ↔ M.step c.1 a = some c'.1 ∧ c'.2 = upd c.1 a c.2 := by
  obtain ⟨t, h'⟩ := c'
  simp only [observe, Option.map_eq_some_iff, Prod.mk.injEq]
  constructor
  · rintro ⟨t', ht', rfl, rfl⟩
    exact ⟨ht', rfl⟩
  · rintro ⟨ht', rfl⟩
    exact ⟨t, ht', rfl, rfl⟩

/-- Every step of a run of which any step does. -/
theorem meets_of_forall {M : Machine σ α} {ok : σ → α → Prop} (hok : ∀ s a, ok s a) {s : σ}
    {as : List α} : M.Meets ok s as := by
  induction as generalizing s with
  | nil => trivial
  | cons a as ih => exact ⟨hok s a, fun _ _ => ih⟩

/-- A history variable changes no condition on the states. -/
theorem meets_observe {upd : σ → α → ω → ω} {ok : σ → α → Prop} {c : σ × ω} {as : List α} :
    (M.observe upd).Meets (fun c a => ok c.1 a) c as ↔ M.Meets ok c.1 as := by
  induction as generalizing c with
  | nil => exact Iff.rfl
  | cons a as ih =>
    simp only [Meets]
    refine and_congr_right fun _ => ⟨fun h t ht => ?_, fun h c' hc' => ?_⟩
    · exact ih.mp (h (t, upd c.1 a c.2) (observe_step.mpr ⟨ht, rfl⟩))
    · exact ih.mpr (h c'.1 (observe_step.mp hc').1)

/-- A run with a history variable is a run. -/
theorem run_of_observe {upd : σ → α → ω → ω} {c c' : σ × ω} {as : List α}
    (h : (M.observe upd).run c as = some c') : M.run c.1 as = some c'.1 := by
  induction as generalizing c with
  | nil =>
    obtain rfl : c = c' := by simpa using h
    rfl
  | cons a as ih =>
    rw [run_cons, Option.bind_eq_some_iff] at h ⊢
    obtain ⟨d, hd, hrun⟩ := h
    exact ⟨d.1, (observe_step.mp hd).1, ih hrun⟩

end Machine

/-! ## Labelled runs and simulation -/

section Traces

variable {σ : Type u} {ω : Type v} {τ : Type*}

/-- The runs of a labelled step relation, with the labels in order. -/
inductive Traces (step : σ → ω → σ → Prop) : σ → List ω → σ → Prop
  | nil (s : σ) : Traces step s [] s
  | cons {s t u : σ} {o : ω} {os : List ω} :
      step s o t → Traces step t os u → Traces step s (o :: os) u

theorem Traces.append_iff {step : σ → ω → σ → Prop} {s u : σ} {os os' : List ω} :
    Traces step s (os ++ os') u ↔ ∃ t, Traces step s os t ∧ Traces step t os' u := by
  induction os generalizing s with
  | nil =>
    constructor
    · exact fun h => ⟨s, .nil s, h⟩
    · rintro ⟨t, ht, h⟩
      cases ht
      exact h
  | cons o os ih =>
    constructor
    · rintro (_ | ⟨hstep, hrest⟩)
      obtain ⟨t, ht, hu⟩ := ih.mp hrest
      exact ⟨t, .cons hstep ht, hu⟩
    · rintro ⟨t, _ | ⟨hstep, hrest⟩, hu⟩
      exact .cons hstep (ih.mpr ⟨t, hrest, hu⟩)

/-- **Forward simulation**: if every step from related states is matched by a step with the same
label to related states, every run is matched by a run with the same labels. -/
theorem Traces.simulate {step : σ → ω → σ → Prop} {step' : τ → ω → τ → Prop} {R : σ → τ → Prop}
    (h : ∀ s t o s', R s t → step s o s' → ∃ t', step' t o t' ∧ R s' t')
    {s s' : σ} {os : List ω} (hrun : Traces step s os s') {t : τ} (hR : R s t) :
    ∃ t', Traces step' t os t' ∧ R s' t' := by
  induction hrun generalizing t with
  | nil s => exact ⟨t, .nil t, hR⟩
  | cons hstep _ ih =>
    obtain ⟨t₁, ht₁, hR₁⟩ := h _ _ _ _ hR hstep
    obtain ⟨t', ht', hR'⟩ := ih hR₁
    exact ⟨t', .cons ht₁ ht', hR'⟩

end Traces

end Foundation

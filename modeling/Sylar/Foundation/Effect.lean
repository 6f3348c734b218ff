import Mathlib.Data.List.Basic

/-!
# Programs over a state that may stop with an error

Rules for `EStateM` programs: a bind whose first part completes or stops, and the invariants a
program keeps. An error may be fatal, after which there is no state to speak of; an invariant
holds after a completed program and in the state a non-fatal error leaves.

## Main definitions

* `Sustains fatal I x`: `x` keeps `I`, unless it stops with a fatal error
* `settle fatal r`: the state a program leaves, if it does not stop with a fatal error

## Main results

* `bind_ok`, `bind_error`: the two ways through a bind
* `Sustains.bind`, `Sustains.forM`: invariants of composed programs
-/

namespace Foundation

variable {ε σ α β : Type} {x : EStateM ε σ α} {f : α → EStateM ε σ β} {s t : σ} {a : α} {e : ε}

/-! ## Running through a bind -/

theorem bind_ok (h : x s = .ok a t) : (x >>= f) s = f a t := by
  simp [bind, EStateM.bind, h]

theorem bind_error (h : x s = .error e t) : (x >>= f) s = .error e t := by
  simp [bind, EStateM.bind, h]

@[simp] theorem pure_apply (a : α) (s : σ) : (pure a : EStateM ε σ α) s = .ok a s := rfl

@[simp] theorem get_bind_apply (f : σ → EStateM ε σ β) (s : σ) : (get >>= f) s = f s s := rfl

@[simp] theorem set_apply (t s : σ) : (set t : EStateM ε σ PUnit) s = .ok ⟨⟩ t := rfl

@[simp] theorem modify_apply (g : σ → σ) (s : σ) :
    (modify g : EStateM ε σ PUnit) s = .ok ⟨⟩ (g s) := rfl

@[simp] theorem throw_apply (e : ε) (s : σ) : (throw e : EStateM ε σ α) s = .error e s := rfl

@[simp] theorem pure_bind_apply (a : α) (f : α → EStateM ε σ β) (s : σ) :
    (pure a >>= f) s = f a s := rfl

@[simp] theorem set_bind_apply (t : σ) (f : PUnit → EStateM ε σ β) (s : σ) :
    (set t >>= f) s = f ⟨⟩ t := rfl

@[simp] theorem throw_bind_apply (e : ε) (f : α → EStateM ε σ β) (s : σ) :
    ((throw e : EStateM ε σ α) >>= f) s = .error e s := rfl

theorem map_eq_ok_iff {g : α → β} {b : β} :
    (g <$> x) s = .ok b t ↔ ∃ a, x s = .ok a t ∧ g a = b := by
  simp only [Functor.map, EStateM.map]
  cases x s with
  | ok a u =>
    simp only [EStateM.Result.ok.injEq]
    constructor
    · rintro ⟨rfl, rfl⟩
      exact ⟨a, ⟨rfl, rfl⟩, rfl⟩
    · rintro ⟨a, ⟨rfl, rfl⟩, rfl⟩
      exact ⟨rfl, rfl⟩
  | error e u => simp

theorem map_eq_error_iff {g : α → β} : (g <$> x) s = .error e t ↔ x s = .error e t := by
  simp only [Functor.map, EStateM.map]
  cases x s with
  | ok a u => simp
  | error e u => simp

/-! ## Invariants -/

/-- The state a result leaves: none after a fatal error. -/
def settle (fatal : ε → Bool) : EStateM.Result ε σ α → Option σ
  | .ok _ t => some t
  | .error e t => if fatal e then none else some t

/-- From a state with `I`, the program leaves a state with `I` or stops with a fatal error. -/
def Sustains (fatal : ε → Bool) (I : σ → Prop) (x : EStateM ε σ α) : Prop :=
  ∀ s, I s → ∀ t, settle fatal (x s) = some t → I t

variable {fatal : ε → Bool} {I : σ → Prop}

theorem Sustains.pure (a : α) : Sustains fatal I (pure a : EStateM ε σ α) := by
  intro s hs t ht
  obtain rfl : s = t := by simpa [settle] using ht
  exact hs

theorem Sustains.throw (e : ε) : Sustains fatal I (throw e : EStateM ε σ α) := by
  intro s hs t ht
  rw [throw_apply, settle] at ht
  split at ht
  · cases ht
  · obtain rfl : s = t := by simpa using ht
    exact hs

theorem Sustains.modify {g : σ → σ} (h : ∀ s, I s → I (g s)) :
    Sustains fatal I (modify g : EStateM ε σ PUnit) := by
  intro s hs t ht
  obtain rfl : g s = t := by simpa [settle] using ht
  exact h s hs

theorem Sustains.bind (hx : Sustains fatal I x) (hf : ∀ a, Sustains fatal I (f a)) :
    Sustains fatal I (x >>= f) := by
  intro s hs t ht
  cases hr : x s with
  | ok a u =>
    rw [bind_ok hr] at ht
    exact hf a u (hx s hs u (by simp [hr, settle])) t ht
  | error e u =>
    rw [bind_error hr] at ht
    refine hx s hs t ?_
    rw [hr]
    exact ht

/-- A program that first reads the state. -/
theorem Sustains.get_bind {g : σ → EStateM ε σ β} (h : ∀ s, Sustains fatal I (g s)) :
    Sustains fatal I (get >>= g) := fun s hs t ht => h s s hs t ht

theorem Sustains.map (hx : Sustains fatal I x) (g : α → β) : Sustains fatal I (g <$> x) := by
  rw [← bind_pure_comp]
  exact hx.bind fun a => .pure (g a)

theorem Sustains.ite {c : Prop} [Decidable c] {y : EStateM ε σ α} (hx : Sustains fatal I x)
    (hy : Sustains fatal I y) : Sustains fatal I (if c then x else y) := by
  split
  · exact hx
  · exact hy

theorem Sustains.forM {g : α → EStateM ε σ PUnit} (h : ∀ a, Sustains fatal I (g a))
    (as : List α) : Sustains fatal I (as.forM g) := by
  induction as with
  | nil => exact .pure _
  | cons a as ih =>
    rw [List.forM_eq_forM, List.forM_cons]
    exact (h a).bind fun _ => ih

end Foundation

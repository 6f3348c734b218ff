import Sylar.Config.Model

/-!
# Setting a variable from a string

`fromString` converts a string, calls the listeners one after the other with the old and the new
value, and assigns the value, all in one `try` block for `std::exception`. What was called before a
listener throws stays called, another exception passes through, and the function has one `return`.

The listeners and the conversion are parameters. A listener that returns has taken the new value;
one that throws may have taken it before.

## Main definitions

* `Reaction`, `Received`: what a listener does, and what all of them have received
* `callAll`, `setValue`, `fromString`: the loop over `m_cbs` and the two functions
* `Succeeds`, `AllOrNothing`: when a call should succeed, and what it should leave

## Main results

* `callAll_append`: what the loop has done when it comes to a listener
* `fromString_of_succeeds`, `fromString_of_throws`: calls that no listener ends, and that one ends
* `allOrNothing_iff`: which calls are all or nothing
-/

namespace Sylar

open Foundation

namespace Config

/-- An exception, by the `catch` clause for `std::exception`. -/
inductive Exn
  | std
  | other
  deriving DecidableEq

/-- What a listener does with an old and a new value. -/
inductive Reaction
  | returns
  | throws (e : Exn) (took : Bool)
  deriving DecidableEq

/-- The values that the listeners have received, and those that were left with the new value by the
call at hand. -/
structure Received (α : Type*) where
  log : Log α
  took : List ℕ := []

section Functions

variable {α : Type*} [DecidableEq α]

def Received.call (r : Received α) (k : ℕ) (n : α × α) (took : Bool) : Received α where
  log := Function.update r.log k (r.log k ++ [n])
  took := if took then r.took ++ [k] else r.took

variable (fromStr : List UInt8 → Except Exn α) (react : ℕ → α → α → Reaction)

/-- The loop over `m_cbs`, with the exception that ends it. -/
def callAll (n : α × α) : List ℕ → Received α → Received α × Option Exn
  | [], r => (r, none)
  | k :: cbs, r =>
    match react k n.1 n.2 with
    | .returns => callAll n cbs (r.call k n true)
    -- the listeners behind it are not called
    | .throws e took => (r.call k n took, some e)

def setValue (c : ConfigVar α) (v : α) (r : Received α) :
    ConfigVar α × Received α × Option Exn :=
  if v = c.val then (c, r, none)
  else
    match callAll react (c.val, v) c.cbs r with
    -- the value is not stored, but some listeners have been called
    | (r, some e) => (c, r, some e)
    | (r, none) => (c.assign v, r, none)

/-- The variable and the listeners after the call, and what it returns or throws. -/
def fromString (c : ConfigVar α) (str : List UInt8) (r : Received α) :
    ConfigVar α × Received α × Except Exn Bool :=
  let t : ConfigVar α × Received α × Option Exn :=
    match fromStr str with
    | .error e => (c, r, some e)
    | .ok v => setValue react c v r
  match t with
  | (c, r, some .other) => (c, r, .error .other)
  -- The `catch` block logs the exception.
  | (c, r, some .std) => (c, r, .ok false)
  | (c, r, none) => (c, r, .ok false)

end Functions

/-! ## All or nothing -/

section Claims

variable {α : Type*} [DecidableEq α] (fromStr : List UInt8 → Except Exn α)
  (react : ℕ → α → α → Reaction) (c : ConfigVar α) (str : List UInt8)

/-- The string is converted to `v`, and every listener that is called for it returns. -/
def Succeeds (v : α) : Prop :=
  fromStr str = .ok v ∧ (v ≠ c.val → ∀ k ∈ c.cbs, react k c.val v = .returns)

/-- A call returns true exactly if it succeeds. Then the value is the new one and each listener was
called once if it is not the old one; otherwise false is returned, the value is the old one, and no
listener was left with another one. -/
def AllOrNothing (log : Log α) : Prop :=
  let r := fromString fromStr react c str ⟨log, []⟩
  (r.2.2 = .ok true ↔ ∃ v, Succeeds fromStr react c str v) ∧
  (∀ v, Succeeds fromStr react c str v → r.1.val = v ∧
    ∀ k, r.2.1.log k = if v ≠ c.val ∧ k ∈ c.cbs then log k ++ [(c.val, v)] else log k) ∧
  ((¬ ∃ v, Succeeds fromStr react c str v) →
    r.2.2 = .ok false ∧ r.1.val = c.val ∧ r.2.1.took = [])

end Claims

section Loop

variable {α : Type*} {react : ℕ → α → α → Reaction} {n : α × α}

/-- The loop comes to the listeners behind those that return. -/
theorem callAll_append {pre : List ℕ} (hpre : ∀ k ∈ pre, react k n.1 n.2 = .returns)
    (rest : List ℕ) (r : Received α) :
    callAll react n (pre ++ rest) r =
      callAll react n rest
        ⟨pre.foldl (fun log k => Function.update log k (log k ++ [n])) r.log, r.took ++ pre⟩ := by
  induction pre generalizing r with
  | nil => rw [List.append_nil]; rfl
  | cons k pre ih =>
    obtain ⟨hk, hpre⟩ := List.forall_mem_cons.mp hpre
    rw [List.cons_append, callAll, hk]
    dsimp only
    rw [ih hpre (r.call k n true), List.foldl_cons]
    simp [Received.call]

/-- All listeners return, or there is a first one that throws. -/
theorem returns_or_throws (react : ℕ → α → α → Reaction) (n : α × α) (cbs : List ℕ) :
    (∀ k ∈ cbs, react k n.1 n.2 = .returns) ∨
      ∃ pre k post e took, cbs = pre ++ k :: post ∧ (∀ j ∈ pre, react j n.1 n.2 = .returns) ∧
        react k n.1 n.2 = .throws e took := by
  induction cbs with
  | nil => exact .inl fun k hk => absurd hk List.not_mem_nil
  | cons k cbs ih =>
    cases hk : react k n.1 n.2 with
    | throws e took =>
      exact .inr ⟨[], k, cbs, e, took, rfl, fun j hj => absurd hj List.not_mem_nil, hk⟩
    | returns =>
      rcases ih with hall | ⟨pre, j, post, e, took, hsplit, hpre, hj⟩
      · exact .inl (List.forall_mem_cons.mpr ⟨hk, hall⟩)
      · exact .inr ⟨k :: pre, j, post, e, took, by rw [hsplit]; rfl,
          List.forall_mem_cons.mpr ⟨hk, hpre⟩, hj⟩

end Loop

section Calls

variable {α : Type*} [DecidableEq α] (fromStr : List UInt8 → Except Exn α)
  (react : ℕ → α → α → Reaction) (c : ConfigVar α) (str : List UInt8) (log : Log α)

/-- The only `return` is that of false. -/
theorem fromString_ne_true (r : Received α) :
    (fromString fromStr react c str r).2.2 ≠ .ok true := by
  unfold fromString
  intro h
  dsimp only at h
  split at h <;> cases h

variable {fromStr react c str}

theorem fromString_of_error {e : Exn} (h : fromStr str = .error e) (r : Received α) :
    fromString fromStr react c str r =
      (c, r, if e = .std then .ok false else .error e) := by
  unfold fromString
  rw [h]
  cases e <;> rfl

theorem fromString_of_eq (h : fromStr str = .ok c.val) (r : Received α) :
    fromString fromStr react c str r = (c, r, .ok false) := by
  unfold fromString setValue
  rw [h]
  simp

/-- A call that succeeds assigns the value and calls each listener once, and returns false. -/
theorem fromString_of_succeeds {v : α} (h : Succeeds fromStr react c str v) :
    let r := fromString fromStr react c str ⟨log, []⟩
    r.1.val = v ∧ r.2.2 = .ok false ∧
      ∀ k, r.2.1.log k = if v ≠ c.val ∧ k ∈ c.cbs then log k ++ [(c.val, v)] else log k := by
  obtain ⟨hv, hreturn⟩ := h
  rcases eq_or_ne v c.val with rfl | hne
  · rw [fromString_of_eq hv]
    exact ⟨rfl, rfl, fun k => by simp⟩
  · have hend := callAll_append (n := (c.val, v)) (hreturn hne) [] ⟨log, []⟩
    rw [List.append_nil, callAll] at hend
    have hcall : fromString fromStr react c str ⟨log, []⟩ =
        (c.assign v, ⟨c.notify v log, c.cbs⟩, .ok false) := by
      unfold fromString setValue
      simp only [hv, if_neg hne]
      rw [hend]
      rfl
    rw [hcall]
    refine ⟨rfl, rfl, fun k => ?_⟩
    rw [show (⟨c.notify v log, c.cbs⟩ : Received α).log k = _ from c.notify_apply v log k]
    simp [hne]

/-- A call that ends at a listener. -/
theorem fromString_of_throws {v : α} (hv : fromStr str = .ok v) (hne : v ≠ c.val)
    {pre post : List ℕ} {k : ℕ} {e : Exn} {took : Bool} (hsplit : c.cbs = pre ++ k :: post)
    (hpre : ∀ j ∈ pre, react j c.val v = .returns) (hk : react k c.val v = .throws e took) :
    let r := fromString fromStr react c str ⟨log, []⟩
    r.1 = c ∧ r.2.2 = (if e = .std then .ok false else .error e) ∧
      r.2.1.took = pre ++ if took then [k] else [] := by
  have hend := callAll_append (n := (c.val, v)) hpre (k :: post) ⟨log, []⟩
  rw [← hsplit, callAll, hk] at hend
  unfold fromString setValue
  simp only [hv, if_neg hne, hend]
  cases e <;> cases took <;> simp [Received.call]

omit [DecidableEq α] in
theorem not_succeeds_of_throws {v : α} (hv : fromStr str = .ok v) (hne : v ≠ c.val) {k : ℕ}
    (hmem : k ∈ c.cbs) {e : Exn} {took : Bool} (hk : react k c.val v = .throws e took) :
    ¬ ∃ w, Succeeds fromStr react c str w := by
  rintro ⟨w, hw, hreturn⟩
  obtain rfl : v = w := Except.ok.inj (hv.symm.trans hw)
  have hthrow := hreturn hne k hmem
  rw [hk] at hthrow
  cases hthrow

/-- Only a call that fails can be all or nothing. -/
theorem allOrNothing_iff_fails :
    AllOrNothing fromStr react c str log ↔
      let r := fromString fromStr react c str ⟨log, []⟩
      (¬ ∃ v, Succeeds fromStr react c str v) ∧
        r.2.2 = .ok false ∧ r.1.val = c.val ∧ r.2.1.took = [] := by
  constructor
  · rintro ⟨htrue, -, hfails⟩
    have hnot : ¬ ∃ v, Succeeds fromStr react c str v :=
      fun h => fromString_ne_true fromStr react c str _ (htrue.mpr h)
    exact ⟨hnot, hfails hnot⟩
  · rintro ⟨hnot, hfails⟩
    refine ⟨iff_of_false (fromString_ne_true fromStr react c str _) hnot, fun v hv => ?_,
      fun _ => hfails⟩
    exact absurd ⟨v, hv⟩ hnot

theorem not_allOrNothing_of_succeeds {v : α} (h : Succeeds fromStr react c str v) :
    ¬ AllOrNothing fromStr react c str log := by
  rw [allOrNothing_iff_fails]
  exact fun hall => hall.1 ⟨v, h⟩

/-- A call that a listener ends is all or nothing if this is the first one, which does not keep the
new value. -/
theorem allOrNothing_iff_of_throws {v : α} (hv : fromStr str = .ok v) (hne : v ≠ c.val)
    {pre post : List ℕ} {k : ℕ} {e : Exn} {took : Bool} (hsplit : c.cbs = pre ++ k :: post)
    (hpre : ∀ j ∈ pre, react j c.val v = .returns) (hk : react k c.val v = .throws e took) :
    AllOrNothing fromStr react c str log ↔ e = .std ∧ pre = [] ∧ took = false := by
  have hmem : k ∈ c.cbs := by
    rw [hsplit]
    exact List.mem_append_right _ List.mem_cons_self
  have hnot := not_succeeds_of_throws hv hne hmem hk
  obtain ⟨hvar, hres, htook⟩ := fromString_of_throws log hv hne hsplit hpre hk
  rw [allOrNothing_iff_fails]
  dsimp only at hvar hres htook ⊢
  rw [hvar, hres, htook]
  constructor
  · rintro ⟨-, hfalse, -, hnone⟩
    obtain ⟨rfl, hnone⟩ := List.append_eq_nil_iff.mp hnone
    cases e with
    | other => cases hfalse
    | std =>
      cases took with
      | true => cases hnone
      | false => exact ⟨rfl, rfl, rfl⟩
  · rintro ⟨rfl, rfl, rfl⟩
    exact ⟨hnot, rfl, rfl, rfl⟩

/-- Which calls are all or nothing: those whose conversion fails with a `std::exception`, and those
whose first listener refuses the value with one. -/
theorem allOrNothing_iff :
    AllOrNothing fromStr react c str log ↔
      fromStr str = .error .std ∨
      ∃ v k, fromStr str = .ok v ∧ v ≠ c.val ∧ c.cbs.head? = some k ∧
        react k c.val v = .throws .std false := by
  cases hv : fromStr str with
  | error e =>
    have hnot : ¬ ∃ v, Succeeds fromStr react c str v := by
      rintro ⟨v, hok, -⟩
      rw [hv] at hok
      cases hok
    rw [allOrNothing_iff_fails, fromString_of_error hv]
    cases e <;> simp [hnot]
  | ok v =>
    rcases eq_or_ne v c.val with rfl | hne
    · -- No listener is called, and the call should return true.
      refine iff_of_false (not_allOrNothing_of_succeeds log ⟨hv, fun hne => absurd rfl hne⟩) ?_
      rintro (herr | ⟨w, k, hw, hne, -⟩)
      · cases herr
      · exact hne (Except.ok.inj hw).symm
    · rcases returns_or_throws react (c.val, v) c.cbs with
        hall | ⟨pre, k, post, e, took, hsplit, hpre, hk⟩
      · refine iff_of_false (not_allOrNothing_of_succeeds log ⟨hv, fun _ => hall⟩) ?_
        rintro (herr | ⟨w, k, hw, -, hfirst, hk⟩)
        · cases herr
        · obtain rfl := Except.ok.inj hw
          have hreturn := hall k (List.mem_of_mem_head? hfirst)
          rw [hk] at hreturn
          cases hreturn
      · rw [allOrNothing_iff_of_throws log hv hne hsplit hpre hk, hsplit]
        constructor
        -- the first listener throws, and has taken nothing
        · rintro ⟨rfl, rfl, rfl⟩
          exact .inr ⟨v, k, rfl, hne, rfl, hk⟩
        · rintro (herr | ⟨w, j, hw, -, hfirst, hj⟩)
          · cases herr
          · obtain rfl := Except.ok.inj hw
            cases pre with
            | nil =>
              obtain rfl := Option.some.inj hfirst
              obtain ⟨rfl, rfl⟩ := Reaction.throws.inj (hk.symm.trans hj)
              exact ⟨rfl, rfl, rfl⟩
            | cons i pre =>
              obtain rfl := Option.some.inj hfirst
              have hreturn := hpre i List.mem_cons_self
              rw [hj] at hreturn
              cases hreturn

end Calls

/-- A value that is converted and assigned, and the call returns false; and of two listeners the
first one is left with a value that the second one has refused. -/
theorem half_notified :
    (¬ AllOrNothing (fun _ => .ok 1) (fun _ _ _ => .returns) (⟨0, [], 0, by simp, by simp⟩) []
      fun _ => []) ∧
    ¬ AllOrNothing (fun _ => .ok 1) (fun k _ _ => if k = 1 then .returns else .throws .std false)
      (ConfigVar.addListener (ConfigVar.addListener (⟨0, [], 0, by simp, by simp⟩)).1).1 []
      fun _ => [] := by
  constructor
  · exact not_allOrNothing_of_succeeds _ ⟨rfl, fun _ k hk => absurd hk List.not_mem_nil⟩
  · rw [allOrNothing_iff_fails]
    intro h
    exact absurd h.2.2.2 (by decide)

end Config

end Sylar

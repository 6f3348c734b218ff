import Mathlib.Data.List.Basic

/-!
# Automata with actions

An automaton reads symbols along edges that carry actions; a symbol without an edge is an error,
and some actions end the scan. A scan in pieces is a scan of the whole. An annotation gives each
state a mode and says in which modes an action may occur; what the actions keep then holds along
every scan.

## Main definitions

* `Automaton`, `Verdict`: an automaton, and how a scan ends
* `Automaton.scan`: the verdict of a scan, where it stops, and the actions on its way
* `Automaton.Reads`: the scan of a piece, from state to state
* `Automaton.Annotation`: modes of states that the actions along every edge respect

## Main results

* `Automaton.scan_append`, `Automaton.Reads.append`: a scan in pieces
* `Automaton.Annotation.invariant_stop`: what the actions keep in their modes holds along a scan
-/

namespace Foundation

universe u v w x y

/-- How a scan ends: with the input in some state, by an action, or at a symbol without an edge. -/
inductive Verdict (σ : Type u)
  | more (s : σ)
  | ended (s : σ)
  | error
  deriving DecidableEq

/-- The state a scan ends in. -/
def Verdict.state? {σ : Type u} : Verdict σ → Option σ
  | .more s | .ended s => some s
  | .error => none

/-- An action, with the symbol it belongs to and the position of the symbol. -/
structure Event (β : Type v) (α : Type w) where
  pos : ℕ
  symbol : β
  action : α
  deriving DecidableEq

/-- The result of a scan: its verdict, the position of the next symbol, and the actions. -/
structure Scan (σ : Type u) (β : Type v) (α : Type w) where
  verdict : Verdict σ
  pos : ℕ
  events : List (Event β α)
  deriving DecidableEq

/-- An automaton: the end of an edge and its actions, and the actions that end a scan. -/
structure Automaton (σ : Type u) (β : Type v) (α : Type w) where
  next : σ → β → Option (σ × List α)
  ends : α → Bool

namespace Automaton

variable {σ : Type u} {β : Type v} {α : Type w} (A : Automaton σ β α)

/-- The actions of an edge, at a symbol. -/
def events (p : ℕ) (b : β) (acts : List α) : List (Event β α) := acts.map fun a => ⟨p, b, a⟩

/-- The scan of a list of symbols, the first one at the given position. -/
def scan : σ → ℕ → List β → Scan σ β α
  | s, p, [] => ⟨.more s, p, []⟩
  | s, p, b :: bs =>
    match A.next s b with
    | none => ⟨.error, p, []⟩
    | some (s', acts) =>
      if acts.any A.ends then ⟨.ended s', p + 1, events p b acts⟩
      else
        let r := scan s' (p + 1) bs
        { r with events := events p b acts ++ r.events }

variable {A} {s s' : σ} {p : ℕ} {b : β} {bs cs : List β} {acts : List α}

@[simp] theorem scan_nil : A.scan s p [] = ⟨.more s, p, []⟩ := rfl

theorem scan_error (h : A.next s b = none) : A.scan s p (b :: bs) = ⟨.error, p, []⟩ := by
  simp only [scan, h]

theorem scan_ended (h : A.next s b = some (s', acts)) (hends : acts.any A.ends) :
    A.scan s p (b :: bs) = ⟨.ended s', p + 1, events p b acts⟩ := by
  simp only [scan, h, hends, if_true]

theorem scan_more (h : A.next s b = some (s', acts)) (hends : acts.any A.ends = false) :
    A.scan s p (b :: bs) = { A.scan s' (p + 1) bs with
      events := events p b acts ++ (A.scan s' (p + 1) bs).events } := by
  simp only [scan, h, hends, Bool.false_eq_true, if_false]

/-- A scan reads its first symbol: there is no edge, the edge ends the scan, or the scan goes on. -/
theorem scan_cons (s : σ) (b : β) : A.next s b = none ∨ ∃ s' acts,
    A.next s b = some (s', acts) ∧ (acts.any A.ends = true ∨ acts.any A.ends = false) := by
  cases h : A.next s b with
  | none => exact .inl rfl
  | some r => exact .inr ⟨r.1, r.2, rfl, by cases r.2.any A.ends <;> simp⟩

/-- A scan that wants more has read everything. -/
theorem pos_of_more (h : (A.scan s p bs).verdict = .more s') :
    (A.scan s p bs).pos = p + bs.length := by
  induction bs generalizing s p with
  | nil => rfl
  | cons b bs ih =>
    rcases scan_cons (A := A) s b with hnext | ⟨t, acts, hnext, hends | hends⟩
    · rw [scan_error hnext] at h
      cases h
    · rw [scan_ended hnext hends] at h
      cases h
    · rw [scan_more hnext hends] at h ⊢
      rw [List.length_cons, Nat.add_comm bs.length, ← Nat.add_assoc]
      exact ih h

theorem pos_le (s : σ) (p : ℕ) (bs : List β) :
    p ≤ (A.scan s p bs).pos ∧ (A.scan s p bs).pos ≤ p + bs.length := by
  induction bs generalizing s p with
  | nil => simp
  | cons b bs ih =>
    rw [List.length_cons]
    rcases scan_cons (A := A) s b with hnext | ⟨t, acts, hnext, hends | hends⟩
    · rw [scan_error hnext]
      simp
    · rw [scan_ended hnext hends]
      simp only
      omega
    · rw [scan_more hnext hends]
      have hrest := ih t (p + 1)
      simp only
      omega

theorem lt_pos_of_ended (h : (A.scan s p bs).verdict = .ended s') : p < (A.scan s p bs).pos := by
  cases bs with
  | nil => cases h
  | cons b bs =>
    rcases scan_cons (A := A) s b with hnext | ⟨t, acts, hnext, hends | hends⟩
    · rw [scan_error hnext] at h
      cases h
    · rw [scan_ended hnext hends]
      exact Nat.lt_succ_self p
    · rw [scan_more hnext hends]
      exact (pos_le _ _ _).1

/-- **A scan in pieces**: a piece that wants more hands its state to the next one. -/
theorem scan_append (h : (A.scan s p bs).verdict = .more s') :
    A.scan s p (bs ++ cs) = { A.scan s' (p + bs.length) cs with
      events := (A.scan s p bs).events ++ (A.scan s' (p + bs.length) cs).events } := by
  induction bs generalizing s p with
  | nil =>
    cases h
    rfl
  | cons b bs ih =>
    rcases scan_cons (A := A) s b with hnext | ⟨t, acts, hnext, hends | hends⟩
    · rw [scan_error hnext] at h
      cases h
    · rw [scan_ended hnext hends] at h
      cases h
    · rw [scan_more hnext hends] at h
      rw [List.cons_append, scan_more hnext hends, scan_more hnext hends, ih h, List.length_cons,
        Nat.add_assoc, Nat.add_comm 1]
      simp

/-- A piece that ends the scan decides the whole. -/
theorem scan_append_of_ne (h : ∀ s', (A.scan s p bs).verdict ≠ .more s') :
    A.scan s p (bs ++ cs) = A.scan s p bs := by
  induction bs generalizing s p with
  | nil => exact absurd rfl (h s)
  | cons b bs ih =>
    rcases scan_cons (A := A) s b with hnext | ⟨t, acts, hnext, hends | hends⟩
    · rw [List.cons_append, scan_error hnext, scan_error hnext]
    · rw [List.cons_append, scan_ended hnext hends, scan_ended hnext hends]
    · have hrest : ∀ s', (A.scan t (p + 1) bs).verdict ≠ .more s' := fun s' hs' =>
        h s' (by rw [scan_more hnext hends]; exact hs')
      rw [List.cons_append, scan_more hnext hends, scan_more hnext hends, ih hrest]

/-- The positions of a scan count from its start. -/
theorem scan_add (s : σ) (p k : ℕ) (bs : List β) : A.scan s (k + p) bs =
    ⟨(A.scan s p bs).verdict, k + (A.scan s p bs).pos,
      (A.scan s p bs).events.map fun e => { e with pos := k + e.pos }⟩ := by
  induction bs generalizing s p with
  | nil => rfl
  | cons b bs ih =>
    rcases scan_cons (A := A) s b with hnext | ⟨t, acts, hnext, hends | hends⟩
    · rw [scan_error hnext, scan_error hnext]
      rfl
    · rw [scan_ended hnext hends, scan_ended hnext hends]
      simp [events, Nat.add_assoc]
    · rw [scan_more hnext hends, scan_more hnext hends, Nat.add_assoc, ih]
      simp [events]

/-! ## Pieces -/

section Reads

variable {τ : Type x}

/-- The scan of a piece wants more, in the state `s'`, and its actions make `t'` of `t`. -/
structure Reads (A : Automaton σ β α) (f : τ → Event β α → τ) (s : σ) (p : ℕ) (t : τ)
    (bs : List β) (s' : σ) (t' : τ) : Prop where
  verdict : (A.scan s p bs).verdict = .more s'
  result : (A.scan s p bs).events.foldl f t = t'

variable {f : τ → Event β α → τ} {s'' : σ} {t t' t'' : τ}

theorem Reads.nil : A.Reads f s p t [] s t := ⟨rfl, rfl⟩

/-- A symbol, and what comes behind it. -/
theorem Reads.cons (hnext : A.next s b = some (s', acts)) (hends : acts.any A.ends = false)
    (h : A.Reads f s' (p + 1) ((events p b acts).foldl f t) bs s'' t') :
    A.Reads f s p t (b :: bs) s'' t' := by
  refine ⟨?_, ?_⟩
  · rw [scan_more hnext hends]
    exact h.verdict
  · rw [scan_more hnext hends, List.foldl_append]
    exact h.result

theorem Reads.append (h : A.Reads f s p t bs s' t')
    (h' : A.Reads f s' (p + bs.length) t' cs s'' t'') : A.Reads f s p t (bs ++ cs) s'' t'' := by
  refine ⟨?_, ?_⟩
  · rw [scan_append h.verdict]
    exact h'.verdict
  · rw [scan_append h.verdict, List.foldl_append, h.result]
    exact h'.result

/-- A loop without actions. -/
theorem Reads.loop (h : ∀ b ∈ bs, A.next s b = some (s, [])) : A.Reads f s p t bs s t := by
  induction bs generalizing p with
  | nil => exact .nil
  | cons b bs ih =>
    exact .cons (h b (by simp)) rfl (ih fun c hc => h c (List.mem_cons_of_mem _ hc))

/-- A piece whose scan is known from the position 0. -/
theorem Reads.of_scan {n : ℕ} {evs : List (Event β α)} (h : A.scan s 0 bs = ⟨.more s', n, evs⟩)
    (hresult : (evs.map fun e => { e with pos := p + e.pos }).foldl f t = t') :
    A.Reads f s p t bs s' t' := by
  have hscan := scan_add (A := A) s 0 p bs
  rw [Nat.add_zero, h] at hscan
  exact ⟨by rw [hscan], by rw [hscan]; exact hresult⟩

/-- The scan ends behind the pieces that have been read. -/
theorem Reads.ended (h : A.Reads f s p t bs s' t')
    (hend : (A.scan s' (p + bs.length) cs).verdict = .ended s'') :
    (A.scan s p (bs ++ cs)).verdict = .ended s'' ∧
      (A.scan s p (bs ++ cs)).pos = (A.scan s' (p + bs.length) cs).pos ∧
      (A.scan s p (bs ++ cs)).events.foldl f t =
        (A.scan s' (p + bs.length) cs).events.foldl f t' := by
  rw [scan_append h.verdict]
  refine ⟨hend, rfl, ?_⟩
  rw [List.foldl_append, h.result]

end Reads

/-! ## Annotations -/

/-- Modes for the states: along every edge the actions are admitted one after the other, from the
mode of its state to one that allows the mode of its end. -/
structure Annotation (A : Automaton σ β α) (μ : Type x) where
  mode : σ → μ
  /-- The mode after an action, if the action may occur on the symbol. -/
  enter : β → μ → α → Option μ
  allows : μ → μ → Prop
  edge : ∀ {s b s' acts}, A.next s b = some (s', acts) →
    ∃ m, acts.foldlM (enter b) (mode s) = some m ∧ allows m (mode s')

variable {μ : Type x} {τ : Type y} (N : Annotation A μ)

/-- What single actions keep in their modes is kept by the actions of an edge. -/
theorem Annotation.keeps_events {R : μ → τ → Prop} {f : τ → Event β α → τ}
    (hact : ∀ {m m' a t}, N.enter b m a = some m' → R m t → R m' (f t ⟨p, b, a⟩)) {m m' : μ}
    {t : τ} (h : acts.foldlM (N.enter b) m = some m') (ht : R m t) :
    R m' ((events p b acts).foldl f t) := by
  induction acts generalizing m t with
  | nil =>
    obtain rfl := Option.some.inj h
    exact ht
  | cons a acts ih =>
    rw [List.foldlM_cons, Option.bind_eq_bind, Option.bind_eq_some_iff] at h
    obtain ⟨n, hn, hrest⟩ := h
    exact ih hrest (hact hn ht)

/-- **The invariant of a scan**: what every action keeps in the mode in which it is admitted, and
what passes to an allowed mode at the next symbol, holds where the scan stops. -/
theorem Annotation.invariant_stop (bs : List β) {R : ℕ → μ → τ → Prop} {f : τ → Event β α → τ}
    (hact : ∀ q c m m' a t, p ≤ q → bs[q - p]? = some c → N.enter c m a = some m' → R q m t →
      R q m' (f t ⟨q, c, a⟩))
    (hallows : ∀ q m m' t, p ≤ q → q < p + bs.length → N.allows m m' → R q m t → R (q + 1) m' t)
    {t : τ} (ht : R p (N.mode s) t) :
    ∃ m, (∀ s', (A.scan s p bs).verdict.state? = some s' → m = N.mode s') ∧
      R (A.scan s p bs).pos m ((A.scan s p bs).events.foldl f t) := by
  induction bs generalizing s p t with
  | nil =>
    refine ⟨N.mode s, fun s' hs' => ?_, ht⟩
    obtain rfl := Option.some.inj hs'
    rfl
  | cons b bs ih =>
    rcases scan_cons (A := A) s b with hnext | ⟨u, acts, hnext, hends⟩
    · rw [scan_error hnext]
      exact ⟨N.mode s, (fun s' hs' => nomatch hs'), ht⟩
    have hedge : R (p + 1) (N.mode u) ((events p b acts).foldl f t) := by
      obtain ⟨m, hm, hmode⟩ := N.edge hnext
      exact hallows p m _ _ (Nat.le_refl p) (by simp) hmode
        (N.keeps_events (R := R p) (hact p b _ _ _ _ (Nat.le_refl p) (by simp)) hm ht)
    rcases hends with hends | hends
    · rw [scan_ended hnext hends]
      refine ⟨N.mode u, fun s' hs' => ?_, hedge⟩
      obtain rfl := Option.some.inj hs'
      rfl
    · rw [scan_more hnext hends]
      simp only [List.foldl_append]
      refine ih (fun q c m m' a t hq hc => hact q c m m' a t (Nat.le_of_succ_le hq) ?_)
        (fun q m m' t hq hlt => hallows q m m' t (Nat.le_of_succ_le hq) ?_) hedge
      · rw [← hc, show q - p = q - (p + 1) + 1 by omega, List.getElem?_cons_succ]
      · rw [List.length_cons]
        omega

/-- The invariant, in the mode of the state in which the scan stops. -/
theorem Annotation.invariant {R : ℕ → μ → τ → Prop} {f : τ → Event β α → τ}
    (hact : ∀ q c m m' a t, p ≤ q → bs[q - p]? = some c → N.enter c m a = some m' → R q m t →
      R q m' (f t ⟨q, c, a⟩))
    (hallows : ∀ q m m' t, p ≤ q → q < p + bs.length → N.allows m m' → R q m t → R (q + 1) m' t)
    {t : τ} (ht : R p (N.mode s) t) (h : (A.scan s p bs).verdict.state? = some s') :
    R (A.scan s p bs).pos (N.mode s') ((A.scan s p bs).events.foldl f t) := by
  obtain ⟨m, hm, hend⟩ := N.invariant_stop bs hact hallows ht
  exact hm s' h ▸ hend

end Automaton

end Foundation

import Sylar.Foundation.Automaton

/-!
# Automata that compute

The actions of an automaton change a store, and may fail. `exec` reads a list of symbols and runs
the actions on the way; `path` is what it does to the state alone.

Two kinds of facts about a table carry over to whole lists. A rank that no edge lowers, with edges
inside a rank that have no actions, gives pieces that leave the store alone. A partial map of states
that commutes with the edges relates the runs of two automata in both directions: it is defined at
the end of a run only if it was defined from the start.

## Main definitions

* `Automaton.path`, `Automaton.exec`: the state behind a list of symbols, and the store with it
* `Automaton.Ranked`: a rank of the states that the edges respect

## Main results

* `Automaton.exec_append`: a run in pieces
* `Automaton.exists_crossing`: the first edge out of a set of states
* `Automaton.Ranked.exec_eq`: a run inside a rank changes no store
* `Automaton.path_bind`, `Automaton.exec_map_iff`: maps of states
-/

namespace Foundation

namespace Automaton

universe u v w x y

variable {σ : Type u} {β : Type v} {α : Type w} {τ : Type x} (A : Automaton σ β α)

/-- The state behind a symbol. -/
def target (s : σ) (b : β) : Option σ := (A.next s b).map Prod.fst

/-- The state behind a list of symbols. -/
def path (s : σ) (bs : List β) : Option σ := bs.foldlM A.target s

/-- A run over a list of symbols, the first one at the given position. It ends early at a symbol
without an edge, and fails where an action does. -/
def exec (act : ℕ → τ → α → Option τ) : σ → ℕ → τ → List β → Option (Option σ × τ)
  | s, _, t, [] => some (some s, t)
  | s, p, t, b :: bs =>
    match A.next s b with
    | none => some (none, t)
    | some (s', acts) => (acts.foldlM (act p) t).bind fun t => exec act s' (p + 1) t bs

variable {A} {act : ℕ → τ → α → Option τ} {s s' s'' : σ} {p : ℕ} {t t' t'' : τ} {b : β}
  {bs cs : List β} {acts : List α}

@[simp] theorem path_nil : A.path s [] = some s := rfl

theorem path_cons : A.path s (b :: bs) = (A.target s b).bind fun s' => A.path s' bs := rfl

theorem path_append : A.path s (bs ++ cs) = (A.path s bs).bind fun s' => A.path s' cs :=
  List.foldlM_append

theorem target_eq_some : A.target s b = some s' ↔ ∃ acts, A.next s b = some (s', acts) := by
  simp [target]

theorem path_cons_eq_some : A.path s (b :: bs) = some s'' ↔
    ∃ s' acts, A.next s b = some (s', acts) ∧ A.path s' bs = some s'' := by
  rw [path_cons, Option.bind_eq_some_iff]
  constructor
  · rintro ⟨s', hs', hrest⟩
    obtain ⟨acts, hnext⟩ := target_eq_some.mp hs'
    exact ⟨s', acts, hnext, hrest⟩
  · rintro ⟨s', acts, hnext, hrest⟩
    exact ⟨s', target_eq_some.mpr ⟨acts, hnext⟩, hrest⟩

@[simp] theorem exec_nil : A.exec act s p t [] = some (some s, t) := rfl

theorem exec_nil_eq_some : A.exec act s p t [] = some (some s', t') ↔ s = s' ∧ t = t' := by
  simp

/-- A run over a symbol that has an edge. -/
theorem exec_cons (h : A.next s b = some (s', acts)) : A.exec act s p t (b :: bs) =
    (acts.foldlM (act p) t).bind fun t => A.exec act s' (p + 1) t bs := by
  simp only [exec, h]

/-- A symbol whose edge has no actions. -/
theorem exec_cons_silent (h : A.next s b = some (s', [])) :
    A.exec act s p t (b :: bs) = A.exec act s' (p + 1) t bs := by
  rw [exec_cons h]
  rfl

theorem exec_cons_eq_some : A.exec act s p t (b :: bs) = some (some s'', t'') ↔
    ∃ s' acts t', A.next s b = some (s', acts) ∧ acts.foldlM (act p) t = some t' ∧
      A.exec act s' (p + 1) t' bs = some (some s'', t'') := by
  cases h : A.next s b with
  | none => simp [exec, h]
  | some r =>
    obtain ⟨s', acts⟩ := r
    rw [exec_cons h, Option.bind_eq_some_iff]
    simp

/-- A run whose first piece is known. -/
theorem exec_append (h : A.exec act s p t bs = some (some s', t')) :
    A.exec act s p t (bs ++ cs) = A.exec act s' (p + bs.length) t' cs := by
  induction bs generalizing s p t with
  | nil =>
    obtain ⟨rfl, rfl⟩ := exec_nil_eq_some.mp h
    rfl
  | cons b bs ih =>
    obtain ⟨r, acts, t₁, hnext, hacts, hrest⟩ := exec_cons_eq_some.mp h
    rw [List.cons_append, exec_cons hnext, hacts, Option.bind_some, ih hrest, List.length_cons,
      Nat.add_right_comm, ← Nat.add_assoc]

/-- What a run does to the state. -/
theorem path_of_exec (h : A.exec act s p t bs = some (some s', t')) : A.path s bs = some s' := by
  induction bs generalizing s p t with
  | nil =>
    obtain ⟨rfl, -⟩ := exec_nil_eq_some.mp h
    rfl
  | cons b bs ih =>
    obtain ⟨r, acts, t₁, hnext, -, hrest⟩ := exec_cons_eq_some.mp h
    exact path_cons_eq_some.mpr ⟨r, acts, hnext, ih hrest⟩

/-- Actions that never fail leave the path. -/
theorem exec_idle : A.exec (fun _ (_ : Unit) _ => some ()) s p () bs = some (some s', ()) ↔
    A.path s bs = some s' := by
  have hacts : ∀ (acts : List α) (u : Unit),
      acts.foldlM (fun (_ : Unit) _ => some ()) u = some () := by
    intro acts u
    induction acts generalizing u with
    | nil => rfl
    | cons a acts ih => exact ih ()
  induction bs generalizing s p with
  | nil => simp
  | cons b bs ih =>
    simp only [exec_cons_eq_some, path_cons_eq_some, hacts, ih, true_and, exists_const]

/-- What every edge keeps holds behind a list of symbols. -/
theorem path_keeps {P : σ → Prop} {ok : β → Prop}
    (hP : ∀ s b s' acts, P s → ok b → A.next s b = some (s', acts) → P s') (hs : P s)
    (hok : ∀ b ∈ bs, ok b) (h : A.path s bs = some s') : P s' := by
  induction bs generalizing s with
  | nil =>
    obtain rfl := Option.some.inj h
    exact hs
  | cons b bs ih =>
    obtain ⟨r, acts, hnext, hrest⟩ := path_cons_eq_some.mp h
    exact ih (hP s b r acts hs (hok b (by simp)) hnext)
      (fun c hc => hok c (List.mem_cons_of_mem _ hc)) hrest

/-- **The first edge out of a set of states** cuts a path that ends outside. -/
theorem exists_crossing {P : σ → Prop} (hs : P s) (hs' : ¬ P s') (h : A.path s bs = some s') :
    ∃ before b after r r' acts, bs = before ++ b :: after ∧ A.path s before = some r ∧ P r ∧
      A.next r b = some (r', acts) ∧ ¬ P r' ∧ A.path r' after = some s' := by
  induction bs generalizing s with
  | nil =>
    obtain rfl := Option.some.inj h
    exact absurd hs hs'
  | cons b bs ih =>
    obtain ⟨r', acts, hnext, hrest⟩ := path_cons_eq_some.mp h
    by_cases hr' : P r'
    · obtain ⟨before, b', after, r, r'', acts', rfl, hbefore, hr, hcross, hout, hafter⟩ :=
        ih hr' hrest
      exact ⟨b :: before, b', after, r, r'', acts', rfl,
        path_cons_eq_some.mpr ⟨r', acts, hnext, hbefore⟩, hr, hcross, hout, hafter⟩
    · exact ⟨[], b, bs, s, r', acts, rfl, rfl, hs, hnext, hr', hrest⟩

/-! ## Ranks -/

/-- A rank of the states. The rank 0 is for the states that are of no concern. -/
structure Ranked (A : Automaton σ β α) (rank : σ → ℕ) : Prop where
  /-- No edge lowers the rank. -/
  le : ∀ {s b s' acts}, 0 < rank s → A.next s b = some (s', acts) → rank s ≤ rank s'
  /-- The edges inside a rank have no actions. -/
  silent : ∀ {s b s' acts}, 0 < rank s → A.next s b = some (s', acts) → rank s' = rank s → acts = []

namespace Ranked

variable {rank : σ → ℕ}

theorem path_le (R : A.Ranked rank) (hs : 0 < rank s) (h : A.path s bs = some s') :
    rank s ≤ rank s' := by
  have hkeep : ∀ r b r' acts, rank s ≤ rank r → True → A.next r b = some (r', acts) →
      rank s ≤ rank r' := by
    intro r b r' acts hr _ hnext
    exact Nat.le_trans hr (R.le (Nat.lt_of_lt_of_le hs hr) hnext)
  exact path_keeps (P := fun s' => rank s ≤ rank s') hkeep (Nat.le_refl _) (fun _ _ => trivial) h

/-- **Inside a rank** a run changes no store. -/
theorem exec_eq (R : A.Ranked rank) (hs : 0 < rank s) (h : A.path s bs = some s')
    (heq : rank s' = rank s) : A.exec act s p t bs = some (some s', t) := by
  induction bs generalizing s p with
  | nil =>
    obtain rfl := Option.some.inj h
    rfl
  | cons b bs ih =>
    obtain ⟨r, acts, hnext, hrest⟩ := path_cons_eq_some.mp h
    have hle := R.le hs hnext
    have hr : 0 < rank r := Nat.lt_of_lt_of_le hs hle
    have hrank : rank r = rank s := Nat.le_antisymm (heq ▸ R.path_le hr hrest) hle
    obtain rfl := R.silent hs hnext hrank
    rw [exec_cons hnext]
    exact ih hr hrest (heq.trans hrank.symm)

end Ranked

/-! ## Maps of states -/

section Maps

variable {ρ : Type y} {g : σ → Option ρ}

/-- **A map that commutes with the edges** commutes with paths. -/
theorem path_bind {step : ρ → β → Option ρ} {P : σ → Prop}
    (hP : ∀ s b s' acts, P s → A.next s b = some (s', acts) → P s')
    (hg : ∀ s b, P s → (A.target s b).bind g = (g s).bind fun r => step r b) (hs : P s) :
    (A.path s bs).bind g = (g s).bind fun r => bs.foldlM step r := by
  induction bs generalizing s with
  | nil => exact (Option.bind_fun_some (g s)).symm
  | cons b bs ih =>
    rw [path_cons, Option.bind_assoc]
    have hrest : ∀ s' ∈ A.target s b, (A.path s' bs).bind g =
        (g s').bind fun r => bs.foldlM step r := by
      intro s' hs'
      obtain ⟨acts, hnext⟩ := target_eq_some.mp hs'
      exact ih (hP s b s' acts hs hnext)
    calc ((A.target s b).bind fun s' => (A.path s' bs).bind g)
        = (A.target s b).bind fun s' => (g s').bind fun r => bs.foldlM step r :=
          Option.bind_congr hrest
      _ = ((A.target s b).bind g).bind fun r => bs.foldlM step r :=
          (Option.bind_assoc _ _ _).symm
      _ = (g s).bind fun r => (b :: bs).foldlM step r := by
          rw [hg s b hs, Option.bind_assoc]
          rfl

variable {B : Automaton ρ β α} {r r' : ρ}

/-- **A map that commutes with the edges and their actions**: the runs of the two automata. -/
theorem exec_map_iff {P : σ → Prop} {ok : β → Prop}
    (hP : ∀ s b s' acts, P s → A.next s b = some (s', acts) → P s')
    (hg : ∀ s b, P s → ok b → ((A.next s b).bind fun e => (g e.1).map fun r => (r, e.2)) =
      (g s).bind fun r => B.next r b)
    (hs : P s) (hok : ∀ b ∈ bs, ok b) :
    (∃ r, g s = some r ∧ B.exec act r p t bs = some (some r', t')) ↔
      ∃ s', g s' = some r' ∧ A.exec act s p t bs = some (some s', t') := by
  induction bs generalizing s p t with
  | nil =>
    constructor
    · rintro ⟨r, hr, h⟩
      obtain ⟨rfl, rfl⟩ := exec_nil_eq_some.mp h
      exact ⟨s, hr, rfl⟩
    · rintro ⟨s', hs', h⟩
      obtain ⟨rfl, rfl⟩ := exec_nil_eq_some.mp h
      exact ⟨r', hs', rfl⟩
  | cons b bs ih =>
    have hedge := hg s b hs (hok b (by simp))
    have hrest {s₁ acts} (hnext : A.next s b = some (s₁, acts)) {p t} :=
      ih (p := p) (t := t) (hP s b s₁ acts hs hnext) fun c hc => hok c (List.mem_cons_of_mem _ hc)
    constructor
    · rintro ⟨r, hr, h⟩
      obtain ⟨r₁, acts, t₁, hnext, hacts, h⟩ := exec_cons_eq_some.mp h
      rw [hr, Option.bind_some, hnext, Option.bind_eq_some_iff] at hedge
      obtain ⟨⟨s₁, acts'⟩, hs₁, hmap⟩ := hedge
      obtain ⟨r₂, hr₂, heq⟩ := Option.map_eq_some_iff.mp hmap
      obtain ⟨rfl, rfl⟩ := Prod.mk.inj heq
      obtain ⟨s', hs', hexec⟩ := (hrest hs₁).mp ⟨r₂, hr₂, h⟩
      exact ⟨s', hs', exec_cons_eq_some.mpr ⟨s₁, acts', t₁, hs₁, hacts, hexec⟩⟩
    · rintro ⟨s', hs', h⟩
      obtain ⟨s₁, acts, t₁, hnext, hacts, h⟩ := exec_cons_eq_some.mp h
      obtain ⟨r₁, hr₁, hexec⟩ := (hrest hnext).mpr ⟨s', hs', h⟩
      rw [hnext, Option.bind_some, hr₁, Option.map_some] at hedge
      obtain ⟨r, hr, hstep⟩ := Option.bind_eq_some_iff.mp hedge.symm
      exact ⟨r, hr, exec_cons_eq_some.mpr ⟨r₁, acts, t₁, hstep, hacts, hexec⟩⟩

/-- The same of paths. -/
theorem path_map_iff {P : σ → Prop} {ok : β → Prop}
    (hP : ∀ s b s' acts, P s → A.next s b = some (s', acts) → P s')
    (hg : ∀ s b, P s → ok b → ((A.next s b).bind fun e => (g e.1).map fun r => (r, e.2)) =
      (g s).bind fun r => B.next r b)
    (hs : P s) (hok : ∀ b ∈ bs, ok b) :
    (∃ r, g s = some r ∧ B.path r bs = some r') ↔ ∃ s', g s' = some r' ∧ A.path s bs = some s' := by
  have hruns := @exec_map_iff σ β α Unit A (fun _ t _ => some t) s 0 () () bs ρ g B r' P ok hP hg hs
    hok
  simpa only [exec_idle] using hruns

end Maps

end Automaton

end Foundation

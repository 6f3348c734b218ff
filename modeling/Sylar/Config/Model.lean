import Mathlib.Data.List.Chain
import Mathlib.Data.List.Nodup
import Mathlib.Logic.Function.Basic
import Sylar.Foundation.Threads
import Sylar.Foundation.Transition

/-!
# Configuration variables and their listeners

A `ConfigVar` has a value and a map of callbacks that are called when the value is about to
change. `setValue` compares and notifies under the read lock, lets it go, and assigns under the
write lock. The calls of several threads interleave at these two sections.

A listener is what it has received: its callback is called with the old and the new value, in the
order of the keys of `m_cbs`, and whatever it keeps is a function of these.

## Main definitions

* `ConfigVar`, with `addListener`, `delListener` and `clearListener`
* `ConfigVar.notify`: the loop over `m_cbs`
* `Call`, `Call.exec`: `setValue`, section by section
* `System`, `machine`: the interleaved calls
* `mirror`: a copy of the value that a listener keeps up
-/

namespace Sylar

open Foundation

namespace Config

theorem sorted_nil : ([] : List ℕ).Pairwise (· < ·) := List.Pairwise.nil

theorem le_of_mem_nil (n : ℕ) : ∀ k ∈ ([] : List ℕ), k ≤ n := fun _ hk => absurd hk List.not_mem_nil

/-- A variable, with the keys of `m_cbs` in order and the last key that was given out. -/
structure ConfigVar (α : Type*) where
  val : α
  cbs : List ℕ := []
  funId : ℕ := 0
  sorted : cbs.Pairwise (· < ·) := by exact sorted_nil
  le_funId : ∀ k ∈ cbs, k ≤ funId := by exact le_of_mem_nil _

/-- What each listener has received, as old and new values. -/
abbrev Log (α : Type*) := ℕ → List (α × α)

namespace ConfigVar

variable {α : Type*}

/-- `addListener`, with the key that it returns. -/
def addListener (c : ConfigVar α) : ConfigVar α × ℕ :=
  ({ val := c.val
     cbs := c.cbs ++ [c.funId + 1]
     funId := c.funId + 1
     sorted := List.pairwise_append.mpr ⟨c.sorted, List.pairwise_singleton _ _, by
       simpa [Nat.lt_succ_iff] using c.le_funId⟩
     le_funId := by
       intro k hk
       rcases List.mem_append.mp hk with hk | hk
       · exact Nat.le_succ_of_le (c.le_funId k hk)
       · exact Nat.le_of_eq (List.mem_singleton.mp hk) }, c.funId + 1)

def delListener (c : ConfigVar α) (key : ℕ) : ConfigVar α :=
  { c with
    cbs := c.cbs.erase key
    sorted := c.sorted.sublist List.erase_sublist
    le_funId := fun k hk => c.le_funId k (List.mem_of_mem_erase hk) }

def clearListener (c : ConfigVar α) : ConfigVar α :=
  { c with
    cbs := []
    sorted := sorted_nil
    le_funId := le_of_mem_nil c.funId }

/-- `m_val = v`. -/
def assign (c : ConfigVar α) (v : α) : ConfigVar α := { c with val := v }

theorem nodup (c : ConfigVar α) : c.cbs.Nodup := c.sorted.imp Nat.ne_of_lt

/-- The loop over `m_cbs`. -/
def notify (c : ConfigVar α) (v : α) (log : Log α) : Log α :=
  c.cbs.foldl (fun log k => Function.update log k (log k ++ [(c.val, v)])) log

theorem foldl_notify {cbs : List ℕ} (hcbs : cbs.Nodup) (n : α × α) (log : Log α) (k : ℕ) :
    cbs.foldl (fun log k => Function.update log k (log k ++ [n])) log k =
      if k ∈ cbs then log k ++ [n] else log k := by
  induction cbs generalizing log with
  | nil => rfl
  | cons k' cbs ih =>
    obtain ⟨hnot, hcbs⟩ := List.nodup_cons.mp hcbs
    rw [List.foldl_cons, ih hcbs]
    rcases eq_or_ne k k' with rfl | hne
    · simp [hnot]
    · simp [hne]

/-- Each listener is called once. -/
theorem notify_apply (c : ConfigVar α) (v : α) (log : Log α) (k : ℕ) :
    c.notify v log k = if k ∈ c.cbs then log k ++ [(c.val, v)] else log k :=
  foldl_notify c.nodup _ _ _

/-- A deleted listener is not called any more. -/
theorem notify_delListener (c : ConfigVar α) (k : ℕ) (v : α) (log : Log α) :
    (c.delListener k).notify v log k = log k := by
  rw [notify_apply, if_neg]
  exact c.nodup.not_mem_erase

theorem notify_clearListener (c : ConfigVar α) (v : α) (log : Log α) :
    c.clearListener.notify v log = log := rfl

end ConfigVar

variable {α : Type*} [DecidableEq α]

/-- A call `setValue(v)` in progress. -/
inductive Call (α : Type*)
  /-- Before the section under the read lock. -/
  | compare (v : α)
  /-- Between the two sections. -/
  | store (v : α)
  deriving DecidableEq

/-- A variable with what its listeners have received, and the calls in progress. -/
structure System (α : Type*) where
  var : ConfigVar α
  log : Log α := fun _ => []
  calls : List (Call α) := []

/-- One section of a call: the variable and the listeners after it, and how the call goes on. -/
def Call.exec (var : ConfigVar α) (log : Log α) : Call α → ConfigVar α × Log α × Option (Call α)
  | .compare v =>
    -- the listeners are called under the read lock, and the value is stored under the write lock
    if v = var.val then (var, log, none) else (var, var.notify v log, some (.store v))
  | .store v => (var.assign v, log, none)

inductive Action (α : Type*)
  /-- A thread calls `setValue(v)`. -/
  | call (v : α)
  /-- A call goes on. -/
  | step (i : ℕ)
  deriving DecidableEq

def machine : Machine (System α) (Action α) where
  step s
    | .call v => some { s with calls := s.calls ++ [.compare v] }
    | .step i =>
      (s.calls[i]?).map fun call =>
        let r := call.exec s.var s.log
        ⟨r.1, r.2.1, advance s.calls i r.2.2⟩

/-- A copy of the value that starts as `init` and is set to the new value by a listener, as
`s_http_request_buffer_size` is. -/
def mirror (init : α) (received : List (α × α)) : α :=
  (received.getLast?.map Prod.snd).getD init

end Config

end Sylar

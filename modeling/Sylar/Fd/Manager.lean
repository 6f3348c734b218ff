import Mathlib.Logic.Function.Basic
import Sylar.Foundation.Signed
import Sylar.Foundation.Transition

/-!
# The table of descriptors

`FdManager` keeps a table of contexts indexed by file descriptor. Here contexts are told apart, by
the order in which they are made, and what is in them is left out. `get` looks at the table under
the read lock, and makes a context under the write lock when there is none; it does not look again.

The size of the table is compared as an `int`. An index out of the bounds of the table and a growth
to a negative size have no behaviour: such a call leads nowhere.

## Main definitions

* `index`, `growth`, `resize`: the table as a vector
* `FdManager.lookup`, `FdManager.create`: the two sections of `get`
* `FdManager.get`, `FdManager.del`: the members, run at one time
* `FdManager.stored`: what the table has for a descriptor

## Main results

* `isSome_index_iff`, `isSome_create_iff`: when an index is in range
* `stored_of_lookup`, `stored_create`: the two sections, on what the table has
* `stored_del_self`, `stored_del_of_ne`: `del`, likewise
-/

namespace Sylar

open Foundation

namespace Fd

/-! ## Vectors -/

section Vector

variable {α : Type} {v : List α} {fd : Int}

/-- `v[fd]`. -/
def index (v : List α) (fd : Int) : Option α := if 0 ≤ fd then v[fd.toNat]? else none

/-- `fd * 1.5`, as a size. -/
def growth (fd : Int) : Option ℕ := if 0 ≤ fd then some (fd.toNat * 3 / 2) else none

/-- `v.resize(n)`. -/
def resize (x : α) (n : ℕ) (v : List α) : List α := v.take n ++ List.replicate (n - v.length) x

theorem isSome_index_iff : (index v fd).isSome ↔ 0 ≤ fd ∧ fd < v.length := by
  unfold index
  by_cases hfd : 0 ≤ fd
  · rw [if_pos hfd, Option.isSome_iff_ne_none, ne_eq, List.getElem?_eq_none_iff]
    omega
  · rw [if_neg hfd]
    exact iff_of_false Bool.false_ne_true fun h => hfd h.1

theorem index_of_neg (h : fd < 0) : index v fd = none := by
  rw [index, if_neg (Int.not_le.mpr h)]

@[simp] theorem length_resize (x : α) (n : ℕ) : (resize x n v).length = n := by
  simp [resize]
  omega

theorem getElem?_resize (x : α) (n : ℕ) {i : ℕ} (hi : i < n) :
    (resize x n v)[i]? = some (v[i]?.getD x) := by
  unfold resize
  rcases Nat.lt_or_ge i v.length with hlt | hle
  · rw [List.getElem?_append_left (by rw [List.length_take]; omega), List.getElem?_take_of_lt hi,
      List.getElem?_eq_getElem hlt, Option.getD_some]
  · rw [List.getElem?_append_right (by rw [List.length_take]; omega), List.length_take,
      List.getElem?_replicate, if_pos (by omega), List.getElem?_eq_none hle, Option.getD_none]

end Vector

end Fd

/-- `FdManager`: `m_datas`, and how many contexts there have been. -/
structure FdManager where
  datas : List (Option ℕ)
  created : ℕ
  deriving DecidableEq, Repr

namespace FdManager

open Fd

/-- The constructor. -/
def new : FdManager := { datas := List.replicate 64 none, created := 0 }

/-- What the lookup of `get` comes to: it returns, or goes on under the write lock. -/
inductive Looked
  | returns (ctx : Option ℕ)
  | creates
  deriving DecidableEq, Repr

/-- The section of `get` under the read lock. -/
def lookup (m : FdManager) (fd : Int) (auto_create : Bool) : Option Looked :=
  if fd = -1 then some (.returns none)
  else if signed32 m.datas.length ≤ fd then
    -- beyond the vector
    if auto_create = false then some (.returns none) else some .creates
  else
    (index m.datas fd).map fun ctx =>
      if ctx.isSome ∨ auto_create = false then .returns ctx else .creates

/-- The section of `get` under the write lock. -/
def create (m : FdManager) (fd : Int) : Option (ℕ × FdManager) :=
  -- no second look under the write lock: a context put there meanwhile is replaced
  let ctx := m.created
  let datas := if signed32 m.datas.length ≤ fd then
      (growth fd).map fun size => resize none size m.datas
    else some m.datas
  datas.bind fun datas => (index datas fd).map fun _ =>
    (ctx, { datas := datas.set fd.toNat (some ctx), created := m.created + 1 })

def get (m : FdManager) (fd : Int) (auto_create : Bool) : Option (Option ℕ × FdManager) :=
  (m.lookup fd auto_create).bind fun
    | .returns ctx => some (ctx, m)
    | .creates => (m.create fd).map fun r => (some r.1, r.2)

def del (m : FdManager) (fd : Int) : Option FdManager :=
  if signed32 m.datas.length ≤ fd then some m
  else (index m.datas fd).map fun _ => { m with datas := m.datas.set fd.toNat none }

/-- What the table has for a descriptor. -/
def stored (m : FdManager) (fd : Int) : Option ℕ := (index m.datas fd).join

variable {m m' : FdManager} {fd fd' : Int} {auto_create : Bool} {ctx : ℕ}

/-! ## The sections -/

/-- The table reaches beyond what is compared with. -/
theorem lt_length (h : ¬ signed32 m.datas.length ≤ fd) : fd < m.datas.length :=
  Int.lt_of_lt_of_le (Int.not_le.mp h) (signed32_le _)

theorem stored_of_index {x : Option ℕ} (h : index m.datas fd = some x) : m.stored fd = x := by
  rw [stored, h, Option.join_some]

theorem stored_of_neg (h : ¬ 0 ≤ fd) : m.stored fd = none := by
  rw [stored, index_of_neg (Int.not_le.mp h), Option.join_none]

/-- What a lookup that returns says is what the table has. -/
theorem stored_of_lookup {x : Option ℕ} (h : m.lookup fd true = some (.returns x)) :
    x = m.stored fd ∧ (fd ≠ -1 → x.isSome) := by
  unfold lookup at h
  by_cases hone : fd = -1
  · rw [if_pos hone] at h
    obtain rfl := Looked.returns.inj (Option.some.inj h)
    exact ⟨(stored_of_neg (by omega)).symm, fun hne => absurd hone hne⟩
  · rw [if_neg hone] at h
    by_cases hle : signed32 m.datas.length ≤ fd
    · rw [if_pos hle, if_neg (by decide)] at h
      cases h
    · rw [if_neg hle] at h
      obtain ⟨y, hy, heq⟩ := Option.map_eq_some_iff.mp h
      by_cases hsome : y.isSome
      · rw [if_pos (.inl hsome)] at heq
        obtain rfl := Looked.returns.inj heq
        exact ⟨(stored_of_index hy).symm, fun _ => hsome⟩
      · rw [if_neg (not_or.mpr ⟨hsome, by decide⟩)] at heq
        cases heq

/-- The growth has a size that reaches beyond the descriptor. -/
def Reaches (size : ℕ) (fd : Int) : Prop := 0 ≤ fd ∧ (signed32 size ≤ fd → 2 ≤ fd)

theorem isSome_create_iff : (m.create fd).isSome ↔ Reaches m.datas.length fd := by
  unfold create Reaches
  by_cases hle : signed32 m.datas.length ≤ fd
  · rw [if_pos hle, growth]
    by_cases hfd : 0 ≤ fd
    · rw [if_pos hfd, Option.map_some, Option.bind_some, Option.isSome_map, isSome_index_iff,
        length_resize]
      omega
    · rw [if_neg hfd]
      exact iff_of_false Bool.false_ne_true fun h => hfd h.1
  · have hlt := lt_length hle
    rw [if_neg hle, Option.bind_some, Option.isSome_map, isSome_index_iff]
    exact ⟨fun h => ⟨h.1, fun h' => absurd h' hle⟩, fun h => ⟨h.1, hlt⟩⟩

theorem get_minus_one (m : FdManager) (auto_create : Bool) :
    m.get (-1) auto_create = some (none, m) := by
  rw [get, lookup, if_pos rfl, Option.bind_some]

/-- A descriptor beyond the table, without a context to be made. -/
theorem get_false_of_le (hone : fd ≠ -1) (hle : signed32 m.datas.length ≤ fd) :
    m.get fd false = some (none, m) := by
  rw [get, lookup, if_neg hone, if_pos hle, if_pos rfl, Option.bind_some]

theorem get_true_of_le (hone : fd ≠ -1) (hle : signed32 m.datas.length ≤ fd) :
    (m.get fd true).isSome ↔ Reaches m.datas.length fd := by
  rw [get, lookup, if_neg hone, if_pos hle, if_neg (by decide), Option.bind_some,
    Option.isSome_map, isSome_create_iff]

/-- A descriptor below the size of the table. -/
theorem isSome_get_of_lt (hone : fd ≠ -1) (hlt : ¬ signed32 m.datas.length ≤ fd) :
    (m.get fd auto_create).isSome ↔ 0 ≤ fd := by
  rw [get, lookup, if_neg hone, if_neg hlt]
  cases hx : index m.datas fd with
  | none =>
    have hout : ¬ (0 ≤ fd ∧ fd < m.datas.length) := fun h => by
      rw [← isSome_index_iff, hx] at h
      exact Bool.false_ne_true h
    exact iff_of_false Bool.false_ne_true fun hfd => hout ⟨hfd, lt_length hlt⟩
  | some ctx =>
    have hfd : 0 ≤ fd := (isSome_index_iff.mp (Option.isSome_of_eq_some hx)).1
    refine iff_of_true ?_ hfd
    rw [Option.map_some, Option.bind_some]
    split_ifs
    · rfl
    · rw [Option.isSome_map, isSome_create_iff]
      exact ⟨hfd, fun h => absurd h hlt⟩

/-- The table after the growth of `create`. -/
def grown (m : FdManager) (fd : Int) : List (Option ℕ) :=
  if signed32 m.datas.length ≤ fd then resize none (fd.toNat * 3 / 2) m.datas else m.datas

/-- The growth cuts no context off. -/
def Roomy (m : FdManager) (fd : Int) : Prop :=
  signed32 m.datas.length ≤ fd → ∀ fd' : Int, ((fd.toNat * 3 / 2 : ℕ) : Int) ≤ fd' →
    m.stored fd' = none

theorem create_eq (h : m.create fd = some (ctx, m')) :
    ctx = m.created ∧ 0 ≤ fd ∧ fd.toNat < (m.grown fd).length ∧
      m' = { datas := (m.grown fd).set fd.toNat (some ctx), created := m.created + 1 } := by
  unfold create at h
  obtain ⟨datas, hdatas, hmap⟩ := Option.bind_eq_some_iff.mp h
  obtain ⟨x, hx, heq⟩ := Option.map_eq_some_iff.mp hmap
  obtain ⟨rfl, rfl⟩ := Prod.mk.inj heq
  obtain ⟨hfd, hlt⟩ := isSome_index_iff.mp (Option.isSome_of_eq_some hx)
  have hgrown : datas = m.grown fd := by
    unfold grown
    split_ifs at hdatas ⊢ with hle
    · rw [growth, if_pos hfd, Option.map_some] at hdatas
      exact (Option.some.inj hdatas).symm
    · exact (Option.some.inj hdatas).symm
  subst hgrown
  exact ⟨rfl, hfd, by omega, rfl⟩

/-- What the table has after the growth. -/
theorem getElem?_grown (hroomy : m.Roomy fd) (hfd' : 0 ≤ fd') :
    ((m.grown fd)[fd'.toNat]?).join = m.stored fd' := by
  unfold grown
  split_ifs with hle
  · rcases Nat.lt_or_ge fd'.toNat (fd.toNat * 3 / 2) with hlt | hge
    · rw [getElem?_resize none _ hlt, Option.join_some, stored, index, if_pos hfd']
      cases m.datas[fd'.toNat]? <;> rfl
    · rw [hroomy hle fd' (by omega), List.getElem?_eq_none (by rw [length_resize]; exact hge),
        Option.join_none]
  · rw [stored, index, if_pos hfd']

/-- A context that is made is stored; the others stay if the growth cuts none off. -/
theorem stored_create (h : m.create fd = some (ctx, m')) (hroomy : m.Roomy fd) :
    m'.stored fd' = if fd' = fd then some ctx else m.stored fd' := by
  obtain ⟨-, hfd, hlt, rfl⟩ := create_eq h
  by_cases hfd' : 0 ≤ fd'
  · rw [stored, index, if_pos hfd']
    split_ifs with heq
    · subst heq
      rw [List.getElem?_set_self hlt, Option.join_some]
    · rw [List.getElem?_set_ne (by omega), getElem?_grown hroomy hfd']
  · rw [stored_of_neg hfd', stored_of_neg hfd', if_neg (by omega)]

theorem stored_del_self (h : m.del fd = some m') (hlt : fd < signed32 m.datas.length) :
    m'.stored fd = none := by
  rw [del, if_neg (Int.not_le.mpr hlt)] at h
  obtain ⟨x, hx, rfl⟩ := Option.map_eq_some_iff.mp h
  obtain ⟨hfd, hlen⟩ := isSome_index_iff.mp (Option.isSome_of_eq_some hx)
  rw [stored, index, if_pos hfd, List.getElem?_set_self (by omega), Option.join_some]

theorem stored_del_of_ne (h : m.del fd = some m') (hne : fd' ≠ fd) :
    m'.stored fd' = m.stored fd' := by
  unfold del at h
  split_ifs at h with hle
  · obtain rfl := Option.some.inj h
    rfl
  · obtain ⟨x, hx, rfl⟩ := Option.map_eq_some_iff.mp h
    obtain ⟨hfd, -⟩ := isSome_index_iff.mp (Option.isSome_of_eq_some hx)
    unfold stored index
    split_ifs with hfd'
    · rw [List.getElem?_set_ne (by omega)]
    · rfl

end FdManager

end Sylar

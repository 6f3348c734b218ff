import Sylar.Fd.Manager

/-!
# One context for a descriptor

Between the two sections of `get` a thread holds no lock, and the second section does not look at
the table again. Two threads that both found no context make one each: the second one replaces the
first in the table, and what is set through the first one's handle is lost.

A history keeps for every descriptor what the calls of `get(fd, true)` have returned since the last
`del(fd)`.

## Main definitions

* `Calls`, `Calls.machine`: the sections of `get` and `del`, interleaved
* `note`: the history
* `SameHandle`: all these calls returned what the table has
* `Alone`: a context is made only where the table has none, and without cutting others off

## Main results

* `SameHandle.step`: a step that meets `Alone` keeps the handles
* `one_handle`: a run whose steps meet `Alone` keeps them, and no other one does unless a
  descriptor is so large that the size of the table is no `int`
-/

namespace Sylar

open Foundation

namespace FdManager

open Fd

/-- The manager, and the descriptor for which each thread is about to make a context. -/
structure Calls where
  manager : FdManager
  creating : ℕ → Option Int

namespace Calls

/-- A section: `get` up to the end of the read lock, its rest, or `del`. -/
inductive Action
  | get (t : ℕ) (fd : Int) (auto_create : Bool)
  | create (t : ℕ)
  | del (t : ℕ) (fd : Int)
  deriving DecidableEq, Repr

def new : Calls := { manager := .new, creating := fun _ => none }

def step (s : Calls) : Action → Option Calls
  | .get t fd auto_create =>
    match s.creating t with
    | some _ => none
    | none => (s.manager.lookup fd auto_create).map fun
      | .returns _ => s
      | .creates => { s with creating := Function.update s.creating t (some fd) }
  | .create t =>
    match s.creating t with
    | none => none
    | some fd => (s.manager.create fd).map fun r =>
      { manager := r.2, creating := Function.update s.creating t none }
  | .del t fd =>
    match s.creating t with
    | some _ => none
    | none => (s.manager.del fd).map fun manager => { s with manager := manager }

/-- The calls of any number of threads. -/
def machine : Machine Calls Action where
  step s a := s.step a

/-- What the calls of `get(fd, true)` have returned since the last `del(fd)`. -/
abbrev Handles := Int → List (Option ℕ)

def note (s : Calls) (a : Action) (handles : Handles) : Handles :=
  match a with
  | .get _ fd auto_create =>
    match auto_create, s.manager.lookup fd auto_create with
    | true, some (.returns ctx) => Function.update handles fd (ctx :: handles fd)
    | _, _ => handles
  | .create t =>
    match s.creating t with
    | some fd => Function.update handles fd (some s.manager.created :: handles fd)
    | none => handles
  | .del _ fd => Function.update handles fd []

/-- The calls with the history. -/
def observed : Machine (Calls × Handles) Action := machine.observe note

/-- **One handle**: all calls for a descriptor have returned the context that the table has. -/
def SameHandle (s : Calls × Handles) : Prop :=
  ∀ fd, ∀ ctx ∈ s.2 fd, ctx = s.1.manager.stored fd

/-- A thread that makes a context finds none in the table, and its growth cuts none off. -/
def Alone (s : Calls) (a : Action) : Prop :=
  ∀ t fd, a = .create t → s.creating t = some fd →
    s.manager.stored fd = none ∧ s.manager.Roomy fd

/-! ## Steps -/

/-- What one step does. -/
inductive Does (s : Calls × Handles) : Action → Calls × Handles → Prop
  | returns (t : ℕ) (fd : Int) (ctx : Option ℕ) (hctx : ctx = s.1.manager.stored fd)
      (hsome : fd ≠ -1 → ctx.isSome) :
      Does s (.get t fd true) (s.1, Function.update s.2 fd (ctx :: s.2 fd))
  | looks (t : ℕ) (fd : Int) (auto_create : Bool) (creating : ℕ → Option Int)
      (hcreating : ∀ t' fd', creating t' = some fd' → fd' = fd ∨ s.1.creating t' = some fd') :
      Does s (.get t fd auto_create) ({ s.1 with creating := creating }, s.2)
  | creates (t : ℕ) (fd : Int) (ctx : ℕ) (manager : FdManager) (ht : s.1.creating t = some fd)
      (hcreate : s.1.manager.create fd = some (ctx, manager)) :
      Does s (.create t) ({ manager := manager, creating := Function.update s.1.creating t none },
        Function.update s.2 fd (some ctx :: s.2 fd))
  | deletes (t : ℕ) (fd : Int) (manager : FdManager) (hdel : s.1.manager.del fd = some manager) :
      Does s (.del t fd) ({ s.1 with manager := manager }, Function.update s.2 fd [])

variable {s s' : Calls × Handles} {a : Action} {fd : Int}

theorem does_of_step (h : observed.step s a = some s') : Does s a s' := by
  obtain ⟨hstep, hnote⟩ := Machine.observe_step.mp h
  obtain ⟨s₁, handles⟩ := s'
  dsimp only at hstep hnote
  subst hnote
  cases a with
  | get t fd auto_create =>
    simp only [machine, step] at hstep
    cases ht : s.1.creating t with
    | some _ => simp [ht] at hstep
    | none =>
      simp only [ht] at hstep
      obtain ⟨looked, hlooked, heq⟩ := Option.map_eq_some_iff.mp hstep
      cases looked with
      | returns ctx =>
        obtain rfl : s.1 = s₁ := heq
        cases auto_create with
        | false =>
          simp only [note]
          exact Does.looks t fd false s.1.creating fun t' fd' => .inr
        | true =>
          obtain ⟨hctx, hsome⟩ := stored_of_lookup hlooked
          simp only [note, hlooked]
          exact Does.returns t fd ctx hctx hsome
      -- the look at the table comes first, the context is made in a later step
      | creates =>
        obtain rfl := heq
        have hnote : note s.1 (.get t fd auto_create) s.2 = s.2 := by
          cases auto_create <;> simp only [note, hlooked]
        rw [hnote]
        refine Does.looks t fd auto_create _ fun t' fd' h' => ?_
        rcases eq_or_ne t' t with rfl | hne
        · rw [Function.update_self] at h'
          exact .inl (Option.some.inj h').symm
        · rw [Function.update_of_ne hne] at h'
          exact .inr h'
  | create t =>
    simp only [machine, step] at hstep
    cases ht : s.1.creating t with
    | none => simp [ht] at hstep
    | some fd =>
      simp only [ht] at hstep
      obtain ⟨⟨ctx, manager⟩, hcreate, rfl⟩ := Option.map_eq_some_iff.mp hstep
      obtain ⟨hctx, -⟩ := create_eq hcreate
      simp only [note, ht, ← hctx]
      exact Does.creates t fd ctx manager ht hcreate
  | del t fd =>
    simp only [machine, step] at hstep
    cases ht : s.1.creating t with
    | some _ => simp [ht] at hstep
    | none =>
      simp only [ht] at hstep
      obtain ⟨manager, hdel, rfl⟩ := Option.map_eq_some_iff.mp hstep
      exact Does.deletes t fd manager hdel

/-- A null pointer is returned for -1 only. -/
def NonNull (s : Calls × Handles) : Prop := ∀ fd, none ∈ s.2 fd → fd = -1

/-- A call is recorded: what it returned is in front of what the others did. -/
theorem mem_record {handles : Handles} {fd' : Int} {x ctx : Option ℕ} :
    x ∈ Function.update handles fd (ctx :: handles fd) fd' ↔
      fd' = fd ∧ x = ctx ∨ x ∈ handles fd' := by
  rcases eq_or_ne fd' fd with rfl | hne
  · rw [Function.update_self, List.mem_cons]
    simp
  · rw [Function.update_of_ne hne]
    simp [hne]

theorem mem_clear {handles : Handles} {fd' : Int} {x : Option ℕ} :
    x ∈ Function.update handles fd [] fd' ↔ fd' ≠ fd ∧ x ∈ handles fd' := by
  rcases eq_or_ne fd' fd with rfl | hne
  · rw [Function.update_self]
    simp
  · rw [Function.update_of_ne hne]
    simp [hne]

theorem NonNull.step (h : NonNull s) (hdoes : Does s a s') : NonNull s' := by
  intro fd' hmem
  cases hdoes with
  | returns t fd ctx hctx hsome =>
    rcases mem_record.mp hmem with ⟨rfl, hnull⟩ | hold
    · by_contra hne
      have hctx' := hsome hne
      rw [← hnull] at hctx'
      exact Bool.false_ne_true hctx'
    · exact h fd' hold
  | looks t fd auto_create creating hcreating => exact h fd' hmem
  | creates t fd ctx manager ht hcreate =>
    rcases mem_record.mp hmem with ⟨-, hnull⟩ | hold
    · cases hnull
    · exact h fd' hold
  | deletes t fd manager hdel => exact h fd' (mem_clear.mp hmem).2

/-- **A step of threads that make contexts one at a time.** -/
theorem SameHandle.step (h : SameHandle s) (hnull : NonNull s) (hdoes : Does s a s')
    (halone : Alone s.1 a) : SameHandle s' := by
  intro fd' x hmem
  cases hdoes with
  | returns t fd ctx hctx hsome =>
    rcases mem_record.mp hmem with ⟨rfl, rfl⟩ | hold
    · exact hctx
    · exact h fd' x hold
  | looks t fd auto_create creating hcreating => exact h fd' x hmem
  | creates t fd ctx manager ht hcreate =>
    obtain ⟨hempty, hroomy⟩ := halone t fd rfl ht
    rw [stored_create hcreate hroomy]
    rcases mem_record.mp hmem with ⟨rfl, rfl⟩ | hold
    · rw [if_pos rfl]
    · have hx := h fd' x hold
      split_ifs with heq
      · -- nothing has been returned for this descriptor: it would be in the table
        obtain ⟨-, hfd, -⟩ := create_eq hcreate
        rw [heq, hempty] at hx
        rw [heq, hx] at hold
        exact absurd (hnull fd hold) (by omega)
      · exact hx
  | deletes t fd manager hdel =>
    obtain ⟨hne, hold⟩ := mem_clear.mp hmem
    rw [stored_del_of_ne hdel hne]
    exact h fd' x hold

/-! ## Descriptors that leave the size an `int` -/

/-- A descriptor whose growth, to half as much again, is below 2^31. -/
def Small : Action → Prop
  | .get _ fd _ | .del _ fd => fd < 1431655766
  | .create _ => True

/-- What the table has was returned, and its size is an `int`. -/
structure Known (s : Calls × Handles) : Prop where
  nonNull : NonNull s
  recorded : ∀ fd ctx, s.1.manager.stored fd = some ctx → some ctx ∈ s.2 fd
  fresh : ∀ fd ctx, s.1.manager.stored fd = some ctx → ctx < s.1.manager.created
  size : s.1.manager.datas.length < 2 ^ 31
  small : ∀ t fd, s.1.creating t = some fd → fd < 1431655766

theorem Known.signed (h : Known s) :
    signed32 s.1.manager.datas.length = s.1.manager.datas.length := signed32_of_lt h.size

/-- Behind the end of the table there is nothing. -/
theorem stored_of_length_le {m : FdManager} (h : m.datas.length ≤ fd) : m.stored fd = none := by
  cases hx : index m.datas fd with
  | none => rw [stored, hx, Option.join_none]
  | some x =>
    have hlt := (isSome_index_iff.mp (Option.isSome_of_eq_some hx)).2
    exact absurd hlt (Int.not_lt.mpr h)

theorem Known.roomy (h : Known s) (hfd : 0 ≤ fd) : s.1.manager.Roomy fd := by
  intro hle fd' hfd'
  rw [h.signed] at hle
  exact stored_of_length_le (by omega)

theorem Known.step (h : Known s) (hsmall : Small a) (hdoes : Does s a s') : Known s' := by
  have hnull := h.nonNull.step hdoes
  cases hdoes with
  -- the context that is handed out is the one that is stored, and stays
  | returns t fd ctx hctx hsome =>
    exact ⟨hnull, fun fd' c hc => mem_record.mpr (.inr (h.recorded fd' c hc)), h.fresh, h.size,
      h.small⟩
  | looks t fd auto_create creating hcreating =>
    refine ⟨hnull, h.recorded, h.fresh, h.size, fun t' fd' ht' => ?_⟩
    rcases hcreating t' fd' ht' with rfl | hold
    · exact hsmall
    · exact h.small t' fd' hold
  -- a new context, which nobody has been given
  | creates t fd ctx manager ht hcreate =>
    obtain ⟨hctx, hfd, hlt, hmanager⟩ := create_eq hcreate
    have hstored := fun fd' => @stored_create _ _ _ fd' _ hcreate (h.roomy hfd)
    have hcreated : manager.created = s.1.manager.created + 1 := by rw [hmanager]
    refine ⟨hnull, fun fd' c hc => ?_, fun fd' c hc => ?_, ?_, fun t' fd' ht' => ?_⟩
    · rw [hstored] at hc
      rw [mem_record]
      split_ifs at hc with heq
      · exact .inl ⟨heq, hc.symm⟩
      · exact .inr (h.recorded fd' c hc)
    · rw [hstored] at hc
      rw [hcreated]
      split_ifs at hc
      · obtain rfl := Option.some.inj hc
        omega
      · exact Nat.lt_succ_of_lt (h.fresh fd' c hc)
    · rw [hmanager, List.length_set, grown]
      have hbound := h.small t fd ht
      have hsize := h.size
      split_ifs
      · rw [length_resize]
        omega
      · exact hsize
    · change Function.update s.1.creating t none t' = some fd' at ht'
      rcases eq_or_ne t' t with rfl | hne
      · rw [Function.update_self] at ht'
        cases ht'
      · rw [Function.update_of_ne hne] at ht'
        exact h.small t' fd' ht'
  | deletes t fd manager hdel =>
    -- beyond the vector nothing is stored, inside it is deleted
    have hmissing : manager.stored fd = none := by
      by_cases hle : signed32 s.1.manager.datas.length ≤ fd
      · rw [del, if_pos hle] at hdel
        obtain rfl := Option.some.inj hdel
        rw [h.signed] at hle
        exact stored_of_length_le hle
      · exact stored_del_self hdel (Int.not_le.mp hle)
    have hold : ∀ fd' c, manager.stored fd' = some c →
        fd' ≠ fd ∧ s.1.manager.stored fd' = some c := by
      intro fd' c hc
      have hne : fd' ≠ fd := by
        rintro rfl
        rw [hmissing] at hc
        cases hc
      exact ⟨hne, by rwa [← stored_del_of_ne hdel hne]⟩
    have hrest : manager.created = s.1.manager.created ∧
        manager.datas.length = s.1.manager.datas.length := by
      unfold del at hdel
      split_ifs at hdel
      · obtain rfl := Option.some.inj hdel
        exact ⟨rfl, rfl⟩
      · obtain ⟨x, -, rfl⟩ := Option.map_eq_some_iff.mp hdel
        exact ⟨rfl, List.length_set⟩
    refine ⟨hnull, fun fd' c hc => ?_, fun fd' c hc => ?_, hrest.2 ▸ h.size, h.small⟩
    · obtain ⟨hne, hc'⟩ := hold fd' c hc
      exact mem_clear.mpr ⟨hne, h.recorded fd' c hc'⟩
    · rw [hrest.1]
      exact h.fresh fd' c (hold fd' c hc).2

/-- Of two contexts for one descriptor the table has the later one. -/
theorem Known.alone_of_sameHandle (h : Known s) (hdoes : Does s a s') (hsame : SameHandle s') :
    Alone s.1 a := by
  intro t fd ha ht
  cases hdoes with
  | returns | looks | deletes => cases ha
  | creates t' fd' ctx manager ht' hcreate =>
    obtain rfl := Action.create.inj ha
    obtain rfl : fd' = fd := Option.some.inj (ht'.symm.trans ht)
    obtain ⟨hctx, hfd, -⟩ := create_eq hcreate
    refine ⟨?_, h.roomy hfd⟩
    cases hstored : s.1.manager.stored fd' with
    | none => rfl
    | some c =>
      have hnew := hsame fd' _ (mem_record.mpr (.inl ⟨rfl, rfl⟩))
      have hold := hsame fd' _ (mem_record.mpr (.inr (h.recorded fd' c hstored)))
      have heq : c = ctx := Option.some.inj (hold.trans hnew.symm)
      have hlt := h.fresh fd' c hstored
      omega

/-! ## Runs -/

/-- The start, with nothing returned. -/
def start : Calls × Handles := (new, fun _ => [])

theorem stored_new (fd : Int) : FdManager.new.stored fd = none := by
  unfold stored index
  split_ifs
  · rw [FdManager.new, List.getElem?_replicate]
    split_ifs <;> rfl
  · rfl

theorem known_start : Known start where
  nonNull fd hmem := absurd hmem List.not_mem_nil
  recorded fd ctx h := by
    rw [start, new, stored_new] at h
    cases h
  fresh fd ctx h := by
    rw [start, new, stored_new] at h
    cases h
  size := by decide
  small t fd h := by cases h

theorem sameHandle_start : SameHandle start := fun _ _ hmem => absurd hmem List.not_mem_nil

/-- **One context for a descriptor**: a run in which no thread makes a context where the table has
one, or cuts others off, keeps all handles the same. When the descriptors leave the size of the
table an `int`, no other run does. -/
theorem one_handle (as : List Action) :
    (observed.Meets (fun s => Alone s.1) start as → observed.Keeps SameHandle start as) ∧
    ∀ s, observed.run start as = some s → (∀ a ∈ as, Small a) →
      (observed.Keeps SameHandle start as ↔ observed.Meets (fun s => Alone s.1) start as) := by
  constructor
  · refine Machine.keeps_of_meets (I := fun s => SameHandle s ∧ NonNull s) ?_ (fun s h => h.1)
      ⟨sameHandle_start, known_start.nonNull⟩
    intro s a t h hok hstep
    have hdoes := does_of_step hstep
    exact ⟨h.1.step h.2 hdoes hok, h.2.step hdoes⟩
  · intro s hrun hsmall
    refine Machine.keeps_iff_meets_on (fun s a t hgood h hstep => ?_)
      (fun s a t hgood h hsame hstep => ?_) hsmall known_start sameHandle_start hrun
    · exact h.step hgood (does_of_step hstep)
    · have hdoes := does_of_step hstep
      exact ⟨h.alone_of_sameHandle hdoes, hsame.step h.nonNull hdoes⟩

/-- Two threads that both find no context for descriptor 5 get one each. -/
theorem two_contexts : ¬ ∀ as s, observed.run start as = some s →
    observed.Keeps SameHandle start as := by
  intro h
  have hkeeps := h [.get 0 5 true, .get 1 5 true, .create 0, .create 1] _ rfl
  have hlast := (hkeeps.2 _ rfl).2 _ rfl
  have hsame : SameHandle _ := ((hlast.2 _ rfl).2 _ rfl)
  have hzero := hsame 5 (some 0) (by decide)
  exact absurd hzero (by decide)

end Calls

end FdManager

end Sylar

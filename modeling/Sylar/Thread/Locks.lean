import Sylar.Foundation.Lock
import Sylar.Foundation.Transition
import Mathlib.Data.Finset.Insert
import Mathlib.Logic.Function.Basic

/-!
# Mutexes and the guards that lock them

`Mutex`, `Spinlock` and `RWMutex` call the locks of `pthread`, which know the thread that holds
them; `CASLock` is a flag that does not. Guards lock a mutex when they are built, may unlock it and
lock it again, and unlock it when they are destroyed if they have it then. The guards of all threads
interleave: what a guard does to its `m_locked` is a step, as is each call of the mutex, which waits
until it returns.

## Main definitions

* `Mutex`, `Spinlock`, `RWMutex`, `CASLock`: the mutexes, as locks
* `Guard`, `Guards.step`: `ScopedLockImpl`, `ReadScopedLockImpl` and `WriteScopedLockImpl`

## Main results

* `guards_exclude`: the guards of one mutex, over every run
-/

namespace Sylar

open Foundation

/-! ## Mutexes -/

/-- A lock of `pthread` that is not shared: its owner. -/
def ownedLock : Lock ℕ where
  State := Option ℕ
  uses u := u = .exclusive
  free := none
  acquire owner t _ := if owner = none then some (some t) else none
  release owner t := if owner = some t then some none else none
  Held owner H := H = (owner.map fun t => (t, Use.exclusive)).elim 0 fun x => {x}
  held_free := rfl
  held_acquire {owner owner' H t u} hH hu h := by
    obtain rfl : u = .exclusive := of_decide_eq_true hu
    split_ifs at h with hnone
    obtain rfl := Option.some.inj h
    subst hnone
    simp [hH]
  held_release {owner H t u} hH hmem := by
    cases owner with
    | none => simp [hH] at hmem
    | some t' =>
      have hx : (t, u) = (t', .exclusive) := by simpa [hH] using hmem
      cases hx
      exact ⟨none, by simp, by simp [hH]⟩
  exclusive {owner H t} hH hmem := by
    cases owner with
    | none => simp [hH] at hmem
    | some t' =>
      have hx : t = t' := by simpa [hH] using hmem
      simp [hH, hx]
  isSome_acquire {owner t u} hH _ := by
    cases owner with
    | none => simp
    | some t' => simp at hH

/-- `Mutex`, by `pthread_mutex_lock` and `pthread_mutex_unlock`. -/
def Mutex : Lock ℕ := ownedLock

/-- `Spinlock`, by `pthread_spin_lock` and `pthread_spin_unlock`. -/
def Spinlock : Lock ℕ := ownedLock

/-- A lock of `pthread` for readers and writers. -/
structure RWLock where
  writer : Option ℕ
  readers : Multiset ℕ

namespace RWLock

/-- `pthread_rwlock_rdlock`. -/
def rdlock (l : RWLock) (t : ℕ) : Option RWLock :=
  if l.writer = none then some { l with readers := t ::ₘ l.readers } else none

/-- `pthread_rwlock_wrlock`. -/
def wrlock (l : RWLock) (t : ℕ) : Option RWLock :=
  if l.writer = none ∧ l.readers = 0 then some { l with writer := some t } else none

/-- `pthread_rwlock_unlock`. -/
def unlock (l : RWLock) (t : ℕ) : Option RWLock :=
  if l.writer = some t then some { l with writer := none }
  else if t ∈ l.readers then some { l with readers := l.readers.erase t }
  else none

/-- The threads that hold the lock. -/
inductive Held : RWLock → Multiset (ℕ × Use) → Prop
  | read (readers : Multiset ℕ) : Held ⟨none, readers⟩ (readers.map fun t => (t, .shared))
  | write (t : ℕ) : Held ⟨some t, 0⟩ {(t, .exclusive)}

end RWLock

/-- `RWMutex`. -/
def RWMutex : Lock ℕ where
  State := RWLock
  uses _ := true
  free := ⟨none, 0⟩
  acquire l t
    | .shared => l.rdlock t
    | .exclusive => l.wrlock t
  release l t := l.unlock t
  Held := RWLock.Held
  held_free := .read 0
  held_acquire {l l' H t u} hH _ h := by
    cases hH with
    | read readers =>
      cases u with
      | shared =>
        obtain rfl : _ = l' := by simpa [RWLock.rdlock] using h
        simpa using RWLock.Held.read (t ::ₘ readers)
      | exclusive =>
        obtain ⟨rfl, rfl⟩ : readers = 0 ∧ _ = l' := by simpa [RWLock.wrlock] using h
        simpa using RWLock.Held.write t
    | write t' =>
      -- nobody gets in besides a writer
      cases u <;> simp [RWLock.rdlock, RWLock.wrlock] at h
  held_release {l H t u} hH hmem := by
    cases hH with
    | read readers =>
      obtain ⟨t', ht', heq⟩ := Multiset.mem_map.mp hmem
      cases heq
      refine ⟨⟨none, readers.erase t⟩, by simp [RWLock.unlock, ht'], ?_⟩
      rw [← Multiset.map_erase_of_mem (fun t => (t, Use.shared)) readers ht']
      exact .read _
    | write t' =>
      obtain ⟨rfl, rfl⟩ : t = t' ∧ u = .exclusive := by simpa using hmem
      exact ⟨⟨none, 0⟩, by simp [RWLock.unlock], by simpa using RWLock.Held.read 0⟩
  exclusive {l H t} hH hmem := by
    cases hH with
    | read readers => simp at hmem
    | write t' =>
      obtain rfl : t = t' := by simpa using hmem
      rfl
  isSome_acquire {l t u} hH _ := by
    generalize hzero : (0 : Multiset (ℕ × Use)) = H at hH
    cases hH with
    | read readers =>
      obtain rfl : readers = 0 := by simpa [eq_comm] using hzero
      cases u <;> simp [RWLock.rdlock, RWLock.wrlock]
    | write t' => simp at hzero

/-- Where a guard is: before `m_mutex.lock()` returns and before the store behind it, between two
calls, and before `m_mutex.unlock()` and before the store behind it, in the destructor or not. -/
inductive Guard.Pc
  | locking
  | locked
  | ready
  | unlocking (destroy : Bool)
  | unlocked (destroy : Bool)
  deriving DecidableEq, Repr

/-- A guard of a thread: `ScopedLockImpl` and `WriteScopedLockImpl` for exclusive use, and
`ReadScopedLockImpl` for shared use. -/
structure Guard where
  thread : ℕ
  use : Use
  m_locked : Bool
  pc : Guard.Pc
  deriving DecidableEq, Repr

namespace Guard

/-- The guard has the mutex. -/
def holds (x : Guard) : Bool :=
  match x.pc with
  | .locking => false
  | .locked => true
  | .ready => x.m_locked
  | .unlocking _ => true
  | .unlocked _ => false

/-- What `m_locked` is inside a call. -/
def Fits (x : Guard) : Prop :=
  match x.pc with
  | .locking => x.m_locked = false
  | .locked => x.m_locked = false
  | .ready => True
  | .unlocking _ => x.m_locked = true
  | .unlocked _ => x.m_locked = true

end Guard

/-- The guards of a mutex. -/
structure Guards (k : Lock ℕ) where
  mutex : k.State
  guards : ℕ → Option Guard

namespace Guards

variable {k : Lock ℕ}

/-- A mutex without guards. -/
def start (k : Lock ℕ) : Guards k where
  mutex := k.free
  guards := fun _ => none

/-- A guard is built by a thread; its calls; and the guard goes on in the call that it is in. -/
inductive Action
  | construct (g thread : ℕ) (use : Use)
  | lock (g : ℕ)
  | unlock (g : ℕ)
  | destroy (g : ℕ)
  | advance (g : ℕ)
  deriving DecidableEq, Repr

def put (s : Guards k) (g : ℕ) (x : Option Guard) : Guards k :=
  { s with guards := Function.update s.guards g x }

/-- The start of `lock()`. -/
def lock (s : Guards k) (g : ℕ) (x : Guard) : Guards k :=
  if x.m_locked then s else s.put g (some { x with pc := .locking })

/-- The start of `unlock()`, which the destructor calls. -/
def unlock (s : Guards k) (g : ℕ) (x : Guard) (destroy : Bool) : Guards k :=
  if x.m_locked then s.put g (some { x with pc := .unlocking destroy })
  else if destroy then s.put g none else s

/-- A guard goes on in a call. -/
def advance (s : Guards k) (g : ℕ) (x : Guard) : Option (Guards k) :=
  match x.pc with
  | .locking => (k.acquire s.mutex x.thread x.use).map fun mutex =>
      { s.put g (some { x with pc := .locked }) with mutex := mutex }
  | .locked => some (s.put g (some { x with m_locked := true, pc := .ready }))
  | .ready => none
  | .unlocking destroy => (k.release s.mutex x.thread).map fun mutex =>
      { s.put g (some { x with pc := .unlocked destroy }) with mutex := mutex }
  | .unlocked destroy =>
    some (s.put g (if destroy then none else some { x with m_locked := false, pc := .ready }))

/-- A step; guards are built for the uses that the mutex offers. -/
def step (s : Guards k) : Action → Option (Guards k)
  | .construct g thread use =>
    if s.guards g = none ∧ k.uses use then some (s.put g (some ⟨thread, use, false, .locking⟩))
    else none
  | .lock g => (s.guards g).bind fun x => if x.pc = .ready then some (s.lock g x) else none
  | .unlock g =>
    (s.guards g).bind fun x => if x.pc = .ready then some (s.unlock g x false) else none
  | .destroy g =>
    (s.guards g).bind fun x => if x.pc = .ready then some (s.unlock g x true) else none
  | .advance g => (s.guards g).bind fun x => s.advance g x

/-- The thread and the use of a guard. -/
def who (s : Guards k) (g : ℕ) : ℕ × Use :=
  (s.guards g).elim (0, .exclusive) fun x => (x.thread, x.use)

/-- The invariant: inside its calls, a guard's `m_locked` is what they need, and the mutex is held
by the guards that have it. -/
structure Sound (s : Guards k) : Prop where
  fits : ∀ g, ∀ x ∈ s.guards g, x.Fits ∧ k.uses x.use
  owned : ∃ H : Finset ℕ, (∀ g, g ∈ H ↔ ∃ x ∈ s.guards g, x.holds) ∧ Lock.OwnedBy s.mutex s.who H

variable {s s' : Guards k} {g : ℕ} {x : Guard}

theorem mem_put {g' : ℕ} {o : Option Guard} {y : Guard} :
    y ∈ (s.put g o).guards g' ↔ if g' = g then y ∈ o else y ∈ s.guards g' := by
  simp only [put, Function.update_apply]
  split_ifs <;> rfl

theorem who_put_of_ne {g' : ℕ} {o : Option Guard} (h : g' ≠ g) : (s.put g o).who g' = s.who g' := by
  simp [who, put, h]

theorem who_eq (hx : x ∈ s.guards g) : s.who g = (x.thread, x.use) := by
  simp [who, Option.mem_def.mp hx]

namespace Sound

variable (hs : Sound s)
include hs

/-- A step that leaves the mutex alone. -/
theorem put {o : Option Guard} (hfits : ∀ x ∈ o, x.Fits ∧ k.uses x.use)
    (hold : (∃ x ∈ s.guards g, x.holds) ↔ ∃ x ∈ o, x.holds)
    (hwho : (∃ x ∈ o, x.holds) → (s.put g o).who g = s.who g) : Sound (s.put g o) := by
  obtain ⟨H, hH, howned⟩ := hs.owned
  refine ⟨fun g' x hx => ?_, H, fun g' => ?_, howned.congr fun g' hg' => ?_⟩
  · rw [mem_put] at hx
    split_ifs at hx with h
    · exact hfits x hx
    · exact hs.fits g' x hx
  · simp only [mem_put, hH]
    split_ifs with h
    · rw [h, hold]
    · rfl
  · by_cases h : g' = g
    · subst h
      exact hwho (hold.mp ((hH g').mp hg'))
    · exact who_put_of_ne h

/-- The mutex is locked. -/
theorem acquire (hx : x ∈ s.guards g) (hpc : x.pc = .locking) {mutex : k.State}
    (h : k.acquire s.mutex x.thread x.use = some mutex) :
    Sound { s.put g (some { x with pc := .locked }) with mutex := mutex } := by
  obtain ⟨H, hH, howned⟩ := hs.owned
  obtain ⟨hfits, huse⟩ := hs.fits g x hx
  have hg : g ∉ H := by
    rw [hH]
    rintro ⟨y, hy, hholds⟩
    obtain rfl := Option.mem_unique hx hy
    simp [Guard.holds, hpc] at hholds
  refine ⟨fun g' y hy => ?_, insert g H, fun g' => ?_, ?_⟩
  · have hy := mem_put.mp hy
    split_ifs at hy with h
    · obtain rfl := Option.some.inj hy
      exact ⟨by simpa [Guard.Fits, hpc] using hfits, huse⟩
    · exact hs.fits g' y hy
  · have hmem (y : Guard) : y ∈ (s.put g (some { x with pc := .locked })).guards g' ↔ _ := mem_put
    simp only [hmem, Finset.mem_insert, hH]
    by_cases h : g' = g <;> simp [h, Guard.holds]
  · have hwho := who_eq hx
    refine (howned.insert hg (by rw [hwho]; exact huse) (by rw [hwho]; exact h)).congr
      fun g' hg' => ?_
    by_cases h : g' = g
    · simp [h, who, Guards.put, Option.mem_def.mp hx]
    · exact who_put_of_ne h

/-- The mutex is unlocked, by a guard that has it. -/
theorem release (hx : x ∈ s.guards g) {destroy : Bool} (hpc : x.pc = .unlocking destroy) :
    ∃ mutex, k.release s.mutex x.thread = some mutex ∧
      Sound { s.put g (some { x with pc := .unlocked destroy }) with mutex := mutex } := by
  obtain ⟨H, hH, howned⟩ := hs.owned
  obtain ⟨hfits, huse⟩ := hs.fits g x hx
  have hg : g ∈ H := (hH g).mpr ⟨x, hx, by simp [Guard.holds, hpc]⟩
  obtain ⟨mutex, hmutex, howned⟩ := howned.erase hg
  rw [who_eq hx] at hmutex
  refine ⟨mutex, hmutex, fun g' y hy => ?_, H.erase g, fun g' => ?_, ?_⟩
  · have hy := mem_put.mp hy
    split_ifs at hy with h
    · obtain rfl := Option.some.inj hy
      exact ⟨by simpa [Guard.Fits, hpc] using hfits, huse⟩
    · exact hs.fits g' y hy
  · have hmem (y : Guard) :
        y ∈ (s.put g (some { x with pc := .unlocked destroy })).guards g' ↔ _ := mem_put
    simp only [hmem, Finset.mem_erase, hH]
    by_cases h : g' = g <;> simp [h, Guard.holds]
  · exact howned.congr fun g' hg' => who_put_of_ne (Finset.ne_of_mem_erase hg')

/-- The start of `lock()`, between two calls. -/
theorem lock (hx : x ∈ s.guards g) (hpc : x.pc = .ready) : Sound (s.lock g x) := by
  unfold Guards.lock
  split_ifs with hlocked
  · exact hs
  refine hs.put (fun y hy => ?_) ?_ fun _ => ?_
  · obtain rfl := Option.some.inj hy
    exact ⟨by simpa [Guard.Fits] using hlocked, (hs.fits g x hx).2⟩
  · simp [Option.mem_def.mp hx, Guard.holds, hpc, hlocked]
  · simp [who, Guards.put, Option.mem_def.mp hx]

/-- The start of `unlock()`, between two calls or in the destructor. -/
theorem unlock (hx : x ∈ s.guards g) (hpc : x.pc = .ready) (destroy : Bool) :
    Sound (s.unlock g x destroy) := by
  unfold Guards.unlock
  split_ifs with hlocked hdestroy
  · refine hs.put (fun y hy => ?_) ?_ fun _ => ?_
    · obtain rfl := Option.some.inj hy
      exact ⟨by simpa [Guard.Fits] using hlocked, (hs.fits g x hx).2⟩
    · simp [Option.mem_def.mp hx, Guard.holds, hpc, hlocked]
    · simp [who, Guards.put, Option.mem_def.mp hx]
  · refine hs.put (by simp) ?_ (by simp)
    simp [Option.mem_def.mp hx, Guard.holds, hpc, hlocked]
  · exact hs

/-- A guard goes on in a call. -/
theorem advance (hx : x ∈ s.guards g) (h : s.advance g x = some s') : Sound s' := by
  obtain ⟨hfits, huse⟩ := hs.fits g x hx
  unfold Guards.advance at h
  cases hpc : x.pc with
  | locking =>
    simp only [hpc, Option.map_eq_some_iff] at h
    obtain ⟨mutex, hmutex, rfl⟩ := h
    exact hs.acquire hx hpc hmutex
  | locked =>
    obtain rfl : _ = s' := by simpa [hpc] using h
    refine hs.put (fun y hy => ?_) ?_ fun _ => ?_
    · obtain rfl := Option.some.inj hy
      exact ⟨trivial, huse⟩
    · simp [Option.mem_def.mp hx, Guard.holds, hpc]
    · simp [who, Guards.put, Option.mem_def.mp hx]
  | ready => simp [hpc] at h
  | unlocking destroy =>
    simp only [hpc, Option.map_eq_some_iff] at h
    obtain ⟨mutex, hmutex, rfl⟩ := h
    obtain ⟨mutex', hmutex', hs'⟩ := hs.release hx hpc
    obtain rfl := Option.some.inj (hmutex.symm.trans hmutex')
    exact hs'
  | unlocked destroy =>
    obtain rfl : _ = s' := by simpa [hpc] using h
    cases destroy with
    | true => exact hs.put (by simp) (by simp [Option.mem_def.mp hx, Guard.holds, hpc]) (by simp)
    | false =>
      refine hs.put (fun y hy => ?_) ?_ fun ⟨y, hy, hholds⟩ => ?_
      · obtain rfl := Option.some.inj hy
        exact ⟨trivial, huse⟩
      · simp [Option.mem_def.mp hx, Guard.holds, hpc]
      · obtain rfl := Option.some.inj hy
        simp [Guard.holds] at hholds

end Sound

/-- A step between two calls is one of a guard that is there. -/
theorem exists_of_bind {h : Guard → Option (Guards k)} (hstep : (s.guards g).bind h = some s') :
    ∃ x ∈ s.guards g, h x = some s' := Option.bind_eq_some_iff.mp hstep

/-- **A step** keeps the invariant. -/
theorem step_sound {a : Action} (hs : Sound s) (h : s.step a = some s') : Sound s' := by
  cases a with
  | construct g thread use =>
    simp only [step] at h
    split_ifs at h with hnew
    obtain ⟨hnone, huse⟩ := hnew
    obtain rfl := Option.some.inj h
    refine hs.put (fun y hy => ?_) ?_ fun ⟨y, hy, hholds⟩ => ?_
    · obtain rfl := Option.some.inj hy
      exact ⟨rfl, huse⟩
    · simp [hnone, Guard.holds]
    · obtain rfl := Option.some.inj hy
      simp [Guard.holds] at hholds
  | lock g =>
    obtain ⟨x, hx, h⟩ := exists_of_bind h
    split_ifs at h with hpc
    exact Option.some.inj h ▸ hs.lock hx hpc
  | unlock g =>
    obtain ⟨x, hx, h⟩ := exists_of_bind h
    split_ifs at h with hpc
    exact Option.some.inj h ▸ hs.unlock hx hpc false
  | destroy g =>
    obtain ⟨x, hx, h⟩ := exists_of_bind h
    split_ifs at h with hpc
    exact Option.some.inj h ▸ hs.unlock hx hpc true
  | advance g =>
    obtain ⟨x, hx, h⟩ := exists_of_bind h
    exact hs.advance hx h

def machine (k : Lock ℕ) : Machine (Guards k) Action := ⟨step⟩

end Guards

end Sylar

import Sylar.Timer.Model

/-!
# The invariant of the timer set

The set is strictly ordered, its timers have different addresses, and every timer with a callback
is in it. Each operation has one specification here: which timers are in the set after it, and
which timer objects it changes.

## Main definitions

* `Ordered`, `Wf`: the invariant, of the set and of the whole state
* `firedTimer`: a timer object after it expired

## Main results

* `Ordered.insert`, `Ordered.erase`, `Ordered.rearm`: the operations of the set
* `expired_eq`: the timers `listExpiredCb` takes out
* `fire_spec`: the loop of `listExpiredCb`
* `Wf.exec`: every call keeps the invariant
-/

namespace Sylar

open Foundation

namespace TimerManager

variable {β : Type} {m m' : TimerManager β} {i j now : ℕ} {t : Timer β}

/-! ## The order -/

theorem comparator_iff (a b : Timer β) : Timer.comparator (some a) (some b) = true ↔
    a.next < b.next ∨ a.next = b.next ∧ a.addr < b.addr := by
  simp only [Timer.comparator]
  split_ifs with h₁ h₂
  · simp [h₁]
  · simp
    omega
  · simp
    omega

theorem less_iff : m.less i j ↔ (m.heap i).next < (m.heap j).next ∨
    (m.heap i).next = (m.heap j).next ∧ (m.heap i).addr < (m.heap j).addr :=
  comparator_iff _ _

theorem less_irrefl (m : TimerManager β) (i : ℕ) : ¬ m.less i i := by
  rw [less_iff]
  omega

theorem less_trans (m : TimerManager β) (i j k : ℕ) (h₁ : m.less i j) (h₂ : m.less j k) :
    m.less i k := by
  rw [less_iff] at *
  omega

theorem less_total (h : (m.heap i).addr ≠ (m.heap j).addr) : m.less i j ∨ m.less j i := by
  rw [less_iff, less_iff]
  omega

/-- The order looks at deadlines and addresses only. -/
theorem less_congr {k : ℕ} (hi : (m.heap i).next = (m'.heap k).next ∧
    (m.heap i).addr = (m'.heap k).addr) {l : ℕ} (hj : (m.heap j).next = (m'.heap l).next ∧
    (m.heap j).addr = (m'.heap l).addr) : m.less i j ↔ m'.less k l := by
  rw [less_iff, less_iff, hi.1, hi.2, hj.1, hj.2]

/-! ## Timer objects -/

@[simp] theorem timers_put : (m.put i t).timers = m.timers := rfl

@[simp] theorem created_put : (m.put i t).created = m.created := rfl

@[simp] theorem heap_put_self : (m.put i t).heap i = t := Function.update_self ..

theorem heap_put_of_ne (h : j ≠ i) : (m.put i t).heap j = m.heap j := Function.update_of_ne h ..

@[simp] theorem heap_insert : (m.insert i).heap = m.heap := rfl

@[simp] theorem created_insert : (m.insert i).created = m.created := rfl

@[simp] theorem heap_erase : (m.erase i).heap = m.heap := rfl

@[simp] theorem created_erase : (m.erase i).created = m.created := rfl

/-! ## The set -/

/-- The set is strictly ordered, its timers exist and have different addresses. -/
structure Ordered (m : TimerManager β) : Prop where
  sorted : m.timers.Pairwise m.less
  addrs : ∀ i ∈ m.timers, ∀ j ∈ m.timers, (m.heap i).addr = (m.heap j).addr → i = j
  bound : ∀ i ∈ m.timers, i < m.created

theorem Ordered.nodup (h : m.Ordered) : m.timers.Nodup :=
  h.sorted.imp fun {i j} hlt => by
    rintro rfl
    exact m.less_irrefl i hlt

/-- Timer objects outside the set, and callbacks, do not matter to it. -/
theorem Ordered.congr (h : m.Ordered) (ht : m'.timers = m.timers)
    (hc : m.created ≤ m'.created)
    (hk : ∀ i ∈ m.timers, (m.heap i).next = (m'.heap i).next ∧
      (m.heap i).addr = (m'.heap i).addr) : m'.Ordered where
  sorted := by
    rw [ht]
    exact h.sorted.imp_of_mem fun hi hj hlt => (less_congr (hk _ hi) (hk _ hj)).mp hlt
  addrs := by
    rw [ht]
    intro i hi j hj heq
    exact h.addrs i hi j hj (by rw [(hk i hi).2, (hk j hj).2, heq])
  bound := by
    rw [ht]
    exact fun i hi => Nat.lt_of_lt_of_le (h.bound i hi) hc

theorem Ordered.put (h : m.Ordered) (hi : i ∉ m.timers) (t : Timer β) : (m.put i t).Ordered :=
  h.congr rfl (Nat.le_refl _) fun j hj => by
    rw [heap_put_of_ne (by rintro rfl; exact hi hj)]
    exact ⟨rfl, rfl⟩

theorem Ordered.clearCb (h : m.Ordered) (i : ℕ) : (m.clearCb i).Ordered :=
  h.congr rfl (Nat.le_refl _) fun j _ => by
    rcases eq_or_ne j i with rfl | hne
    · rw [TimerManager.clearCb, heap_put_self]
      exact ⟨rfl, rfl⟩
    · rw [TimerManager.clearCb, heap_put_of_ne hne]
      exact ⟨rfl, rfl⟩

/-- Insertion of a timer with an address of its own. -/
theorem Ordered.mem_insert (ha : ∀ j ∈ m.timers, (m.heap i).addr ≠ (m.heap j).addr) :
    j ∈ (m.insert i).timers ↔ j = i ∨ j ∈ m.timers :=
  mem_insertBy fun c hc => less_total (ha c hc)

theorem Ordered.insert (h : m.Ordered) (hi : i < m.created)
    (ha : ∀ j ∈ m.timers, (m.heap i).addr ≠ (m.heap j).addr) : (m.insert i).Ordered where
  sorted := pairwise_insertBy m.less_trans h.sorted
  addrs := by
    intro j hj k hk heq
    rw [mem_insert ha] at hj hk
    rcases hj with rfl | hj <;> rcases hk with rfl | hk
    · rfl
    · exact absurd heq (ha k hk)
    · exact absurd heq.symm (ha j hj)
    · exact h.addrs j hj k hk heq
  bound := by
    intro j hj
    rcases (mem_insert ha).mp hj with rfl | hj
    · exact hi
    · exact h.bound j hj

theorem Ordered.find (hi : i ∈ m.timers) : m.find i = true := findBy_of_mem m.less_irrefl hi

theorem Ordered.mem_erase (h : m.Ordered) (hi : i ∈ m.timers) :
    j ∈ (m.erase i).timers ↔ j ≠ i ∧ j ∈ m.timers := mem_eraseBy m.less_irrefl h.sorted hi

theorem Ordered.erase (h : m.Ordered) (i : ℕ) : (m.erase i).Ordered where
  sorted := h.sorted.sublist eraseBy_sublist
  addrs := fun j hj k hk => h.addrs j (eraseBy_sublist.subset hj) k (eraseBy_sublist.subset hk)
  bound := fun j hj => h.bound j (eraseBy_sublist.subset hj)

/-- A timer of the set taken out, changed and put back. -/
theorem Ordered.rearm (h : m.Ordered) (hi : i ∈ m.timers) (ht : t.addr = (m.heap i).addr) :
    (((m.erase i).put i t).insert i).Ordered ∧
      ∀ j, j ∈ (((m.erase i).put i t).insert i).timers ↔ j ∈ m.timers := by
  have hmem := fun j => h.mem_erase (j := j) hi
  have ha : ∀ j ∈ ((m.erase i).put i t).timers,
      (((m.erase i).put i t).heap i).addr ≠ (((m.erase i).put i t).heap j).addr := by
    intro j hj heq
    obtain ⟨hne, hj⟩ := (hmem j).mp hj
    rw [heap_put_self, heap_put_of_ne hne, ht] at heq
    exact hne (h.addrs i hi j hj heq).symm
  refine ⟨((h.erase i).put (fun hi' => ((hmem i).mp hi').1 rfl) t).insert (h.bound i hi) ha,
    fun j => ?_⟩
  rw [mem_insert ha, timers_put, hmem]
  constructor
  · rintro (rfl | ⟨-, hj⟩)
    · exact hi
    · exact hj
  · intro hj
    rcases eq_or_ne j i with rfl | hne
    · exact .inl rfl
    · exact .inr ⟨hne, hj⟩

/-! ## The timers that expired -/

/-- Without a rollover, the timers taken out are those whose deadline is reached, in order. -/
theorem expired_eq (h : m.Ordered) (now_ms probe : ℕ) :
    m.expired now_ms probe false =
      (m.timers.filter (fun i => decide ((m.heap i).next ≤ now_ms)),
        m.timers.filter fun i => !decide ((m.heap i).next ≤ now_ms)) := by
  have hdown : ∀ i j, m.less i j → decide ((m.heap j).next ≤ now_ms) = true →
      decide ((m.heap i).next ≤ now_ms) = true := by
    intro i j hlt hj
    rw [less_iff] at hlt
    rw [decide_eq_true_eq] at hj ⊢
    omega
  let probed : ℕ → Bool := fun i =>
    Timer.comparator (some (m.heap i)) (some ({ addr := probe, next := now_ms } : Timer β))
  have hprobed : ∀ i, probed i = true ↔ (m.heap i).next < now_ms ∨
      (m.heap i).next = now_ms ∧ (m.heap i).addr < probe := fun i => comparator_iff _ _
  have hsub : ∀ i ∈ m.timers, probed i → decide ((m.heap i).next ≤ now_ms) = true := by
    intro i _ hi
    rw [hprobed] at hi
    rw [decide_eq_true_eq]
    omega
  -- behind the lower bound of the probe, a deadline that is reached is the present
  have hbehind : ∀ i ∈ m.timers.dropWhile probed,
      decide ((m.heap i).next = now_ms) = decide ((m.heap i).next ≤ now_ms) := by
    intro i hi
    rw [dropWhile_eq_filter (fun i j hlt hj => ?_) h.sorted, List.mem_filter] at hi
    · have hnot : ¬ probed i = true := by simpa using hi.2
      rw [hprobed] at hnot
      rw [decide_eq_decide]
      omega
    · rw [less_iff] at hlt
      rw [hprobed] at hj ⊢
      omega
  have hexpired : m.expired now_ms probe false =
      (m.timers.takeWhile (fun i => decide ((m.heap i).next ≤ now_ms)),
        m.timers.dropWhile fun i => decide ((m.heap i).next ≤ now_ms)) := by
    rw [← takeWhile_append_takeWhile hsub, ← dropWhile_dropWhile hsub, ← takeWhile_congr hbehind,
      ← drop_length_takeWhile (fun i => decide ((m.heap i).next ≤ now_ms)),
      ← takeWhile_congr hbehind, ← drop_length_takeWhile probed]
    rfl
  rw [hexpired, takeWhile_eq_filter hdown h.sorted, dropWhile_eq_filter hdown h.sorted]

theorem expired_rollover (now_ms probe : ℕ) : m.expired now_ms probe true = (m.timers, []) := by
  simp [expired]

/-- A timer object after it expired. -/
def firedTimer (now_ms : ℕ) (t : Timer β) : Timer β :=
  if t.recurring then { t with next := u64 (now_ms + t.ms) } else { t with cb := none }

theorem addr_firedTimer (now_ms : ℕ) (t : Timer β) : (firedTimer now_ms t).addr = t.addr := by
  unfold firedTimer
  split_ifs <;> rfl

theorem heap_fireOne (now_ms : ℕ) (m : TimerManager β) (i j : ℕ) :
    (m.fireOne now_ms i).heap j = if j = i then firedTimer now_ms (m.heap i) else m.heap j := by
  unfold fireOne firedTimer
  split_ifs with hr hji hji
  · subst hji
    exact heap_put_self
  · exact heap_put_of_ne hji
  · subst hji
    exact heap_put_self
  · exact heap_put_of_ne hji

@[simp] theorem created_fireOne (now_ms : ℕ) (m : TimerManager β) (i : ℕ) :
    (m.fireOne now_ms i).created = m.created := by
  unfold fireOne
  split_ifs <;> rfl

theorem addr_fireOne (now_ms : ℕ) (m : TimerManager β) (i j : ℕ) :
    ((m.fireOne now_ms i).heap j).addr = (m.heap j).addr := by
  rw [heap_fireOne]
  split_ifs with h
  · rw [addr_firedTimer, h]
  · rfl

/-- One turn of the loop. -/
theorem Ordered.fireOne (h : m.Ordered) (hi : i ∉ m.timers) (hc : i < m.created)
    (ha : ∀ j ∈ m.timers, (m.heap i).addr ≠ (m.heap j).addr) (now_ms : ℕ) :
    (m.fireOne now_ms i).Ordered ∧ ∀ j, j ∈ (m.fireOne now_ms i).timers ↔
      j ∈ m.timers ∨ j = i ∧ (m.heap i).recurring = true := by
  unfold TimerManager.fireOne
  split_ifs with hr
  · have ha' : ∀ j ∈ (m.setNext i (u64 (now_ms + (m.heap i).ms))).timers,
        ((m.setNext i (u64 (now_ms + (m.heap i).ms))).heap i).addr ≠
          ((m.setNext i (u64 (now_ms + (m.heap i).ms))).heap j).addr := by
      intro j hj
      rw [setNext, heap_put_self, heap_put_of_ne (by rintro rfl; exact hi hj)]
      exact ha j hj
    refine ⟨(h.put hi _).insert hc ha', fun j => ?_⟩
    rw [mem_insert ha']
    simp only [setNext, timers_put, hr, and_true]
    exact or_comm
  · refine ⟨h.clearCb i, fun j => ?_⟩
    simp only [TimerManager.clearCb, timers_put, hr, and_false, or_false, Bool.false_eq_true]

/-- **The loop of `listExpiredCb`**: it hands out the callbacks in order, puts the recurring
timers back and clears the others. -/
theorem fire_spec (now_ms : ℕ) (es : List ℕ) (h : m.Ordered) (hnd : es.Nodup)
    (hes : ∀ i ∈ es, i ∉ m.timers ∧ i < m.created)
    (haddrs : ∀ i ∈ es, ∀ j, (j ∈ es ∨ j ∈ m.timers) → (m.heap i).addr = (m.heap j).addr → i = j) :
    (fire now_ms es m).1 = es.map (fun i => (m.heap i).cb) ∧
    (fire now_ms es m).2.Ordered ∧
    (∀ j, j ∈ (fire now_ms es m).2.timers ↔
      j ∈ m.timers ∨ j ∈ es ∧ (m.heap j).recurring = true) ∧
    (∀ j, (fire now_ms es m).2.heap j =
      if j ∈ es then firedTimer now_ms (m.heap j) else m.heap j) ∧
    (fire now_ms es m).2.created = m.created := by
  induction es generalizing m with
  | nil => exact ⟨rfl, h, by simp [fire], by simp [fire], rfl⟩
  | cons i es ih =>
    obtain ⟨hnot, hnd'⟩ := List.nodup_cons.mp hnd
    obtain ⟨hi, hc⟩ := hes i (by simp)
    obtain ⟨hord, hmem⟩ := h.fireOne hi hc (fun j hj heq => hi (by
      rwa [haddrs i (by simp) j (.inr hj) heq])) now_ms
    have hheap := heap_fireOne now_ms m i
    have hne : ∀ j ∈ es, j ≠ i := fun j hj => by
      rintro rfl
      exact hnot hj
    -- a recurring timer is put back among those that are not expired, never among the rest
    have hes' : ∀ j ∈ es, j ∉ (m.fireOne now_ms i).timers ∧ j < (m.fireOne now_ms i).created := by
      intro j hj
      obtain ⟨hj', hcj⟩ := hes j (by simp [hj])
      rw [hmem, created_fireOne]
      exact ⟨not_or.mpr ⟨hj', fun hji => hne j hj hji.1⟩, hcj⟩
    have haddrs' : ∀ j ∈ es, ∀ k, (k ∈ es ∨ k ∈ (m.fireOne now_ms i).timers) →
        ((m.fireOne now_ms i).heap j).addr = ((m.fireOne now_ms i).heap k).addr → j = k := by
      intro j hj k hk heq
      rw [addr_fireOne, addr_fireOne] at heq
      rw [hmem] at hk
      refine haddrs j (by simp [hj]) k ?_ heq
      rcases hk with hk | hk | ⟨rfl, -⟩
      · exact .inl (by simp [hk])
      · exact .inr hk
      · exact .inl (by simp)
    obtain ⟨hcbs, hord', hmem', hheap', hcreated⟩ := ih hord hnd' hes' haddrs'
    refine ⟨?_, hord', fun j => ?_, fun j => ?_, hcreated.trans (created_fireOne ..)⟩
    · simp only [fire, List.map_cons, hcbs, List.cons.injEq, true_and]
      refine List.map_congr_left fun j hj => ?_
      rw [hheap, if_neg (hne j hj)]
    · rw [fire, hmem', hmem, hheap]
      rcases eq_or_ne j i with rfl | hji
      · simp [hnot]
      · simp [hji]
    · rw [fire, hheap', hheap]
      rcases eq_or_ne j i with rfl | hji
      · simp [hnot]
      · simp [hji]

/-! ## The operations -/

/-- **The invariant**: the set is ordered, and every timer with a callback is in it. -/
structure Wf (m : TimerManager β) : Prop extends Ordered m where
  armed : ∀ i, (m.heap i).cb.isSome → i ∈ m.timers

/-- What an operation leaves: an ordered set with the given members, and the given timer
objects. -/
structure Leaves (m' : TimerManager β) (member : ℕ → Prop) (obj : ℕ → Timer β) (count : ℕ) :
    Prop extends Ordered m' where
  mem : ∀ j, j ∈ m'.timers ↔ member j
  heap : ∀ j, m'.heap j = obj j
  created : m'.created = count

theorem Leaves.wf {member : ℕ → Prop} {obj : ℕ → Timer β} {count : ℕ}
    (h : m'.Leaves member obj count) (ha : ∀ j, (obj j).cb.isSome → member j) : m'.Wf :=
  { h.toOrdered with armed := fun j hj => (h.mem j).mpr (ha j (by rwa [← h.heap j])) }

theorem Wf.new (now : ℕ) : (new now : TimerManager β).Wf where
  sorted := .nil
  addrs := fun i hi => by cases hi
  bound := fun i hi => by cases hi
  armed := fun i hi => by cases hi

theorem Ordered.addTimerPtr (h : m.Ordered) (hi : i < m.created)
    (ha : ∀ j ∈ m.timers, (m.heap i).addr ≠ (m.heap j).addr) :
    (m.addTimerPtr i).2.Leaves (fun j => j = i ∨ j ∈ m.timers) m.heap m.created := by
  have hord := h.insert hi ha
  have htimers : (m.addTimerPtr i).2.timers = (m.insert i).timers := by
    simp only [TimerManager.addTimerPtr]
    split_ifs <;> rfl
  have hheap : (m.addTimerPtr i).2.heap = m.heap := by
    simp only [TimerManager.addTimerPtr]
    split_ifs <;> rfl
  have hcreated : (m.addTimerPtr i).2.created = m.created := by
    simp only [TimerManager.addTimerPtr]
    split_ifs <;> rfl
  refine ⟨hord.congr htimers (by rw [hcreated]; exact Nat.le_refl _) fun j _ => ?_, fun j => ?_,
    fun j => by rw [hheap], hcreated⟩
  · rw [hheap]
    exact ⟨rfl, rfl⟩
  · rw [htimers]
    exact mem_insert ha

theorem addTimer_spec (wf : m.Wf) {ms addr : ℕ} {cb : Option β} {recurring : Bool}
    {r : (ℕ × Bool) × TimerManager β} (hr : m.addTimer now ms cb recurring addr = some r) :
    r.1.1 = m.created ∧ r.2.Leaves (fun j => j = m.created ∨ j ∈ m.timers)
      (fun j => if j = m.created then ⟨addr, recurring, ms, u64 (now + ms), cb⟩ else m.heap j)
      (m.created + 1) := by
  unfold TimerManager.addTimer at hr
  split_ifs at hr with haddr
  obtain rfl := Option.some.inj hr
  have hfresh : m.created ∉ m.timers := fun hmem => Nat.lt_irrefl _ (wf.bound _ hmem)
  have hord : ({ m.put m.created ⟨addr, recurring, ms, u64 (now + ms), cb⟩ with
      created := m.created + 1 } : TimerManager β).Ordered :=
    (wf.toOrdered.put hfresh _).congr rfl (Nat.le_succ _) fun _ _ => ⟨rfl, rfl⟩
  have hadd := hord.addTimerPtr (i := m.created) (Nat.lt_succ_self _) fun j hj => by
    have hne : j ≠ m.created := by
      rintro rfl
      exact hfresh hj
    simp only [heap_put_self, heap_put_of_ne hne]
    exact fun heq => haddr j hj heq.symm
  refine ⟨rfl, hadd.toOrdered, hadd.mem, fun j => ?_, hadd.created⟩
  rw [hadd.heap]
  split_ifs with hj
  · rw [hj]
    exact heap_put_self
  · exact heap_put_of_ne hj

theorem cancel_empty (h : (m.heap i).cb = none) : m.cancel i = some (false, m) := by
  simp [TimerManager.cancel, h]

theorem cancel_spec (wf : m.Wf) (h : (m.heap i).cb.isSome) :
    ∃ m', m.cancel i = some (true, m') ∧
      m'.Leaves (fun j => j ≠ i ∧ j ∈ m.timers)
        (fun j => if j = i then { m.heap i with cb := none } else m.heap j) m.created := by
  have hi : i ∈ (m.clearCb i).timers := wf.armed i h
  have hord := wf.toOrdered.clearCb i
  refine ⟨(m.clearCb i).erase i, ?_, hord.erase i, fun j => hord.mem_erase hi, fun j => ?_, rfl⟩
  · simp only [TimerManager.cancel, if_pos h, if_pos (Ordered.find hi)]
  · split_ifs with hj
    · rw [hj]
      exact heap_put_self
    · exact heap_put_of_ne hj

theorem clearCb_erase_put (m : TimerManager β) (i : ℕ) (t : Timer β) :
    (((m.clearCb i).erase i).put i t).heap = Function.update m.heap i t :=
  Function.update_idem ..

theorem refresh_empty (h : (m.heap i).cb = none) : m.refresh now i = some (false, m) := by
  simp [TimerManager.refresh, h]

/-- `refresh` moves the timer, and leaves it without its callback. -/
theorem refresh_spec (now : ℕ) (wf : m.Wf) (h : (m.heap i).cb.isSome) :
    ∃ m', m.refresh now i = some (true, m') ∧
      m'.Leaves (· ∈ m.timers)
        (fun j => if j = i then { m.heap i with next := u64 (now + (m.heap i).ms), cb := none }
          else m.heap j) m.created := by
  have hi : i ∈ (m.clearCb i).timers := wf.armed i h
  have hself : (m.clearCb i).heap i = { m.heap i with cb := none } := heap_put_self
  obtain ⟨hord, hmem⟩ := (wf.toOrdered.clearCb i).rearm hi
    (t := { m.heap i with next := u64 (now + (m.heap i).ms), cb := none }) (by rw [hself])
  refine ⟨_, ?_, hord, hmem, fun j => ?_, rfl⟩
  · simp only [TimerManager.refresh, if_pos h, if_pos (Ordered.find hi), setNext, heap_erase, hself]
  · rw [heap_insert, clearCb_erase_put, Function.update_apply]

theorem reset_empty {ms : ℕ} {from_now : Bool} (h : (m.heap i).cb = none) :
    m.reset now i ms from_now = some ((false, false), m) := by
  simp [TimerManager.reset, h]

theorem reset_same (h : (m.heap i).cb.isSome) :
    m.reset now i (m.heap i).ms false = some ((true, false), m) := by
  simp [TimerManager.reset, h]

/-- The new deadline of `reset`. -/
def resetNext (now ms : ℕ) (from_now : Bool) (t : Timer β) : ℕ :=
  u64 ((if from_now then now else u64Sub t.next t.ms) + ms)

/-- A timer after `reset`. -/
def resetTimer (now ms : ℕ) (from_now : Bool) (t : Timer β) : Timer β :=
  { t with ms := ms, next := resetNext now ms from_now t, cb := none }

/-- The set of `reset` before the timer is put back. -/
def taken (m : TimerManager β) (now i ms : ℕ) (from_now : Bool) : TimerManager β :=
  ((m.clearCb i).erase i).put i (resetTimer now ms from_now (m.heap i))

/-- `reset` to another interval puts the timer back like a new one. -/
theorem reset_eq (now : ℕ) (wf : m.Wf) {ms : ℕ} {from_now : Bool} (h : (m.heap i).cb.isSome)
    (hne : ¬ (ms = (m.heap i).ms ∧ from_now = false)) :
    m.reset now i ms from_now =
      some ((true, ((m.taken now i ms from_now).addTimerPtr i).1),
        ((m.taken now i ms from_now).addTimerPtr i).2) := by
  have hi : i ∈ (m.clearCb i).timers := wf.armed i h
  have hself : (m.clearCb i).heap i = { m.heap i with cb := none } := heap_put_self
  have hif : ¬ (ms = (m.heap i).ms ∧ (!from_now) = true) := by simpa using hne
  simp only [TimerManager.reset, if_pos h, if_neg hif, if_pos (Ordered.find hi), heap_erase,
    hself]
  rfl

theorem heap_taken {ms : ℕ} {from_now : Bool} : (m.taken now i ms from_now).heap j =
    if j = i then resetTimer now ms from_now (m.heap i) else m.heap j := by
  rw [taken, clearCb_erase_put, Function.update_apply]

theorem Wf.taken (now : ℕ) (wf : m.Wf) (ms : ℕ) (from_now : Bool) (hi : i ∈ m.timers) :
    (m.taken now i ms from_now).Ordered ∧
      (∀ j, j ∈ (m.taken now i ms from_now).timers ↔ j ≠ i ∧ j ∈ m.timers) ∧
      ∀ j ∈ (m.taken now i ms from_now).timers,
        ((m.taken now i ms from_now).heap i).addr ≠ ((m.taken now i ms from_now).heap j).addr := by
  have hord := wf.toOrdered.clearCb i
  have hmem := fun j => hord.mem_erase (j := j) hi
  refine ⟨(hord.erase i).put (fun hi' => ((hmem i).mp hi').1 rfl) _, hmem, fun j hj heq => ?_⟩
  obtain ⟨hji, hj⟩ := (hmem j).mp hj
  rw [heap_taken, heap_taken, if_pos rfl, if_neg hji] at heq
  exact hji (wf.addrs i hi j hj heq).symm

/-- `reset` to another interval moves the timer, and leaves it without its callback. -/
theorem reset_spec (now : ℕ) (wf : m.Wf) {ms : ℕ} {from_now : Bool} (h : (m.heap i).cb.isSome)
    (hne : ¬ (ms = (m.heap i).ms ∧ from_now = false)) :
    ∃ f m', m.reset now i ms from_now = some ((true, f), m') ∧
      m'.Leaves (· ∈ m.timers)
        (fun j => if j = i then
          { m.heap i with ms := ms, next := resetNext now ms from_now (m.heap i), cb := none }
          else m.heap j) m.created := by
  have hi := wf.armed i h
  obtain ⟨hord, hmem, haddrs⟩ := wf.taken now ms from_now hi
  have hadd := hord.addTimerPtr (wf.bound i hi) haddrs
  refine ⟨_, _, reset_eq now wf h hne, hadd.toOrdered, fun j => ?_, fun j => ?_, hadd.created⟩
  · rw [hadd.mem, hmem]
    constructor
    · rintro (rfl | ⟨-, hj⟩)
      · exact hi
      · exact hj
    · intro hj
      rcases eq_or_ne j i with rfl | hji
      · exact .inl rfl
      · exact .inr ⟨hji, hj⟩
  · rw [hadd.heap, heap_taken]
    rfl

/-- The timers that are due: all of them if the clock went back, otherwise those whose deadline is
reached. -/
def due (m : TimerManager β) (now_ms : ℕ) : List ℕ :=
  if m.rollover now_ms then m.timers
  else m.timers.filter fun i => decide ((m.heap i).next ≤ now_ms)

theorem due_sublist (m : TimerManager β) (now_ms : ℕ) :
    (m.due now_ms).Sublist m.timers := by
  unfold due
  split_ifs
  · exact List.Sublist.refl _
  · exact List.filter_sublist

/-- The timers taken out and the others. -/
theorem expired_due (h : m.Ordered) (now_ms probe : ℕ) :
    (m.expired now_ms probe (m.rollover now_ms)).1 = m.due now_ms ∧
      (m.expired now_ms probe (m.rollover now_ms)).2.Sublist m.timers ∧
      ∀ j, j ∈ (m.expired now_ms probe (m.rollover now_ms)).2 ↔
        j ∈ m.timers ∧ j ∉ m.due now_ms := by
  unfold due
  cases m.rollover now_ms with
  | true => simp [expired_rollover]
  | false =>
    rw [expired_eq h]
    refine ⟨rfl, List.filter_sublist, fun j => ?_⟩
    simp only [List.mem_filter, Bool.not_eq_true', decide_eq_false_iff_not, Bool.false_eq_true,
      if_false, decide_eq_true_eq]
    constructor
    · exact fun ⟨hj, hnot⟩ => ⟨hj, fun hdue => hnot hdue.2⟩
    · exact fun ⟨hj, hnot⟩ => ⟨hj, fun hle => hnot ⟨hj, hle⟩⟩

theorem Ordered.sublist (h : m.Ordered) {l : List ℕ} (hl : l.Sublist m.timers) (now_ms : ℕ) :
    ({ m with timers := l, previouseTime := now_ms } : TimerManager β).Ordered where
  sorted := h.sorted.sublist hl
  addrs := fun i hi j hj => h.addrs i (hl.subset hi) j (hl.subset hj)
  bound := fun i hi => h.bound i (hl.subset hi)

/-- When the front is not due, nothing is. -/
theorem due_eq_nil (h : m.Ordered) {now_ms front : ℕ} (hr : m.rollover now_ms = false)
    (hf : m.timers.head? = some front) (hlt : now_ms < (m.heap front).next) :
    m.due now_ms = [] := by
  unfold due
  rw [hr, if_neg (by simp), List.filter_eq_nil_iff]
  intro j hj
  rw [decide_eq_true_eq]
  cases hts : m.timers with
  | nil => simp [hts] at hf
  | cons c l =>
    obtain rfl : c = front := by simpa [hts] using hf
    have hsorted := h.sorted
    rw [hts] at hsorted hj
    rcases List.mem_cons.mp hj with rfl | hj
    · omega
    · have hless := (List.pairwise_cons.mp hsorted).1 j hj
      rw [less_iff] at hless
      omega

/-- **`listExpiredCb`** hands out the callbacks of the timers that are due, in order; the
recurring ones stay in the set with a new deadline, the others leave it. -/
theorem listExpiredCb_spec (h : m.Ordered) (now_ms probe : ℕ) :
    ∃ m', m.listExpiredCb now_ms probe =
        some ((m.due now_ms, (m.due now_ms).map fun i => (m.heap i).cb), m') ∧
      m'.Leaves (fun j => j ∈ m.timers ∧ (j ∉ m.due now_ms ∨ (m.heap j).recurring = true))
        (fun j => if j ∈ m.due now_ms then firedTimer now_ms (m.heap j) else m.heap j)
        m.created := by
  obtain ⟨hdue, hrest, hmem⟩ := expired_due h now_ms probe
  have hsub := (due_sublist m now_ms).subset
  -- the whole pass, on the timers that are due
  obtain ⟨hcbs, hord, hmem', hheap, hcreated⟩ := fire_spec now_ms (m.due now_ms)
    (h.sublist hrest now_ms) (h.nodup.sublist (due_sublist m now_ms))
    (fun i hi => ⟨fun hi' => ((hmem i).mp hi').2 hi, h.bound i (hsub hi)⟩)
    (fun i hi j hj => h.addrs i (hsub hi) j
      (hj.elim (fun hj => hsub hj) fun hj => ((hmem j).mp hj).1))
  have hleaves : (fire now_ms (m.due now_ms) { m with
      timers := (m.expired now_ms probe (m.rollover now_ms)).2
      previouseTime := now_ms }).2.Leaves
      (fun j => j ∈ m.timers ∧ (j ∉ m.due now_ms ∨ (m.heap j).recurring = true))
      (fun j => if j ∈ m.due now_ms then firedTimer now_ms (m.heap j) else m.heap j)
      m.created := by
    refine ⟨hord, fun j => ?_, hheap, hcreated⟩
    rw [hmem', hmem]
    by_cases hj : j ∈ m.due now_ms
    · simp [hj, hsub hj]
    · simp [hj]
  have hpass : ∀ b, ({ m with previouseTime := now_ms } : TimerManager β).expired now_ms probe b =
      m.expired now_ms probe b := fun _ => rfl
  unfold listExpiredCb expire
  by_cases hempty : m.timers = []
  · have hnil : m.due now_ms = [] := by
      rw [List.eq_nil_iff_forall_not_mem]
      intro j hj
      have hj' := hsub hj
      rw [hempty] at hj'
      cases hj'
    refine ⟨m, by simp [hempty, hnil], h, fun j => by simp [hempty], fun j => by simp [hnil], rfl⟩
  rw [if_neg (by simpa using hempty)]
  cases hr : m.rollover now_ms with
  | true =>
    rw [hr] at hdue hleaves
    simp only [if_true, hpass, hdue]
    exact ⟨_, by rw [← hcbs, hr], hleaves⟩
  | false =>
    rw [hr] at hdue hleaves
    cases hf : m.timers.head? with
    | none => exact absurd (List.head?_eq_none_iff.mp hf) hempty
    | some front =>
      simp only [Bool.false_eq_true, if_false, hf, hpass, hdue]
      split_ifs with hlt
      · have hnil := due_eq_nil h hr hf hlt
        refine ⟨_, by rw [hnil]; rfl, h.sublist (List.Sublist.refl _) now_ms, fun j => ?_,
          fun j => ?_, rfl⟩
        · simp [hnil]
        · simp [hnil]
      · exact ⟨_, by rw [← hcbs, hr], hleaves⟩

/-! ## Runs -/

theorem Wf.addTimer (wf : m.Wf) {ms addr : ℕ} {cb : Option β} {recurring : Bool}
    {r : (ℕ × Bool) × TimerManager β} (hr : m.addTimer now ms cb recurring addr = some r) :
    r.2.Wf := by
  refine (addTimer_spec wf hr).2.wf fun j hj => ?_
  split_ifs at hj with hji
  · exact .inl hji
  · exact .inr (wf.armed j hj)

/-- An operation on a single timer that leaves it without its callback. -/
theorem Wf.disarm (wf : m.Wf) (hcb : t.cb = none)
    (h : m'.Leaves (· ∈ m.timers) (fun j => if j = i then t else m.heap j) m.created) : m'.Wf := by
  refine h.wf fun j hj => ?_
  split_ifs at hj with hji
  · simp [hcb] at hj
  · exact wf.armed j hj

theorem Wf.cancel (wf : m.Wf) {r : Bool × TimerManager β} (hr : m.cancel i = some r) :
    r.2.Wf := by
  cases h : (m.heap i).cb with
  | none =>
    rw [cancel_empty h] at hr
    obtain rfl := Option.some.inj hr
    exact wf
  | some cb =>
    obtain ⟨m', hm', hl⟩ := cancel_spec wf (i := i) (by simp [h])
    obtain rfl := Option.some.inj (hm'.symm.trans hr)
    refine hl.wf fun j hj => ?_
    split_ifs at hj with hji
    · simp at hj
    · exact ⟨hji, wf.armed j hj⟩

theorem Wf.refresh (wf : m.Wf) {r : Bool × TimerManager β} (hr : m.refresh now i = some r) :
    r.2.Wf := by
  cases h : (m.heap i).cb with
  | none =>
    rw [refresh_empty h] at hr
    obtain rfl := Option.some.inj hr
    exact wf
  | some cb =>
    obtain ⟨m', hm', hl⟩ := refresh_spec now wf (i := i) (by simp [h])
    obtain rfl := Option.some.inj (hm'.symm.trans hr)
    exact wf.disarm rfl hl

theorem Wf.reset (wf : m.Wf) {ms : ℕ} {from_now : Bool} {r : (Bool × Bool) × TimerManager β}
    (hr : m.reset now i ms from_now = some r) : r.2.Wf := by
  cases h : (m.heap i).cb with
  | none =>
    rw [reset_empty h] at hr
    obtain rfl := Option.some.inj hr
    exact wf
  | some cb =>
    by_cases hsame : ms = (m.heap i).ms ∧ from_now = false
    · obtain ⟨rfl, rfl⟩ := hsame
      rw [reset_same (by simp [h])] at hr
      obtain rfl := Option.some.inj hr
      exact wf
    · obtain ⟨f, m', hm', hl⟩ := reset_spec now wf (i := i) (by simp [h]) hsame
      obtain rfl := Option.some.inj (hm'.symm.trans hr)
      exact wf.disarm rfl hl

theorem Wf.listExpiredCb (wf : m.Wf) {probe : ℕ}
    {r : (List ℕ × List (Option β)) × TimerManager β}
    (hr : m.listExpiredCb now probe = some r) : r.2.Wf := by
  obtain ⟨m', hm', hl⟩ := listExpiredCb_spec wf.toOrdered now probe
  obtain rfl := Option.some.inj (hm'.symm.trans hr)
  refine hl.wf fun j hj => ?_
  split_ifs at hj with hdue
  · refine ⟨(due_sublist m now).subset hdue, .inr ?_⟩
    unfold firedTimer at hj
    split_ifs at hj with hrec
    · exact hrec
    · simp at hj
  · exact ⟨wf.armed j hj, .inl hdue⟩

/-- **Every call keeps the invariant.** -/
theorem Wf.exec (wf : m.Wf) {c : Call β} {a : Answer β} (h : m.exec now c = some (a, m')) :
    m'.Wf := by
  cases c with
  | addTimer ms cb recurring addr =>
    obtain ⟨r, hr, heq⟩ := Option.map_eq_some_iff.mp h
    obtain ⟨-, rfl⟩ := Prod.mk.inj heq
    exact wf.addTimer hr
  | getNextTimer =>
    obtain ⟨-, rfl⟩ := Prod.mk.inj (Option.some.inj h)
    have hwf : ({ m with tickled := false } : TimerManager β).Wf :=
      { wf.toOrdered.congr rfl (Nat.le_refl _) (fun _ _ => ⟨rfl, rfl⟩) with armed := wf.armed }
    simp only [TimerManager.getNextTimer]
    split
    · exact hwf
    · split <;> exact hwf
  | listExpiredCb probe =>
    obtain ⟨r, hr, heq⟩ := Option.map_eq_some_iff.mp h
    obtain ⟨-, rfl⟩ := Prod.mk.inj heq
    exact wf.listExpiredCb hr
  | cancel i =>
    simp only [TimerManager.exec] at h
    split_ifs at h
    obtain ⟨r, hr, heq⟩ := Option.map_eq_some_iff.mp h
    obtain ⟨-, rfl⟩ := Prod.mk.inj heq
    exact wf.cancel hr
  | refresh i =>
    simp only [TimerManager.exec] at h
    split_ifs at h
    obtain ⟨r, hr, heq⟩ := Option.map_eq_some_iff.mp h
    obtain ⟨-, rfl⟩ := Prod.mk.inj heq
    exact wf.refresh hr
  | reset i ms from_now =>
    simp only [TimerManager.exec] at h
    split_ifs at h
    obtain ⟨r, hr, heq⟩ := Option.map_eq_some_iff.mp h
    obtain ⟨-, rfl⟩ := Prod.mk.inj heq
    exact wf.reset hr

/-- **Every reachable state has the invariant.** -/
theorem wf_of_reaches {t₀ : ℕ} (h : (machine β).Reaches (new t₀) m) : m.Wf := by
  refine h.invariant (Wf.new t₀) fun s c u wf _ hstep => ?_
  obtain ⟨⟨a, u'⟩, hexec, rfl⟩ := Option.map_eq_some_iff.mp hstep
  exact wf.exec hexec

end TimerManager

end Sylar

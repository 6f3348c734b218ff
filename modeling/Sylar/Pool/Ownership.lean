import Mathlib.Tactic.Ring
import Sylar.Pool.Model

/-!
# Who has a connection

Between a `getConnection` and a release a connection goes through the hands of several calls: it
is taken out of `m_conns`, given to a client, tested, put back or deleted. At every moment it is in
one place only, counting the hands of the calls in progress. `m_total` is behind what it counts by
what the calls have not yet booked, so it is exact when no call is in progress. `ReleasePtr` counts
a request before it tests for the limit, and a connection that has reached it is not put back; that
bounds how often one is given out.

## Main definitions

* `Call.hands`, `Call.counted`: the connections a call has, and what it has in `m_total`
* `given`: how often a connection was given out, as a history of the run
* `Exec`: what one access of a call does to the books
* `Inv`: the books balance

## Main results

* `exec_spec`, `Inv.step`: every access keeps the books
* `ownership`: each connection has one place, `m_total` is exact between calls, and no connection
  is given out more often than the limit, or once
-/

namespace Sylar

open Foundation

namespace Pool

/-! ## What a call has -/

namespace Call

/-- The connections in the hands of a call. -/
@[simp] def hands : Call → List ℕ
  | .scan _ invalid_conns => invalid_conns
  | .unlock invalid_conns ptr => invalid_conns ++ ptr.toList
  | .clear rest _ ptr => rest ++ ptr.toList
  | .discount _ ptr => ptr.toList
  | .enter p | .ret p | .released p | .test p | .delete p | .relock p | .put p => [p]
  | .lock _ | .connect | .uncount | .leave => []

/-- The connections that `m_total` has for a call: those in its hands, but for a new one, and
those it has deleted. -/
@[simp] def counted : Call → ℕ
  | .scan _ invalid_conns => invalid_conns.length
  | .unlock invalid_conns ptr => invalid_conns.length + ptr.toList.length
  | .clear _ n ptr | .discount n ptr => n + ptr.toList.length
  | .ret _ | .released _ | .test _ | .delete _ | .uncount | .relock _ | .put _ => 1
  | .lock _ | .connect | .enter _ | .leave => 0

/-- The connection whose request is not yet counted. -/
@[simp] def unbooked : Call → List ℕ
  | .released p => [p]
  | _ => []

/-- The connection whose request is counted, while the limit may have been reached. -/
@[simp] def booked : Call → List ℕ
  | .test p | .delete p => [p]
  | _ => []

/-- The call is about to give a connection out. -/
@[simp] def gives : Call → List ℕ
  | .ret p => [p]
  | _ => []

/-- The call has the lock. -/
@[simp] def inside : Call → ℕ
  | .scan .. | .unlock .. | .put _ | .leave => 1
  | _ => 0

end Call

/-- How often each connection was given out. -/
def given (s : System) (a : Action) (n : ℕ → ℕ) : ℕ → ℕ :=
  match a with
  | .step i _ => fun c => n c + ((s.calls[i]?).map fun call => call.gives.count c).getD 0
  | _ => n

/-! ## The books -/

variable {s t : HttpConnectionPool} {r : Reading} {call : Call} {next : Option Call} {c p : ℕ}

/-- How often a connection is in the pool, with a client, or deleted. -/
def HttpConnectionPool.places (s : HttpConnectionPool) (c : ℕ) : ℕ :=
  s.conns.count c + s.held.count c + s.freed.count c

/-- Whether a connection has been made. -/
def HttpConnectionPool.made (s : HttpConnectionPool) (c : ℕ) : ℕ := if c < s.created then 1 else 0

/-- The requests of a connection. -/
def HttpConnectionPool.requests (s : HttpConnectionPool) (c : ℕ) : ℕ := (s.heap c).request.toNat

/-- What a call that goes on has of `f`; one that ends has none. -/
def after (next : Option Call) (f : Call → ℕ) : ℕ := (next.map f).getD 0

@[simp] theorem after_some (f : Call → ℕ) : after (some call) f = f call := rfl

@[simp] theorem after_none (f : Call → ℕ) : after none f = 0 := rfl

/-- **One access of a call**, in the books. -/
structure Exec (s t : HttpConnectionPool) (call : Call) (next : Option Call) : Prop where
  limits : t.maxSize = s.maxSize ∧ t.maxAliveTime = s.maxAliveTime ∧ t.maxRequest = s.maxRequest
  once : ∀ c, t.places c + after next (fun call => call.hands.count c) + s.made c =
    s.places c + call.hands.count c + t.made c
  total : (t.total.toNat + s.conns.length + s.held.length + call.counted) % 2 ^ 32 =
    (s.total.toNat + t.conns.length + t.held.length + after next Call.counted) % 2 ^ 32
  mutex : call.inside ≤ s.mutex.toNat →
    t.mutex.toNat + call.inside = s.mutex.toNat + after next Call.inside
  held : ∀ c, t.held.count c = s.held.count c + call.gives.count c
  unbooked : ∀ c, after next (fun call => call.unbooked.count c) = 0
  /-- Only `++ptr->m_request` and a new connection touch one. -/
  heap : (t.heap = s.heap ∧ t.created = s.created ∧ call.unbooked = []) ∨
    (∃ p, call = .released p ∧ t = s.count p ∧ next = some (.test p)) ∨ t = s.new ∧ call = .connect
  /-- A connection whose request is counted is deleted, or has not reached the limit. -/
  booked : ∀ c, s.requests c < s.maxRequest.toNat ∨ s.freed.count c + call.booked.count c ≤
    t.freed.count c + after next fun call => call.booked.count c

/-- An access that only moves connections. -/
theorem Exec.of_moves (hl : t.maxSize = s.maxSize ∧ t.maxAliveTime = s.maxAliveTime ∧
      t.maxRequest = s.maxRequest)
    (hcreated : t.created = s.created) (hheap : t.heap = s.heap) (htotal : t.total = s.total)
    (hplaces : ∀ c, t.places c + after next (fun call => call.hands.count c) =
      s.places c + call.hands.count c)
    (hcounted : t.conns.length + t.held.length + after next Call.counted =
      s.conns.length + s.held.length + call.counted)
    (hmutex : call.inside ≤ s.mutex.toNat →
      t.mutex.toNat + call.inside = s.mutex.toNat + after next Call.inside)
    (hheld : ∀ c, t.held.count c = s.held.count c + call.gives.count c)
    (hunbooked : call.unbooked = [] ∧ ∀ c, after next (fun call => call.unbooked.count c) = 0)
    (hbooked : ∀ c, s.freed.count c + call.booked.count c ≤
      t.freed.count c + after next fun call => call.booked.count c) :
    Exec s t call next where
  limits := hl
  once c := by
    have := hplaces c
    simp only [HttpConnectionPool.made, hcreated]
    omega
  total := by
    rw [htotal]
    exact congrArg (· % 2 ^ 32) (by omega)
  mutex := hmutex
  held := hheld
  unbooked := hunbooked.2
  heap := .inl ⟨hheap, hcreated, hunbooked.1⟩
  booked c := .inr (hbooked c)

/-- A connection that passes the test has not reached the limit. -/
theorem requests_lt_of_not_spent (h : s.spent p r = false) :
    s.requests p < s.maxRequest.toNat := by
  have hlt : (s.heap p).request < s.maxRequest.toUInt64 := by
    simp only [HttpConnectionPool.spent, Bool.or_eq_false_iff, decide_eq_false_iff_not] at h
    exact UInt64.not_le.mp h.2
  rw [UInt64.lt_iff_toNat_lt, UInt32.toNat_toUInt64] at hlt
  exact hlt

theorem exec_spec (h : call.exec s r = some (t, next)) : Exec s t call next := by
  cases call with
  | lock now_ms =>
    simp only [Call.exec, Option.ite_none_left_eq_some, Option.some.injEq, Prod.mk.injEq] at h
    obtain ⟨hm, rfl, rfl⟩ := h
    apply Exec.of_moves <;> simp [HttpConnectionPool.places]
    grind
  -- from the list to the invalid ones, or to the pointer
  | scan now_ms invalid_conns =>
    simp only [Call.exec] at h
    split at h
    case h_1 =>
      obtain ⟨rfl, rfl⟩ : s = t ∧ _ = next := by simpa using h
      apply Exec.of_moves <;> simp [HttpConnectionPool.places]
    case h_2 p conns hconns =>
      split_ifs at h <;> simp only [Option.some.injEq, Prod.mk.injEq] at h <;>
        obtain ⟨rfl, rfl⟩ := h <;> apply Exec.of_moves <;>
        simp [HttpConnectionPool.places, hconns, List.count_cons] <;> omega
  | unlock invalid_conns ptr =>
    obtain ⟨rfl, rfl⟩ : _ = t ∧ _ = next := by simpa [Call.exec] using h
    have hm := s.mutex.toNat_le
    apply Exec.of_moves <;> simp [HttpConnectionPool.places]
    omega
  | clear rest n ptr =>
    cases rest with
    | nil =>
      obtain ⟨rfl, rfl⟩ : _ = t ∧ _ = next := by simpa [Call.exec] using h
      apply Exec.of_moves <;> simp [HttpConnectionPool.places]
    | cons p rest =>
      obtain ⟨rfl, rfl⟩ : _ = t ∧ _ = next := by simpa [Call.exec] using h
      apply Exec.of_moves <;>
        simp [HttpConnectionPool.places, HttpConnectionPool.delete, List.count_cons]
      omega
  | discount n ptr =>
    obtain ⟨rfl, rfl⟩ : _ = t ∧ _ = next := by simpa [Call.exec] using h
    cases ptr <;> constructor <;>
      simp [HttpConnectionPool.places, HttpConnectionPool.made, BitVec.toNat_sub] <;> omega
  -- the only place where a connection is made
  | connect =>
    simp only [Call.exec] at h
    split_ifs at h <;> simp only [Option.some.injEq, Prod.mk.injEq] at h <;>
      obtain ⟨rfl, rfl⟩ := h <;> constructor <;>
      simp [HttpConnectionPool.places, HttpConnectionPool.made, HttpConnectionPool.new]
    intro c
    grind
  | enter p =>
    obtain ⟨rfl, rfl⟩ : _ = t ∧ _ = next := by simpa [Call.exec] using h
    constructor <;> simp [HttpConnectionPool.places, HttpConnectionPool.made, BitVec.toNat_add]
    omega
  | ret p =>
    obtain ⟨rfl, rfl⟩ : _ = t ∧ _ = next := by simpa [Call.exec] using h
    apply Exec.of_moves <;> simp [HttpConnectionPool.places, List.count_cons] <;> omega
  | released p =>
    obtain ⟨rfl, rfl⟩ : _ = t ∧ _ = next := by simpa [Call.exec] using h
    constructor <;> simp [HttpConnectionPool.places, HttpConnectionPool.made,
      HttpConnectionPool.count]
    exact fun _ => rfl
  -- what is not spent has a request left
  | test p =>
    obtain ⟨rfl, rfl⟩ : _ = t ∧ _ = next := by simpa [Call.exec] using h
    cases hspent : s.spent p r with
    | true => apply Exec.of_moves <;> simp [HttpConnectionPool.places]
    | false =>
      constructor <;> simp [HttpConnectionPool.places]
      intro c
      rcases eq_or_ne p c with rfl | hne
      · exact .inl (requests_lt_of_not_spent hspent)
      · exact .inr (by simp [hne])
  | delete p =>
    obtain ⟨rfl, rfl⟩ : _ = t ∧ _ = next := by simpa [Call.exec] using h
    apply Exec.of_moves <;>
      simp [HttpConnectionPool.places, HttpConnectionPool.delete, List.count_cons]
    omega
  | uncount =>
    obtain ⟨rfl, rfl⟩ : _ = t ∧ _ = next := by simpa [Call.exec] using h
    constructor <;> simp [HttpConnectionPool.places, HttpConnectionPool.made, BitVec.toNat_sub]
    omega
  | relock p =>
    simp only [Call.exec, Option.ite_none_left_eq_some, Option.some.injEq, Prod.mk.injEq] at h
    obtain ⟨hm, rfl, rfl⟩ := h
    apply Exec.of_moves <;> simp [HttpConnectionPool.places]
    grind
  | put p =>
    obtain ⟨rfl, rfl⟩ : _ = t ∧ _ = next := by simpa [Call.exec] using h
    apply Exec.of_moves <;> simp [HttpConnectionPool.places, List.count_cons] <;> omega
  | leave =>
    obtain ⟨rfl, rfl⟩ : _ = t ∧ _ = next := by simpa [Call.exec] using h
    have hm := s.mutex.toNat_le
    apply Exec.of_moves <;> simp [HttpConnectionPool.places]
    omega

/-! ## Runs -/

/-- The books balance. -/
structure Inv (s : System) (n : ℕ → ℕ) : Prop where
  once : ∀ c, s.pool.places c + tally s.calls (fun call => call.hands.count c) =
    s.pool.made c
  total : s.pool.total.toNat = (s.pool.conns.length + s.pool.held.length +
    tally s.calls Call.counted) % 2 ^ 32
  mutex : tally s.calls Call.inside = s.pool.mutex.toNat
  outs : ∀ c, n c = s.pool.requests c + s.pool.held.count c +
    tally s.calls fun call => call.unbooked.count c
  fresh : ∀ c, s.pool.created ≤ c → s.pool.heap c = {}
  bound : ∀ c, s.pool.requests c ≤ max 1 s.pool.maxRequest.toNat
  ready : ∀ c, s.pool.requests c = 0 ∨ s.pool.requests c < s.pool.maxRequest.toNat ∨
    1 ≤ s.pool.freed.count c + tally s.calls fun call => call.booked.count c
  createTime : ∀ c, (s.pool.heap c).createTime = 0

theorem made_le (s : HttpConnectionPool) (c : ℕ) : s.made c ≤ 1 := by
  unfold HttpConnectionPool.made
  split_ifs <;> omega

theorem unbooked_add_booked_le (call : Call) (c : ℕ) :
    call.unbooked.count c + call.booked.count c ≤ call.hands.count c := by
  cases call <;> simp

namespace Inv

variable {s t : System} {n : ℕ → ℕ} {a : Action} {l : List ℕ} {c p : ℕ}

theorem start (max_size max_alive_time max_request : UInt32) :
    Inv (Pool.start max_size max_alive_time max_request) fun _ => 0 where
  once c := by simp [Pool.start, HttpConnectionPool.places, HttpConnectionPool.made]
  total := by simp [Pool.start]
  mutex := rfl
  outs c := by simp [Pool.start, HttpConnectionPool.requests]
  fresh c _ := rfl
  bound c := by simp [Pool.start, HttpConnectionPool.requests]
  ready c := .inl (by simp [Pool.start, HttpConnectionPool.requests])
  createTime c := rfl

theorem get (h : Inv s n) (now_ms : UInt64) :
    Inv { s with calls := s.calls ++ [.lock now_ms] } n where
  once c := by
    rw [tally_append]
    exact h.once c
  total := by
    rw [tally_append]
    exact h.total
  mutex := (tally_append _).trans h.mutex
  outs c := by
    rw [tally_append]
    exact h.outs c
  fresh := h.fresh
  bound := h.bound
  ready c := by
    rw [tally_append]
    exact h.ready c
  createTime := h.createTime

/-- A client's connection goes into the hands of a call. -/
theorem count_erase_add (hp : p ∈ l) (c : ℕ) : (l.erase p).count c + [p].count c = l.count c := by
  have hperm := (List.perm_cons_erase hp).count_eq c
  rw [List.count_cons] at hperm
  rw [List.count_singleton, hperm]

theorem release (h : Inv s n) (hp : p ∈ s.pool.held) :
    Inv ⟨{ s.pool with held := s.pool.held.erase p }, s.calls ++ [.released p]⟩ n where
  once c := by
    have hc := h.once c
    have hheld := count_erase_add hp c
    simp only [tally_append, HttpConnectionPool.places, HttpConnectionPool.made,
      Call.hands] at hc ⊢
    omega
  total := by
    have ht := h.total
    have hpos := List.length_pos_of_mem hp
    simp only [tally_append, Call.counted, List.length_erase_of_mem hp] at ht ⊢
    omega
  mutex := (tally_append _).trans h.mutex
  outs c := by
    have hc := h.outs c
    have hheld := count_erase_add hp c
    simp only [tally_append, HttpConnectionPool.requests, Call.unbooked] at hc ⊢
    omega
  fresh := h.fresh
  bound := h.bound
  ready c := by
    rw [tally_append]
    exact h.ready c
  createTime := h.createTime

/-- What is in the hands of a call has been made, and is in no other place. -/
theorem hands_le (h : Inv s n) {call : Call} {i : ℕ} (hcall : s.calls[i]? = some call) (c : ℕ) :
    call.hands.count c ≤ s.pool.made c := by
  have hc := h.once c
  have hle : call.hands.count c ≤ tally s.calls fun call => call.hands.count c :=
    le_tally (fun call => call.hands.count c) hcall
  omega

/-- A connection whose request is about to be counted can take one. -/
theorem unbooked_ready (h : Inv s n) {call : Call} {i : ℕ} (hcall : s.calls[i]? = some call)
    (hc : 1 ≤ call.unbooked.count c) :
    s.pool.requests c = 0 ∨ s.pool.requests c < s.pool.maxRequest.toNat := by
  have honce := h.once c
  have hready := h.ready c
  have hadd := tally_mono (l := s.calls) fun call => unbooked_add_booked_le call c
  rw [tally_add] at hadd
  have hle := le_tally (fun call => call.unbooked.count c) hcall
  have hmade := made_le s.pool c
  simp only [HttpConnectionPool.places] at honce hready hle
  omega

theorem requests_lt (h : Inv s n) (c : ℕ) : s.pool.requests c < 2 ^ 32 := by
  have hb := h.bound c
  have := s.pool.maxRequest.toNat_lt
  omega

/-- The requests of a connection after an access. -/
theorem requests_of_exec (h : Inv s n) {call : Call} {t : HttpConnectionPool}
    {next : Option Call} (he : Exec s.pool t call next) (c : ℕ) :
    t.requests c = s.pool.requests c + call.unbooked.count c := by
  rcases he.heap with ⟨hheap, -, hun⟩ | ⟨p, rfl, rfl, -⟩ | ⟨rfl, rfl⟩
  · rw [HttpConnectionPool.requests, hheap, hun]
    rfl
  · have hlt := h.requests_lt c
    rcases eq_or_ne c p with rfl | hne
    · simp only [HttpConnectionPool.requests, HttpConnectionPool.heap_count_self,
        UInt64.toNat_add, Call.unbooked, List.count_singleton_self] at hlt ⊢
      exact Nat.mod_eq_of_lt (by simp only [UInt64.reduceToNat]; omega)
    · rw [HttpConnectionPool.requests, HttpConnectionPool.heap_count_of_ne hne]
      simp [HttpConnectionPool.requests, Ne.symm hne]
  · rcases eq_or_ne c s.pool.created with rfl | hne
    · rw [HttpConnectionPool.requests, HttpConnectionPool.heap_new_self,
        ← h.fresh _ (Nat.le_refl _)]
      rfl
    · rw [HttpConnectionPool.requests, HttpConnectionPool.heap_new_of_ne hne]
      rfl

theorem fresh_of_exec (h : Inv s n) {call : Call} {i : ℕ} (hcall : s.calls[i]? = some call)
    {t : HttpConnectionPool} {next : Option Call} (he : Exec s.pool t call next) (c : ℕ)
    (hc : t.created ≤ c) : t.heap c = {} := by
  rcases he.heap with ⟨hheap, hcreated, -⟩ | ⟨p, rfl, rfl, -⟩ | ⟨rfl, -⟩
  · rw [hheap]
    exact h.fresh c (hcreated ▸ hc)
  · have hp := h.hands_le hcall p
    have hne : c ≠ p := by
      rintro rfl
      rw [HttpConnectionPool.made, if_neg (show ¬ c < s.pool.created from Nat.not_lt.mpr hc)] at hp
      simp at hp
    rw [HttpConnectionPool.heap_count_of_ne hne]
    exact h.fresh c hc
  · have hne : c ≠ s.pool.created := by
      rintro rfl
      exact Nat.not_succ_le_self _ hc
    rw [HttpConnectionPool.heap_new_of_ne hne]
    exact h.fresh c (Nat.le_of_succ_le hc)

theorem createTime_of_exec (h : Inv s n) {call : Call} {t : HttpConnectionPool}
    {next : Option Call} (he : Exec s.pool t call next) (c : ℕ) : (t.heap c).createTime = 0 := by
  rcases he.heap with ⟨hheap, -, -⟩ | ⟨p, rfl, rfl, -⟩ | ⟨rfl, -⟩
  · rw [hheap]
    exact h.createTime c
  · rcases eq_or_ne c p with rfl | hne
    · rw [HttpConnectionPool.heap_count_self]
      exact h.createTime c
    · rw [HttpConnectionPool.heap_count_of_ne hne]
      exact h.createTime c
  · rcases eq_or_ne c s.pool.created with rfl | hne
    · rw [HttpConnectionPool.heap_new_self]
    · rw [HttpConnectionPool.heap_new_of_ne hne]
      exact h.createTime c

/-- **An access keeps the books.** -/
theorem exec (h : Inv s n) {call : Call} {i : ℕ} (hcall : s.calls[i]? = some call)
    {t : HttpConnectionPool} {next : Option Call} (he : Exec s.pool t call next) :
    Inv ⟨t, advance s.calls i next⟩ fun c => n c + call.gives.count c where
  -- each field compares the access with what the calls hold before and after it
  once c := by
    have hc := h.once c
    have hec := he.once c
    have ht := tally_advance next (fun call => call.hands.count c) hcall
    simp only [after] at *
    omega
  total := by
    have hn := h.total
    have hen := he.total
    have ht := tally_advance next Call.counted hcall
    simp only [after] at *
    omega
  mutex := by
    have hm := h.mutex
    have hem := he.mutex (by have := le_tally Call.inside hcall; omega)
    have ht := tally_advance next Call.inside hcall
    simp only [after] at *
    omega
  outs c := by
    have hc := h.outs c
    have hreq := h.requests_of_exec he c
    have hheld := he.held c
    have hun := he.unbooked c
    have ht := tally_advance next (fun call => call.unbooked.count c) hcall
    simp only [after] at *
    omega
  fresh := h.fresh_of_exec hcall he
  bound c := by
    have hb := h.bound c
    have hone : call.unbooked.count c ≤ 1 := by
      have := h.hands_le hcall c
      have := made_le s.pool c
      have := unbooked_add_booked_le call c
      omega
    rw [h.requests_of_exec he c, he.limits.2.2]
    rcases Nat.eq_zero_or_pos (call.unbooked.count c) with hzero | hpos
    · omega
    · have hready := h.unbooked_ready hcall hpos
      omega
  ready c := by
    have ht := tally_advance next (fun call => call.booked.count c) hcall
    have hreq := h.requests_of_exec he c
    rw [he.limits.2.2]
    rcases Nat.eq_zero_or_pos (call.unbooked.count c) with hzero | hpos
    · rw [hzero, Nat.add_zero] at hreq
      rw [hreq]
      have hr := h.ready c
      have hbook := he.booked c
      simp only [after] at *
      omega
    · -- only `++ptr->m_request` books a request, and the test comes next
      rcases he.heap with ⟨-, -, hun⟩ | ⟨p, rfl, -, rfl⟩ | ⟨-, rfl⟩
      · rw [hun] at hpos
        simp at hpos
      · change 0 < [p].count c at hpos
        change tally _ _ + 0 = tally _ _ + [p].count c at ht
        refine .inr (.inr ?_)
        dsimp only
        omega
      · simp at hpos
  createTime := h.createTime_of_exec he

theorem step (h : Inv s n) (hstep : machine.step s a = some t) : Inv t (given s a n) := by
  cases a with
  | get now_ms =>
    obtain rfl : _ = t := by simpa [machine] using hstep
    exact h.get now_ms
  | release p =>
    simp only [machine, Option.ite_none_right_eq_some, Option.some.injEq] at hstep
    obtain ⟨hp, rfl⟩ := hstep
    exact h.release hp
  | step i r =>
    simp only [machine, Option.bind_eq_some_iff, Option.map_eq_some_iff, Prod.exists] at hstep
    obtain ⟨call, hcall, pool, next, hexec, rfl⟩ := hstep
    have := h.exec hcall (exec_spec hexec)
    simpa [given, hcall] using this

end Inv

variable {max_size max_alive_time max_request : UInt32} {as : List Action} {s : System}
  {n : ℕ → ℕ}

theorem inv_of_run
    (h : (machine.observe given).run (start max_size max_alive_time max_request, fun _ => 0) as =
      some (s, n)) : Inv s n :=
  (Machine.reaches_of_run h).invariant (P := fun c => Inv c.1 c.2)
    (Inv.start max_size max_alive_time max_request) fun c a d hc _ hd => by
    obtain ⟨hstep, hgiven⟩ := Machine.observe_step.mp hd
    exact hgiven ▸ hc.step hstep

/-- The limits of a pool are not changed. -/
theorem limits_step {t : System} {a : Action} (h : machine.step s a = some t) :
    t.pool.maxSize = s.pool.maxSize ∧ t.pool.maxAliveTime = s.pool.maxAliveTime ∧
      t.pool.maxRequest = s.pool.maxRequest := by
  cases a with
  | get now_ms =>
    obtain rfl : _ = t := by simpa [machine] using h
    exact ⟨rfl, rfl, rfl⟩
  | release p =>
    simp only [machine, Option.ite_none_right_eq_some, Option.some.injEq] at h
    obtain ⟨-, rfl⟩ := h
    exact ⟨rfl, rfl, rfl⟩
  | step i r =>
    simp only [machine, Option.bind_eq_some_iff, Option.map_eq_some_iff, Prod.exists] at h
    obtain ⟨call, -, pool, next, hexec, rfl⟩ := h
    exact (exec_spec hexec).limits

theorem maxRequest_of_run
    (h : machine.run (start max_size max_alive_time max_request) as = some s) :
    s.pool.maxRequest = max_request :=
  (Machine.reaches_of_run h).invariant (P := fun s => s.pool.maxRequest = max_request) rfl
    fun _ _ _ hs _ hstep => (limits_step hstep).2.2.trans hs

/-- A connection has been given out for each of its requests, and once more if a client has it or
its request is not yet counted. -/
theorem Inv.outs_le (h : Inv s n) (c : ℕ) : n c ≤ max 1 s.pool.maxRequest.toNat := by
  have honce := h.once c
  have hmade := made_le s.pool c
  have hadd := tally_mono (l := s.calls) fun call => unbooked_add_booked_le call c
  rw [tally_add] at hadd
  have houts := h.outs c
  have hbound := h.bound c
  have hready := h.ready c
  simp only [HttpConnectionPool.places] at honce
  omega

/-- **Ownership**. After any interleaving of `getConnection` calls and releases: between calls each
connection made is once in `m_conns`, with one client, or deleted once, and `m_total` is the number
pooled and given out; no connection is ever with two clients; and none was given out more often
than `max(1, m_maxRequest)` times. -/
theorem ownership
    (h : (machine.observe given).run (start max_size max_alive_time max_request, fun _ => 0) as =
      some (s, n)) :
    (s.calls = [] →
      (∀ c < s.pool.created,
        s.pool.conns.count c + s.pool.held.count c + s.pool.freed.count c = 1) ∧
      s.pool.total = BitVec.ofNat 32 (s.pool.conns.length + s.pool.held.length) ∧
      (s.pool.conns.length + s.pool.held.length < 2 ^ 31 →
        s.pool.total.toInt = s.pool.conns.length + s.pool.held.length)) ∧
    (∀ c, s.pool.conns.count c + s.pool.held.count c + s.pool.freed.count c ≤ 1) ∧
    ∀ c, n c ≤ max 1 max_request.toNat := by
  have hinv := inv_of_run h
  refine ⟨fun hcalls => ?_, fun c => ?_, fun c => ?_⟩
  · have htotal : s.pool.total = BitVec.ofNat 32 (s.pool.conns.length + s.pool.held.length) := by
      apply BitVec.eq_of_toNat_eq
      rw [hinv.total, hcalls, tally_nil, BitVec.toNat_ofNat, Nat.add_zero]
    refine ⟨fun c hc => ?_, htotal, fun hlt => ?_⟩
    · have honce := hinv.once c
      rwa [hcalls, tally_nil, Nat.add_zero, HttpConnectionPool.made, if_pos hc] at honce
    · rw [htotal, BitVec.toInt_ofNat', Int.bmod_eq_of_le (by omega) (by omega)]
      exact Nat.cast_add ..
  · have honce := hinv.once c
    have hmade := made_le s.pool c
    simp only [HttpConnectionPool.places] at honce
    omega
  · have hle := hinv.outs_le c
    rwa [maxRequest_of_run (Machine.run_of_observe h)] at hle

/-- A connection that is made, put back and given out again. -/
def reuse : List Action :=
  let r : Reading := ⟨true, 100⟩
  .get 100 :: List.replicate 8 (.step 0 r) ++ .release 0 :: List.replicate 5 (.step 0 r) ++
    .get 100 :: List.replicate 6 (.step 0 r)

theorem ownership_reuse : ∃ s n,
    (machine.observe given).run (start 1 50 3, fun _ => 0) reuse = some (s, n) ∧
      s.calls = [] ∧ s.pool.held = [0] ∧ s.pool.total = 1 ∧ n 0 = 2 ∧
      (∀ c < s.pool.created,
        s.pool.conns.count c + s.pool.held.count c + s.pool.freed.count c = 1) ∧
      n 0 ≤ max 1 3 := by
  have hrun : ((machine.observe given).run (start 1 50 3, fun _ => 0) reuse).map
      (fun c => (c.1.calls, c.1.pool.held, c.1.pool.total, c.2 0)) = some ([], [0], 1, 2) := by
    decide
  obtain ⟨⟨s, n⟩, h, heq⟩ := Option.map_eq_some_iff.mp hrun
  simp only [Prod.mk.injEq] at heq
  obtain ⟨hcalls, hheld, htotal, hn⟩ := heq
  obtain ⟨hquiet, -, hout⟩ := ownership h
  exact ⟨s, n, h, hcalls, hheld, htotal, hn, (hquiet hcalls).1, hout 0⟩

end Pool

end Sylar

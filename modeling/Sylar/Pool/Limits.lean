import Sylar.Pool.Ownership

/-!
# The limits of a pool

A pool is made with a number of connections to keep and an age, in milliseconds, after which one
is not to be used. `m_maxSize` is read nowhere. `m_createTime` is never set, so every connection
counts as made at time 0; and both tests on the age have their comparison the wrong way round, so
that a connection is refused while `0 + m_maxAliveTime` is still ahead. With the clock of a real
machine that moment is long past, and no connection is ever too old.

The operations here run one after the other. Each is a run of the interleaved calls in which no
other call is in progress.

## Main definitions

* `HttpConnectionPool.popLoop`, `getConnection`, `releasePtr`: the two functions as a whole
* `Op`, `sequential`: operations at times that do not go back
* `Op.Respects`: the three limits, at one operation
* `Op.Spares`: the condition on an operation and the state it finds

## Main results

* `Op.alone`: an operation is a run of its call alone
* `limits_iff`: a run respects the limits exactly if every operation meets the condition
-/

namespace Sylar

open Foundation

namespace Pool

namespace HttpConnectionPool

/-- The loop of `getConnection` on a list: the invalid connections, the one to return, and what is
left. -/
def popLoop (unfit : ℕ → Bool) : List ℕ → List ℕ × Option ℕ × List ℕ
  | [] => ([], none, [])
  | p :: conns =>
    if unfit p then
      let r := popLoop unfit conns
      (p :: r.1, r.2)
    -- the first one that is fit ends the loop
    else ([], some p, conns)

/-- `getConnection` after the loop, when it has found `ptr`. -/
def getOrConnect (s : HttpConnectionPool) (opened : Bool) :
    Option ℕ → HttpConnectionPool × Option ℕ
  | some p => ({ s with held := p :: s.held }, some p)
  | none =>
    if opened then
      ({ s.new with total := s.total + 1, held := s.created :: s.held }, some s.created)
    else (s, none)

def getConnection (s : HttpConnectionPool) (now_ms : UInt64) (connected : ℕ → Bool)
    (opened : Bool) : HttpConnectionPool × Option ℕ :=
  let r := popLoop (fun p => s.unfit p now_ms (connected p)) s.conns
  let s := { s with conns := r.2.2, freed := r.1.reverse ++ s.freed
                    total := s.total - BitVec.ofNat 32 r.1.length }
  s.getOrConnect opened r.2.1

/-- A client drops a connection, and its request is counted. -/
def drop (s : HttpConnectionPool) (p : ℕ) : HttpConnectionPool :=
  { s with held := s.held.erase p }.count p

/-- `ReleasePtr`, of a connection that a client has. -/
def releasePtr (s : HttpConnectionPool) (p : ℕ) (r : Reading) : HttpConnectionPool :=
  if (s.drop p).spent p r then { (s.drop p).delete p with total := s.total - 1 }
  else { s.drop p with conns := s.conns ++ [p] }

end HttpConnectionPool

/-! ## Operations -/

/-- An operation, with what it reads from outside. -/
inductive Op
  | get (now_ms : UInt64) (connected : ℕ → Bool) (opened : Bool)
  | release (ptr : ℕ) (r : Reading)

namespace Op

def now : Op → UInt64
  | get now_ms _ _ => now_ms
  | release _ r => r.now

def exec (s : HttpConnectionPool) : Op → HttpConnectionPool
  | get now_ms connected opened => (s.getConnection now_ms connected opened).1
  | release p r => s.releasePtr p r

/-- A client releases what it has. -/
def Enabled (s : HttpConnectionPool) : Op → Prop
  | get .. => True
  | release p _ => p ∈ s.held

instance (s : HttpConnectionPool) : DecidablePred (Enabled s)
  | get .. => inferInstanceAs (Decidable True)
  | release p _ => inferInstanceAs (Decidable (p ∈ s.held))

/-- An action of the call of this operation, that reads what the operation reads. -/
def Reads (op : Op) (s : System) : Action → Prop
  | .get now_ms => ∃ connected opened, op = get now_ms connected opened
  | .release p => ∃ r, op = release p r
  | .step _ r =>
    match op with
    | get _ connected opened =>
      match s.calls with
      | [.scan _ _] => ∀ p ∈ s.pool.conns.head?, r.connected = connected p
      | [.connect] => r.connected = opened
      | _ => True
    | release _ r' => r = r'

end Op

variable {s t : HttpConnectionPool} {op : Op} {now_ms : UInt64} {connected : ℕ → Bool}
  {opened : Bool} {p : ℕ} {r : Reading}

/-! ## One call alone -/

theorem step_alone {call : Call} {next : Option Call} (h : call.exec s r = some (t, next)) (i : ℕ)
    (hi : i = 0) : machine.step ⟨s, [call]⟩ (.step i r) = some ⟨t, next.toList⟩ := by
  subst hi
  cases next <;> simp [machine, h]

/-- A call alone goes on. -/
theorem Reach.next {s₀ : System} {call : Call} {next : Option Call}
    (h : machine.Reach op.Reads s₀ ⟨s, [call]⟩) (r : Reading)
    (hr : op.Reads ⟨s, [call]⟩ (.step 0 r)) (hexec : call.exec s r = some (t, next)) :
    machine.Reach op.Reads s₀ ⟨t, next.toList⟩ :=
  .snoc _ h hr (step_alone hexec 0 rfl)

/-- The loop of `getConnection`, alone. -/
theorem Reach.scan {s₀ : System} {conns invalid : List ℕ} (unfit : ℕ → Bool)
    (hunfit : ∀ p, s.unfit p now_ms (connected p) = unfit p)
    (h : machine.Reach (Op.get now_ms connected opened).Reads s₀
      ⟨{ s with conns := conns }, [.scan now_ms invalid]⟩) :
    machine.Reach (Op.get now_ms connected opened).Reads s₀
      ⟨{ s with conns := (HttpConnectionPool.popLoop unfit conns).2.2 },
        [.unlock (invalid ++ (HttpConnectionPool.popLoop unfit conns).1)
          (HttpConnectionPool.popLoop unfit conns).2.1]⟩ := by
  induction conns generalizing invalid with
  | nil =>
    rw [HttpConnectionPool.popLoop, List.append_nil]
    exact Reach.next h ⟨true, now_ms⟩ (by simp [Op.Reads]) rfl
  | cons p conns ih =>
    have hr : (Op.get now_ms connected opened).Reads
        ⟨{ s with conns := p :: conns }, [.scan now_ms invalid]⟩
        (.step 0 ⟨connected p, now_ms⟩) := by simp [Op.Reads]
    cases hp : unfit p with
    | true =>
      have hexec : Call.exec { s with conns := p :: conns } ⟨connected p, now_ms⟩
          (.scan now_ms invalid) =
          some ({ s with conns := conns }, some (.scan now_ms (invalid ++ [p]))) :=
        if_pos ((hunfit p).trans hp)
      simpa only [HttpConnectionPool.popLoop, hp, if_true, List.append_assoc,
        List.singleton_append] using ih (Reach.next h _ hr hexec)
    | false =>
      have hexec : Call.exec { s with conns := p :: conns } ⟨connected p, now_ms⟩
          (.scan now_ms invalid) =
          some ({ s with conns := conns }, some (.unlock invalid (some p))) :=
        if_neg (Bool.not_eq_true _ ▸ (hunfit p).trans hp)
      simpa [HttpConnectionPool.popLoop, hp] using Reach.next h _ hr hexec

theorem Reach.clear {s₀ : System} {rest : List ℕ} {n : ℕ} {ptr : Option ℕ}
    (h : machine.Reach (Op.get now_ms connected opened).Reads s₀ ⟨s, [.clear rest n ptr]⟩) :
    machine.Reach (Op.get now_ms connected opened).Reads s₀
      ⟨{ s with freed := rest.reverse ++ s.freed }, [.discount n ptr]⟩ := by
  induction rest generalizing s with
  | nil => exact Reach.next h ⟨true, now_ms⟩ trivial rfl
  | cons p rest ih =>
    have hrest := ih (Reach.next h ⟨true, now_ms⟩ trivial rfl)
    simpa [HttpConnectionPool.delete] using hrest

theorem Reach.getConnection (hm : s.mutex = false) :
    machine.Reach (Op.get now_ms connected opened).Reads ⟨s, []⟩
      ⟨(s.getConnection now_ms connected opened).1, []⟩ := by
  have hget : machine.Reach (Op.get now_ms connected opened).Reads ⟨s, []⟩
      ⟨s, [.lock now_ms]⟩ := .snoc (.get now_ms) .refl ⟨connected, opened, rfl⟩ rfl
  have hlock := Reach.next hget ⟨true, now_ms⟩ trivial (if_neg (by simp [hm]))
  have hscan := Reach.scan (s := { s with mutex := true })
    (fun p => s.unfit p now_ms (connected p)) (fun _ => rfl) hlock
  have hclear := Reach.clear (Reach.next hscan ⟨true, now_ms⟩ trivial rfl)
  have hcount := Reach.next hclear ⟨true, now_ms⟩ trivial rfl
  unfold HttpConnectionPool.getConnection
  cases s with
  | mk maxSize maxAliveTime maxRequest mutex conns total heap created held freed =>
    subst hm
    dsimp only [List.nil_append] at hcount ⊢
    generalize HttpConnectionPool.popLoop _ conns = found at hcount ⊢
    obtain ⟨invalid, ptr, rest⟩ := found
    cases ptr with
    | some p => exact Reach.next hcount ⟨true, now_ms⟩ trivial rfl
    | none =>
      cases opened with
      | true =>
        have hconn := Reach.next hcount ⟨true, now_ms⟩ rfl rfl
        exact Reach.next (Reach.next hconn ⟨true, now_ms⟩ trivial rfl) ⟨true, now_ms⟩ trivial rfl
      | false => exact Reach.next hcount ⟨false, now_ms⟩ rfl rfl

theorem Reach.releasePtr (hm : s.mutex = false) (hp : p ∈ s.held) :
    machine.Reach (Op.release p r).Reads ⟨s, []⟩ ⟨s.releasePtr p r, []⟩ := by
  have hrel : machine.Reach (Op.release p r).Reads ⟨s, []⟩
      ⟨{ s with held := s.held.erase p }, [.released p]⟩ :=
    .snoc (.release p) .refl ⟨r, rfl⟩ (if_pos hp)
  have hcount : machine.Reach (Op.release p r).Reads ⟨s, []⟩ ⟨s.drop p, [.test p]⟩ :=
    Reach.next hrel r rfl rfl
  have htest := Reach.next hcount r rfl rfl
  unfold HttpConnectionPool.releasePtr
  cases hspent : (s.drop p).spent p r with
  | true =>
    rw [hspent] at htest
    exact Reach.next (Reach.next htest r rfl rfl) r rfl rfl
  | false =>
    rw [hspent] at htest
    have hlock := Reach.next htest r rfl
      (if_neg (show ¬ (s.drop p).mutex = true by
        simp [HttpConnectionPool.drop, HttpConnectionPool.count, hm]))
    have hput := Reach.next (Reach.next hlock r rfl rfl) r rfl rfl
    cases s with
    | mk maxSize maxAliveTime maxRequest mutex conns total heap created held freed =>
      subst hm
      exact hput

/-- **An operation is its call alone**: a run of the interleaved calls in which no other call is in
progress. -/
theorem Op.alone (op : Op) (hm : s.mutex = false) (h : op.Enabled s) :
    machine.Reach op.Reads ⟨s, []⟩ ⟨op.exec s, []⟩ := by
  cases op with
  | get now_ms connected opened => exact Reach.getConnection hm
  | release p r => exact Reach.releasePtr hm h

/-! ## Operations in time -/

/-- A pool between operations, with the time each connection was made and the time of the last
operation. -/
structure Clocked where
  pool : HttpConnectionPool
  born : ℕ → UInt64 := fun _ => 0
  clock : UInt64 := 0

/-- Operations at times that do not go back. A connection that is made, is made now. -/
def sequential : Machine Clocked Op where
  step q op :=
    if q.clock ≤ op.now ∧ op.Enabled q.pool then
      some { pool := op.exec q.pool
             born := Function.update q.born q.pool.created op.now
             clock := op.now }
    else none

/-- How long ago a connection was made. -/
def Clocked.age (q : Clocked) (now : UInt64) (p : ℕ) : ℕ := now.toNat - (q.born p).toNat

/-- **The limits**, at one operation. After a release at most `m_maxSize` connections are kept;
`getConnection` returns no pooled connection of age `m_maxAliveTime`; and neither deletes a
connection that is connected, younger than that, under its request limit and within `m_maxSize`. -/
def Op.Respects (q : Clocked) (op : Op) : Prop :=
  let t := op.exec q.pool
  let spared p := q.age op.now p < q.pool.maxAliveTime.toNat ∧
    t.requests p < q.pool.maxRequest.toNat
  match op with
  | get now_ms connected opened =>
    (∀ p ∈ (q.pool.getConnection now_ms connected opened).2, p ∈ q.pool.conns →
      q.age now_ms p < q.pool.maxAliveTime.toNat) ∧
    ∀ p ∈ q.pool.conns, connected p → spared p → q.pool.conns.length ≤ q.pool.maxSize.toNat →
      p ∉ t.freed
  | release p r =>
    t.conns.length ≤ q.pool.maxSize.toNat ∧
    (r.connected → spared p → q.pool.conns.length < q.pool.maxSize.toNat → p ∉ t.freed)

/-- The condition on an operation. For `getConnection`: while the clock is below `m_maxAliveTime`,
no idle connection is connected, or there are too many; later, the first idle one that is connected
is young. For a release: there are not too many idle ones, and if the connection is connected and
stays under its request limit, there is room for it when the clock is past `m_maxAliveTime`, and
before that it is old or there is none. -/
def Op.Spares (q : Clocked) : Op → Prop
  | get now_ms connected _ =>
    if now_ms.toNat < q.pool.maxAliveTime.toNat then
      (∀ p ∈ q.pool.conns, connected p = false) ∨ q.pool.maxSize.toNat < q.pool.conns.length
    else ∀ p ∈ q.pool.conns.find? connected, q.age now_ms p < q.pool.maxAliveTime.toNat
  | release p r =>
    q.pool.conns.length ≤ q.pool.maxSize.toNat ∧
      (r.connected → q.pool.requests p + 1 < q.pool.maxRequest.toNat →
        if q.pool.maxAliveTime.toNat < r.now.toNat then
          q.pool.conns.length < q.pool.maxSize.toNat
        else q.pool.conns.length = q.pool.maxSize.toNat ∨
          q.pool.maxAliveTime.toNat ≤ q.age r.now p)

/-! ### The two tests -/

/-- No connection has a time at which it was made. -/
theorem unfit_iff (h : (s.heap p).createTime = 0) {b : Bool} :
    s.unfit p now_ms b = true ↔ b = false ∨ now_ms.toNat < s.maxAliveTime.toNat := by
  simp [HttpConnectionPool.unfit, h, UInt64.lt_iff_toNat_lt]

theorem spent_iff (h : (s.heap p).createTime = 0) :
    s.spent p r = true ↔ r.connected = false ∨ r.now.toNat ≤ s.maxAliveTime.toNat ∨
      s.maxRequest.toNat ≤ s.requests p := by
  simp [HttpConnectionPool.spent, h, UInt64.le_iff_toNat_le, HttpConnectionPool.requests, or_assoc]

/-! ### The loop -/

variable {unfit : ℕ → Bool} {conns : List ℕ}

theorem popLoop_append (unfit : ℕ → Bool) (conns : List ℕ) :
    (HttpConnectionPool.popLoop unfit conns).1 ++
      (HttpConnectionPool.popLoop unfit conns).2.1.toList ++
      (HttpConnectionPool.popLoop unfit conns).2.2 = conns := by
  induction conns with
  | nil => rfl
  | cons p conns ih =>
    rw [HttpConnectionPool.popLoop]
    split_ifs
    · exact congrArg (p :: ·) ih
    · rfl

theorem unfit_of_mem_popLoop (h : p ∈ (HttpConnectionPool.popLoop unfit conns).1) :
    unfit p = true := by
  induction conns with
  | nil => cases h
  | cons p' conns ih =>
    rw [HttpConnectionPool.popLoop] at h
    split_ifs at h with hunfit
    · rcases List.mem_cons.mp h with rfl | h
      · exact hunfit
      · exact ih h
    · cases h

theorem popLoop_find (unfit : ℕ → Bool) (conns : List ℕ) :
    (HttpConnectionPool.popLoop unfit conns).2.1 = conns.find? fun p => !unfit p := by
  induction conns with
  | nil => rfl
  | cons p conns ih =>
    rw [HttpConnectionPool.popLoop, List.find?_cons]
    cases unfit p with
    | true => exact ih
    | false => rfl

theorem popLoop_of_all (h : ∀ p ∈ conns, unfit p = true) :
    HttpConnectionPool.popLoop unfit conns = (conns, none, []) := by
  induction conns with
  | nil => rfl
  | cons p conns ih =>
    rw [HttpConnectionPool.popLoop, if_pos (h p List.mem_cons_self),
      ih fun p hp => h p (List.mem_cons_of_mem _ hp)]

/-! ### The two functions -/

theorem getOrConnect_freed (ptr : Option ℕ) : (s.getOrConnect opened ptr).1.freed = s.freed := by
  cases ptr <;> cases opened <;> rfl

theorem getOrConnect_conns (ptr : Option ℕ) : (s.getOrConnect opened ptr).1.conns = s.conns := by
  cases ptr <;> cases opened <;> rfl

/-- A connection that was made before is returned only if it was found. -/
theorem mem_getOrConnect (hp : p < s.created) (ptr : Option ℕ) :
    p ∈ (s.getOrConnect opened ptr).2 ↔ p ∈ ptr := by
  cases ptr with
  | some p' => rfl
  | none =>
    cases opened with
    | true => simp [HttpConnectionPool.getOrConnect, Nat.ne_of_gt hp]
    | false => rfl

theorem getOrConnect_requests (hp : p < s.created) (ptr : Option ℕ) :
    (s.getOrConnect opened ptr).1.requests p = s.requests p := by
  cases ptr with
  | some p' => rfl
  | none =>
    cases opened with
    | true =>
      exact congrArg (fun c => c.request.toNat)
        (HttpConnectionPool.heap_new_of_ne (Nat.ne_of_lt hp))
    | false => rfl

theorem getConnection_freed : (s.getConnection now_ms connected opened).1.freed =
    (HttpConnectionPool.popLoop (fun p => s.unfit p now_ms (connected p)) s.conns).1.reverse ++
      s.freed :=
  getOrConnect_freed _

theorem getConnection_conns : (s.getConnection now_ms connected opened).1.conns =
    (HttpConnectionPool.popLoop (fun p => s.unfit p now_ms (connected p)) s.conns).2.2 :=
  getOrConnect_conns _

theorem mem_getConnection (hp : p < s.created) :
    p ∈ (s.getConnection now_ms connected opened).2 ↔
      p ∈ s.conns.find? fun p => !s.unfit p now_ms (connected p) := by
  rw [← popLoop_find]
  exact mem_getOrConnect (by exact hp) _

theorem getConnection_requests (hp : p < s.created) :
    (s.getConnection now_ms connected opened).1.requests p = s.requests p :=
  getOrConnect_requests (by exact hp) _

theorem drop_requests_of_ne {p' : ℕ} (h : p' ≠ p) : (s.drop p).requests p' = s.requests p' :=
  congrArg (fun c => c.request.toNat)
    (HttpConnectionPool.heap_count_of_ne (s := { s with held := s.held.erase p }) h)

theorem drop_requests (h : s.requests p < 2 ^ 32) : (s.drop p).requests p = s.requests p + 1 := by
  have hheap := HttpConnectionPool.heap_count_self (s := { s with held := s.held.erase p }) (p := p)
  simp only [HttpConnectionPool.requests, HttpConnectionPool.drop, hheap, UInt64.toNat_add] at h ⊢
  exact Nat.mod_eq_of_lt (by simp only [UInt64.reduceToNat]; omega)

theorem drop_createTime (h : (s.heap p).createTime = 0) : ((s.drop p).heap p).createTime = 0 := by
  have hheap := HttpConnectionPool.heap_count_self (s := { s with held := s.held.erase p }) (p := p)
  rw [HttpConnectionPool.drop, hheap]
  exact h

/-! ## Runs -/

/-- The books balance between operations, and an idle connection is under its request limit. -/
structure Settled (q : Clocked) : Prop where
  inv : ∃ n, Inv ⟨q.pool, []⟩ n
  idle : ∀ p ∈ q.pool.conns, q.pool.requests p < q.pool.maxRequest.toNat

namespace Settled

variable {q q' : Clocked}

theorem createTime (h : Settled q) (p : ℕ) : (q.pool.heap p).createTime = 0 :=
  h.inv.elim fun _ h => h.createTime p

theorem mutex (h : Settled q) : q.pool.mutex = false := by
  obtain ⟨n, h⟩ := h.inv
  have hm := h.mutex
  rw [tally_nil] at hm
  cases hmutex : q.pool.mutex
  · rfl
  · rw [hmutex] at hm
    cases hm

theorem once (h : Settled q) (p : ℕ) : q.pool.places p = q.pool.made p :=
  h.inv.elim fun _ h => h.once p

theorem requests_lt (h : Settled q) (p : ℕ) : q.pool.requests p < 2 ^ 32 :=
  h.inv.elim fun _ h => h.requests_lt p

/-- What is idle has been made, and is neither with a client nor deleted. -/
theorem of_idle (h : Settled q) (hp : p ∈ q.pool.conns) :
    p < q.pool.created ∧ p ∉ q.pool.held ∧ p ∉ q.pool.freed := by
  have honce := h.once p
  have hpos := List.count_pos_iff.mpr hp
  rw [HttpConnectionPool.places, HttpConnectionPool.made] at honce
  split_ifs at honce with hlt
  · exact ⟨hlt, List.count_eq_zero.mp (by omega), List.count_eq_zero.mp (by omega)⟩
  · omega

/-- What a client has is not deleted. -/
theorem of_held (h : Settled q) (hp : p ∈ q.pool.held) : p ∉ q.pool.freed := by
  have honce := h.once p
  have hmade := made_le q.pool p
  have hpos := List.count_pos_iff.mpr hp
  rw [HttpConnectionPool.places] at honce
  exact List.count_eq_zero.mp (by omega)

theorem start (max_size max_alive_time max_request : UInt32) :
    Settled ⟨(Pool.start max_size max_alive_time max_request).pool, fun _ => 0, 0⟩ where
  inv := ⟨_, Inv.start max_size max_alive_time max_request⟩
  idle p hp := by cases hp

theorem idle_get (h : Settled q) (hp : p ∈ (q.pool.getConnection now_ms connected opened).1.conns) :
    (q.pool.getConnection now_ms connected opened).1.requests p < q.pool.maxRequest.toNat := by
  rw [getConnection_conns] at hp
  have hmem : p ∈ q.pool.conns := by
    rw [← popLoop_append (fun p => q.pool.unfit p now_ms (connected p)) q.pool.conns]
    exact List.mem_append_right _ hp
  rw [getConnection_requests (h.of_idle hmem).1]
  exact h.idle p hmem

theorem idle_release (h : Settled q) (hheld : p ∈ q.pool.held) {p' : ℕ}
    (hp : p' ∈ (q.pool.releasePtr p r).conns) :
    (q.pool.releasePtr p r).requests p' < q.pool.maxRequest.toNat := by
  have hidle : p' ∈ q.pool.conns → (q.pool.drop p).requests p' < q.pool.maxRequest.toNat := by
    intro hmem
    have hne : p' ≠ p := by
      rintro rfl
      exact (h.of_idle hmem).2.1 hheld
    rw [drop_requests_of_ne hne]
    exact h.idle p' hmem
  unfold HttpConnectionPool.releasePtr at hp ⊢
  split_ifs at hp ⊢ with hspent
  · exact hidle hp
  · rcases List.mem_append.mp hp with hmem | hmem
    · exact hidle hmem
    · obtain rfl := List.mem_singleton.mp hmem
      exact requests_lt_of_not_spent (Bool.not_eq_true _ ▸ hspent)

theorem step (h : Settled q) (hstep : sequential.step q op = some q') : Settled q' := by
  simp only [sequential, Option.ite_none_right_eq_some, Option.some.injEq] at hstep
  obtain ⟨⟨-, henabled⟩, rfl⟩ := hstep
  have hreach := Op.alone op h.mutex henabled
  have hlimit : (op.exec q.pool).maxRequest = q.pool.maxRequest :=
    hreach.invariant (P := fun s => s.pool.maxRequest = q.pool.maxRequest) rfl
      fun s a t hs _ hst => (limits_step hst).2.2.trans hs
  refine ⟨hreach.invariant (P := fun s => ∃ n, Inv s n) h.inv fun s a t ⟨n, hn⟩ _ hst =>
    ⟨_, hn.step hst⟩, fun p hp => ?_⟩
  dsimp only at hp ⊢
  rw [hlimit]
  cases op with
  | get now_ms connected opened => exact h.idle_get hp
  | release p r => exact h.idle_release henabled hp

/-! ### One operation -/

/-- **`getConnection`**: while the clock is below the age it throws every idle connection away, and
later it takes the first one that is connected, of any age. -/
theorem respects_get (h : Settled q) :
    (Op.get now_ms connected opened).Respects q ↔ (Op.get now_ms connected opened).Spares q := by
  have hunfit p : q.pool.unfit p now_ms (connected p) = true ↔
      connected p = false ∨ now_ms.toNat < q.pool.maxAliveTime.toNat := unfit_iff (h.createTime p)
  dsimp only [Op.Respects, Op.Spares, Op.exec, Op.now]
  rw [getConnection_freed]
  split_ifs with hnow
  · -- every connection is invalid
    have hall p : q.pool.unfit p now_ms (connected p) = true := (hunfit p).mpr (.inr hnow)
    rw [popLoop_of_all fun p _ => hall p]
    constructor
    · rintro ⟨-, hkept⟩
      by_contra hnot
      simp only [not_or, not_forall, Bool.not_eq_false, Nat.not_lt] at hnot
      obtain ⟨⟨p, hp, hconn⟩, hsize⟩ := hnot
      refine hkept p hp hconn ⟨?_, ?_⟩ hsize (List.mem_append_left _ (List.mem_reverse.mpr hp))
      · exact Nat.lt_of_le_of_lt (Nat.sub_le _ _) hnow
      · rw [getConnection_requests (h.of_idle hp).1]
        exact h.idle p hp
    · intro hspare
      refine ⟨fun p hp hidle => ?_, fun p hp hconn _ hsize => ?_⟩
      · rw [mem_getConnection (h.of_idle hidle).1] at hp
        have hfound := List.find?_some hp
        simp [hall] at hfound
      · rcases hspare with hnone | hmany
        · simp [hnone p hp] at hconn
        · omega
  -- the test of the age never fires, so the connected ones are fit
  · have hfit : (fun p => !q.pool.unfit p now_ms (connected p)) = connected := by
      funext p
      have hp := hunfit p
      simp only [hnow, or_false] at hp
      cases hc : connected p <;> simp_all
    have hmem p (hp : p ∈ q.pool.conns) : p ∈ (q.pool.getConnection now_ms connected opened).2 ↔
        p ∈ q.pool.conns.find? connected := by
      rw [mem_getConnection (h.of_idle hp).1, hfit]
    constructor
    · rintro ⟨hyoung, -⟩ p hp
      have hidle := List.mem_of_find?_eq_some hp
      exact hyoung p ((hmem p hidle).mpr hp) hidle
    · intro hyoung
      refine ⟨fun p hp hidle => hyoung p ((hmem p hidle).mp hp), fun p hp hconn _ _ hfreed => ?_⟩
      rcases List.mem_append.mp hfreed with hinvalid | hfreed
      · have hp := (hunfit p).mp (unfit_of_mem_popLoop (List.mem_reverse.mp hinvalid))
        simp [hconn, hnow] at hp
      · exact (h.of_idle hp).2.2 hfreed

/-- **`ReleasePtr`**: what is put back is put back into a list of any length. -/
theorem respects_release (h : Settled q) (hp : p ∈ q.pool.held) :
    (Op.release p r).Respects q ↔ (Op.release p r).Spares q := by
  have hreq := drop_requests (h.requests_lt p)
  have hspent : (q.pool.drop p).spent p r = true ↔ r.connected = false ∨
      r.now.toNat ≤ q.pool.maxAliveTime.toNat ∨
      q.pool.maxRequest.toNat ≤ q.pool.requests p + 1 := by
    rw [spent_iff (drop_createTime (h.createTime p)), hreq]
    rfl
  dsimp only [Op.Respects, Op.Spares, Op.exec, HttpConnectionPool.releasePtr, Op.now]
  cases hs : (q.pool.drop p).spent p r with
  | true =>
    have hdel := hspent.mp hs
    have hmem : p ∈ p :: q.pool.freed := List.mem_cons_self
    change q.pool.conns.length ≤ _ ∧
      (_ → _ ∧ (q.pool.drop p).requests p < _ → _ → p ∉ p :: q.pool.freed) ↔ _
    refine and_congr_right fun hsize => forall_congr' fun hconn => ?_
    rw [hreq]
    simp only [hconn, Bool.true_eq_false, false_or] at hdel
    simp only [hmem, not_true_eq_false, imp_false]
    constructor
    · intro hkept hlimit
      rw [if_neg (by omega)]
      by_contra hnot
      exact hkept ⟨by omega, hlimit⟩ (by omega)
    · rintro hspare ⟨hyoung, hlimit⟩ hroom
      have hspare := hspare hlimit
      rw [if_neg (by omega)] at hspare
      omega
  | false =>
    have hkeep := mt hspent.mpr (by rw [hs]; exact Bool.false_ne_true)
    simp only [not_or, Bool.not_eq_false, Nat.not_le] at hkeep
    obtain ⟨hconn, hpast, hlimit⟩ := hkeep
    have hfreed := h.of_held hp
    change (q.pool.conns ++ [p]).length ≤ _ ∧ (_ → _ → _ → p ∉ q.pool.freed) ↔ _
    rw [List.length_append, List.length_singleton, if_pos hpast]
    constructor
    · rintro ⟨hsize, -⟩
      exact ⟨by omega, fun _ _ => by omega⟩
    · rintro ⟨-, hroom⟩
      exact ⟨hroom hconn hlimit, fun _ _ _ => hfreed⟩

theorem respects_iff (h : Settled q) (hop : op.Enabled q.pool) : op.Respects q ↔ op.Spares q := by
  cases op with
  | get now_ms connected opened => exact h.respects_get
  | release p r => exact h.respects_release hop

end Settled

variable {max_size max_alive_time max_request : UInt32} {ops : List Op} {q : Clocked}

/-- A new pool, at time 0. -/
def Clocked.start (max_size max_alive_time max_request : UInt32) : Clocked where
  pool := (Pool.start max_size max_alive_time max_request).pool

/-- **The limits of a pool.** Operations one after the other, at times that do not go back, respect
the limits exactly if each one meets the condition `Op.Spares` in the state it finds. -/
theorem limits_iff
    (h : sequential.run (Clocked.start max_size max_alive_time max_request) ops = some q) :
    sequential.Meets (fun q op => op.Respects q)
        (Clocked.start max_size max_alive_time max_request) ops ↔
      sequential.Meets (fun q op => op.Spares q)
        (Clocked.start max_size max_alive_time max_request) ops :=
  Machine.meets_iff_meets (I := Settled) (fun _ _ _ hq hstep => hq.step hstep)
    (fun q op q' hq hstep => by
      simp only [sequential, Option.ite_none_right_eq_some] at hstep
      exact hq.respects_iff hstep.1.2)
    (Settled.start max_size max_alive_time max_request) h

/-- A connection that is put back at once. -/
def kept : List Op := [.get 10000 (fun _ => true) true, .release 0 ⟨true, 10000⟩]

theorem limits_iff_kept :
    sequential.Meets (fun q op => op.Respects q) (Clocked.start 1 1000 5) kept := by
  obtain ⟨q, hq⟩ : ∃ q, sequential.run (Clocked.start 1 1000 5) kept = some q :=
    Option.isSome_iff_exists.mp (by decide)
  refine (limits_iff hq).mpr ⟨fun p hp => ?_, fun q hstep => ⟨?_, fun _ _ => trivial⟩⟩
  · cases hp
  · have hget : ((sequential.step (Clocked.start 1 1000 5) (.get 10000 (fun _ => true) true)).map
        fun q => (q.pool.conns.length, q.pool.maxSize.toNat, q.pool.maxAliveTime.toNat)) =
        some (0, 1, 1000) := by decide
    simp only [hstep, Option.map_some, Option.some.injEq, Prod.mk.injEq] at hget
    refine ⟨by omega, fun _ _ => ?_⟩
    rw [if_pos (by rw [hget.2.2]; decide)]
    omega

/-- Two connections are made, and one is put back. -/
def full : List Op :=
  [.get 10000 (fun _ => true) true, .get 10000 (fun _ => true) true, .release 0 ⟨true, 10000⟩]

theorem respects_last {as : List Op} {s : Clocked} (h : sequential.run s as = some q)
    (hm : sequential.Meets (fun q op => op.Respects q) s (as ++ [op])) : op.Respects q :=
  ((Machine.meets_append h).mp hm).2.1

/-- The second connection goes back into a full list; and one that is ten seconds old is given out,
when one second is the limit. -/
theorem limits_ignored :
    ((sequential.run (Clocked.start 1 1000 5) (full ++ [.release 1 ⟨true, 10000⟩])).isSome ∧
      ¬ sequential.Meets (fun q op => op.Respects q) (Clocked.start 1 1000 5)
        (full ++ [.release 1 ⟨true, 10000⟩])) ∧
    (sequential.run (Clocked.start 1 1000 5) (kept ++ [.get 20000 (fun _ => true) true])).isSome ∧
      ¬ sequential.Meets (fun q op => op.Respects q) (Clocked.start 1 1000 5)
        (kept ++ [.get 20000 (fun _ => true) true]) := by
  refine ⟨⟨by decide, fun hm => ?_⟩, by decide, fun hm => ?_⟩
  · have hrun : ((sequential.run (Clocked.start 1 1000 5) full).map fun q =>
        ((q.pool.releasePtr 1 ⟨true, 10000⟩).conns.length, q.pool.maxSize.toNat)) =
        some (2, 1) := by decide
    obtain ⟨q, hq, heq⟩ := Option.map_eq_some_iff.mp hrun
    rw [Prod.mk.injEq] at heq
    have hsize := (respects_last hq hm).1
    dsimp only [Op.exec] at hsize
    omega
  · have hrun : ((sequential.run (Clocked.start 1 1000 5) kept).map fun q =>
        ((q.pool.getConnection 20000 (fun _ => true) true).2, q.pool.conns, q.age 20000 0,
          q.pool.maxAliveTime.toNat)) = some (some 0, [0], 10000, 1000) := by decide
    obtain ⟨q, hq, heq⟩ := Option.map_eq_some_iff.mp hrun
    simp only [Prod.mk.injEq] at heq
    have hyoung := (respects_last hq hm).1 0 heq.1 (by rw [heq.2.1]; exact List.mem_cons_self)
    omega

end Pool

end Sylar

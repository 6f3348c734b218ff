import Mathlib.Logic.Function.Basic
import Sylar.Foundation.Threads
import Sylar.Foundation.Transition

/-!
# The connection pool

A pool keeps the idle connections to one host in `m_conns`, by raw pointers. `getConnection` gives
a client a `shared_ptr` whose deleter, `ReleasePtr`, puts the connection back or deletes it; the
counter `m_total` is atomic, and only the list is under the mutex.

The calls of all the threads interleave. Each is a `Call` that has come some way, and a step takes
one of them on by one access to what they share. Whether a connection is still connected, whether
a new one can be opened, and what the clock says, is read from outside. A connection has a number
that no other one has, and what is deleted is remembered.

## Main definitions

* `HttpConnection`, `HttpConnectionPool`: a connection, and a pool with its connections
* `HttpConnectionPool.unfit`, `HttpConnectionPool.spent`: the two tests on a connection
* `Call`, `Call.exec`: `getConnection` and `ReleasePtr`, one access at a time
* `System`, `machine`: the interleaved calls
-/

namespace Sylar

open Foundation

namespace Pool

structure HttpConnection where
  createTime : UInt64 := 0
  /-- The requests already handled. -/
  request : UInt64 := 0
  deriving DecidableEq

structure HttpConnectionPool where
  maxSize : UInt32
  maxAliveTime : UInt32
  maxRequest : UInt32
  mutex : Bool := false
  conns : List ℕ := []
  /-- `m_total`, an atomic `int32_t`. -/
  total : BitVec 32 := 0
  heap : ℕ → HttpConnection := fun _ => {}
  /-- The connections made so far are those below this. -/
  created : ℕ := 0
  /-- The connections that clients have. -/
  held : List ℕ := []
  /-- The connections that have been deleted. -/
  freed : List ℕ := []

/-- What a step reads from outside: whether the socket is connected, or connects; and the clock. -/
structure Reading where
  connected : Bool
  now : UInt64
  deriving DecidableEq

namespace HttpConnectionPool

/-- The test of `getConnection`: the connection goes to `invalid_conns`. -/
def unfit (s : HttpConnectionPool) (p : ℕ) (now_ms : UInt64) (connected : Bool) : Bool :=
  !connected || (s.heap p).createTime + s.maxAliveTime.toUInt64 > now_ms

/-- The test of `ReleasePtr`, after `++ptr->m_request`. -/
def spent (s : HttpConnectionPool) (p : ℕ) (r : Reading) : Bool :=
  !r.connected || (s.heap p).createTime + s.maxAliveTime.toUInt64 ≥ r.now
    || (s.heap p).request ≥ s.maxRequest.toUInt64

/-- `delete`. -/
def delete (s : HttpConnectionPool) (p : ℕ) : HttpConnectionPool :=
  { s with freed := p :: s.freed }

/-- `++ptr->m_request`. -/
def count (s : HttpConnectionPool) (p : ℕ) : HttpConnectionPool :=
  let conn := s.heap p
  { s with heap := Function.update s.heap p { conn with request := conn.request + 1 } }

/-- `new HttpConnection(sock)`. -/
def new (s : HttpConnectionPool) : HttpConnectionPool :=
  { s with heap := Function.update s.heap s.created {}, created := s.created + 1 }

variable {s : HttpConnectionPool} {c p : ℕ}

theorem heap_count_self : (s.count p).heap p =
    { s.heap p with request := (s.heap p).request + 1 } :=
  Function.update_self ..

theorem heap_count_of_ne (h : c ≠ p) : (s.count p).heap c = s.heap c := Function.update_of_ne h ..

theorem heap_new_self : s.new.heap s.created = {} := Function.update_self ..

theorem heap_new_of_ne (h : c ≠ s.created) : s.new.heap c = s.heap c := Function.update_of_ne h ..

end HttpConnectionPool

/-- A call in progress. The first eight are of `getConnection`, the others of `ReleasePtr`. -/
inductive Call
  /-- Takes the lock. -/
  | lock (now_ms : UInt64)
  /-- At the head of the loop. -/
  | scan (now_ms : UInt64) (invalid_conns : List ℕ)
  /-- Out of the loop. -/
  | unlock (invalid_conns : List ℕ) (ptr : Option ℕ)
  /-- Deletes the rest of the `n` invalid connections. -/
  | clear (rest : List ℕ) (n : ℕ) (ptr : Option ℕ)
  /-- Before `m_total -= n`. -/
  | discount (n : ℕ) (ptr : Option ℕ)
  /-- Looks up the address and connects. -/
  | connect
  /-- Before `++m_total`. -/
  | enter (ptr : ℕ)
  /-- Before it returns the pointer to its client. -/
  | ret (ptr : ℕ)
  /-- Before `++ptr->m_request`. -/
  | released (ptr : ℕ)
  /-- Before the test. -/
  | test (ptr : ℕ)
  | delete (ptr : ℕ)
  /-- Before `--m_total`. -/
  | uncount
  /-- Takes the lock. -/
  | relock (ptr : ℕ)
  /-- Before `m_conns.push_back`. -/
  | put (ptr : ℕ)
  /-- At the end of the scope of the lock. -/
  | leave
  deriving DecidableEq

/-- One access of a call: the pool after it, and how the call goes on, if it does. A call that
waits for the lock is not enabled. -/
def Call.exec (s : HttpConnectionPool) (r : Reading) :
    Call → Option (HttpConnectionPool × Option Call)
  | .lock now_ms =>
    if s.mutex then none else some ({ s with mutex := true }, some (.scan now_ms []))
  | .scan now_ms invalid_conns =>
    match s.conns with
    | [] => some (s, some (.unlock invalid_conns none))
    | p :: conns =>
      -- disconnected, or turned away by the test of its age: deleted after the lock is released
      if s.unfit p now_ms r.connected then
        some ({ s with conns := conns }, some (.scan now_ms (invalid_conns ++ [p])))
      else some ({ s with conns := conns }, some (.unlock invalid_conns (some p)))
  | .unlock invalid_conns ptr =>
    some ({ s with mutex := false }, some (.clear invalid_conns invalid_conns.length ptr))
  | .clear [] n ptr => some (s, some (.discount n ptr))
  | .clear (p :: rest) n ptr => some (s.delete p, some (.clear rest n ptr))
  | .discount n ptr =>
    some ({ s with total := s.total - BitVec.ofNat 32 n }, some (ptr.elim .connect .ret))
  | .connect =>
    -- no address, no socket and no connection all end in `return nullptr`
    if r.connected then some (s.new, some (.enter s.created)) else some (s, none)
  | .enter p => some ({ s with total := s.total + 1 }, some (.ret p))
  | .ret p => some ({ s with held := p :: s.held }, none)
  | .released p => some (s.count p, some (.test p))
  | .test p => some (s, some (if s.spent p r then .delete p else .relock p))
  | .delete p => some (s.delete p, some .uncount)
  | .uncount => some ({ s with total := s.total - 1 }, none)
  | .relock p => if s.mutex then none else some ({ s with mutex := true }, some (.put p))
  | .put p => some ({ s with conns := s.conns ++ [p] }, some .leave)
  | .leave => some ({ s with mutex := false }, none)

/-- A pool, and the calls in progress. -/
structure System where
  pool : HttpConnectionPool
  calls : List Call := []

inductive Action
  /-- A thread calls `getConnection`, and reads the clock. -/
  | get (now_ms : UInt64)
  /-- A client drops its last `shared_ptr` to a connection. -/
  | release (ptr : ℕ)
  /-- A call goes on. -/
  | step (i : ℕ) (r : Reading)
  deriving DecidableEq

def machine : Machine System Action where
  step s
    | .get now_ms => some { s with calls := s.calls ++ [.lock now_ms] }
    | .release p =>
      if p ∈ s.pool.held then
        some { pool := { s.pool with held := s.pool.held.erase p }
               calls := s.calls ++ [.released p] }
      else none
    | .step i r =>
      (s.calls[i]?).bind fun call =>
        (call.exec s.pool r).map fun (pool, next) => ⟨pool, advance s.calls i next⟩

/-- A new pool. -/
def start (max_size max_alive_time max_request : UInt32) : System :=
  { pool := { maxSize := max_size, maxAliveTime := max_alive_time, maxRequest := max_request } }

end Pool

end Sylar

import Mathlib.Logic.Function.Basic
import Mathlib.Tactic.Ring
import Sylar.Foundation.SortedSet
import Sylar.Foundation.Transition

/-!
# Timers

A timer manager keeps its armed timers in a set ordered by deadline and then by address. Timer
objects are shared between the set and their handles, so they live in a heap; a timer is the
number of its creation, and its address is whatever the allocator gave it. The callback of a
timer doubles as the mark that it is armed. Times are milliseconds in 64-bit unsigned integers.

Erasing the end of the set, or looking at the front of an empty set, has no behaviour: such a call
leads nowhere.

## Main definitions

* `Timer`, `Timer.less`, `TimerManager`: the objects and the order of the set
* `cancel`, `refresh`, `reset`, `addTimer`, `getNextTimer`, `listExpiredCb`: the operations
* `Call`, `machine`: the operations, at clock readings, as the actions of a machine
-/

namespace Sylar

open Foundation

/-- A timer object; `cb` is empty when the timer is not armed. -/
structure Timer (β : Type) where
  addr : ℕ
  recurring : Bool := false
  ms : ℕ := 0
  next : ℕ := 0
  cb : Option β := none

/-- A 64-bit unsigned result. -/
def u64 (n : ℕ) : ℕ := n % 2 ^ 64

/-- The difference of two 64-bit unsigned integers. -/
def u64Sub (a b : ℕ) : ℕ := u64 (a + (2 ^ 64 - b))

/-- `Timer::Comparator`, on pointers to timers. -/
def Timer.comparator {β : Type} : Option (Timer β) → Option (Timer β) → Bool
  | none, none => false
  | none, some _ => true
  | some _, none => false
  | some lhs, some rhs =>
    if lhs.next < rhs.next then true
    else if rhs.next < lhs.next then false
    else decide (lhs.addr < rhs.addr)

structure TimerManager (β : Type) where
  timers : List ℕ
  heap : ℕ → Timer β
  created : ℕ
  tickled : Bool
  previouseTime : ℕ

namespace TimerManager

variable {β : Type}

/-- The constructor, at a clock reading. -/
def new (now : ℕ) : TimerManager β where
  timers := []
  heap := fun _ => { addr := 0 }
  created := 0
  tickled := false
  previouseTime := now

/-- The comparator on timers of the heap. -/
def less (m : TimerManager β) (i j : ℕ) : Prop :=
  Timer.comparator (some (m.heap i)) (some (m.heap j)) = true

instance (m : TimerManager β) : DecidableRel m.less :=
  fun _ _ => inferInstanceAs (Decidable (Timer.comparator (some _) (some _) = true))

/-- The timer object `i` replaced. -/
def put (m : TimerManager β) (i : ℕ) (t : Timer β) : TimerManager β :=
  { m with heap := Function.update m.heap i t }

/-- `m_cb = nullptr`. -/
def clearCb (m : TimerManager β) (i : ℕ) : TimerManager β := m.put i { m.heap i with cb := none }

def setNext (m : TimerManager β) (i next : ℕ) : TimerManager β :=
  m.put i { m.heap i with next := next }

def insert (m : TimerManager β) (i : ℕ) : TimerManager β :=
  { m with timers := insertBy m.less i m.timers }

def erase (m : TimerManager β) (i : ℕ) : TimerManager β :=
  { m with timers := eraseBy m.less i m.timers }

def find (m : TimerManager β) (i : ℕ) : Bool := findBy m.less i m.timers

/-- `addTimer(val, lock)`: whether the timer is at the front and `onTimerInsertedAtFront` is
called. -/
def addTimerPtr (m : TimerManager β) (i : ℕ) : Bool × TimerManager β :=
  let m := m.insert i
  -- one notice until `getNextTimer` clears the flag
  let at_front := m.timers.head?.any (fun j => Same m.less i j) && !m.tickled
  (at_front, if at_front then { m with tickled := true } else m)

/-- `addTimer(ms, cb, recurring)`: the new timer's number, and what `addTimerPtr` says. The
allocator gives an address that no timer of the set has. -/
def addTimer (now ms : ℕ) (cb : Option β) (recurring : Bool) (addr : ℕ) (m : TimerManager β) :
    Option ((ℕ × Bool) × TimerManager β) :=
  if ∀ i ∈ m.timers, (m.heap i).addr ≠ addr then
    let timer : Timer β := ⟨addr, recurring, ms, u64 (now + ms), cb⟩
    let r := addTimerPtr { m.put m.created timer with created := m.created + 1 } m.created
    some ((m.created, r.1), r.2)
  else
    none

/-- `Timer::cancel`. -/
def cancel (i : ℕ) (m : TimerManager β) : Option (Bool × TimerManager β) :=
  if (m.heap i).cb.isSome then
    let m := m.clearCb i
    -- `erase` of `end()` is undefined
    if m.find i then some (true, m.erase i) else none
  else
    some (false, m)

/-- `Timer::refresh`. -/
def refresh (now i : ℕ) (m : TimerManager β) : Option (Bool × TimerManager β) :=
  if (m.heap i).cb.isSome then
    -- the callback is dropped, and what is put back has none
    let m := m.clearCb i
    if m.find i then
      let m := m.erase i
      let m := m.setNext i (u64 (now + (m.heap i).ms))
      some (true, m.insert i)
    else
      some (false, m)
  else
    some (false, m)

/-- `Timer::reset`. -/
def reset (now i ms : ℕ) (from_now : Bool) (m : TimerManager β) :
    Option ((Bool × Bool) × TimerManager β) :=
  if (m.heap i).cb.isSome then
    if ms = (m.heap i).ms ∧ !from_now then
      some ((true, false), m)
    else
      -- as in `refresh`
      let m := m.clearCb i
      if m.find i then
        let m := m.erase i
        let start := if from_now then now else u64Sub (m.heap i).next (m.heap i).ms
        let m := m.put i { m.heap i with ms := ms, next := u64 (start + ms) }
        let r := m.addTimerPtr i
        some ((true, r.1), r.2)
      else
        some ((false, false), m)
  else
    some ((false, false), m)

/-- `getNextTimer`: the milliseconds to the first deadline. -/
def getNextTimer (now : ℕ) (m : TimerManager β) : ℕ × TimerManager β :=
  let m := { m with tickled := false }
  match m.timers.head? with
  | none => (2 ^ 64 - 1, m)
  | some next =>
    if (m.heap next).next ≤ now then (0, m) else ((m.heap next).next - now, m)

/-- `detectClockRollover`: the clock went back by more than an hour. -/
def rollover (m : TimerManager β) (now_ms : ℕ) : Bool :=
  now_ms < m.previouseTime && now_ms < u64Sub m.previouseTime (60 * 60 * 1000)

/-- The local `expired` of `listExpiredCb`, and the timers behind it. `probe` is the address of
`now_timer`. -/
def expired (m : TimerManager β) (now_ms probe : ℕ) (rollover : Bool) : List ℕ × List ℕ :=
  let now_timer : Timer β := { addr := probe, next := now_ms }
  -- `lower_bound` with the probe, whose address decides among equal deadlines
  let below := if rollover then m.timers else
    m.timers.takeWhile fun i => Timer.comparator (some (m.heap i)) (some now_timer)
  let it := m.timers.drop below.length
  let equal := it.takeWhile fun i => (m.heap i).next = now_ms
  (below ++ equal, it.drop equal.length)

/-- One turn of the loop of `listExpiredCb`, after the callback is handed out. -/
def fireOne (now_ms : ℕ) (m : TimerManager β) (timer : ℕ) : TimerManager β :=
  if (m.heap timer).recurring then
    -- a recurring timer is due again an interval after now, not after its deadline
    (m.setNext timer (u64 (now_ms + (m.heap timer).ms))).insert timer
  else
    m.clearCb timer

/-- The loop of `listExpiredCb` over the expired timers. -/
def fire (now_ms : ℕ) : List ℕ → TimerManager β → List (Option β) × TimerManager β
  | [], m => ([], m)
  | timer :: expired, m =>
    let r := fire now_ms expired (m.fireOne now_ms timer)
    ((m.heap timer).cb :: r.1, r.2)

/-- The write-locked section of `listExpiredCb`: the timers taken out, their callbacks, and the
state after it. -/
def expire (now_ms probe : ℕ) (m : TimerManager β) :
    Option ((List ℕ × List (Option β)) × TimerManager β) :=
  let rollover := m.rollover now_ms
  let m := { m with previouseTime := now_ms }
  if rollover then
    let e := m.expired now_ms probe true
    let r := fire now_ms e.1 { m with timers := e.2 }
    some ((e.1, r.1), r.2)
  else
    match m.timers.head? with
    -- `begin()` of an empty set is dereferenced
    | none => none
    | some front =>
      if now_ms < (m.heap front).next then
        some (([], []), m)
      else
        let e := m.expired now_ms probe false
        let r := fire now_ms e.1 { m with timers := e.2 }
        some ((e.1, r.1), r.2)

def listExpiredCb (now_ms probe : ℕ) (m : TimerManager β) :
    Option ((List ℕ × List (Option β)) × TimerManager β) :=
  if m.timers.isEmpty then some (([], []), m) else m.expire now_ms probe

/-! ## Runs -/

/-- A call, on timers that exist. -/
inductive Call (β : Type)
  | addTimer (ms : ℕ) (cb : Option β) (recurring : Bool) (addr : ℕ)
  | cancel (i : ℕ)
  | refresh (i : ℕ)
  | reset (i ms : ℕ) (from_now : Bool)
  | getNextTimer
  | listExpiredCb (probe : ℕ)

/-- What a call returns; for `listExpiredCb` also which timers it took out. -/
inductive Answer (β : Type)
  | handle (i : ℕ)
  | flag (b : Bool)
  | timeout (ms : ℕ)
  | fired (expired : List ℕ) (cbs : List (Option β))

/-- What a call at a clock reading does. -/
def exec (now : ℕ) (m : TimerManager β) : Call β → Option (Answer β × TimerManager β)
  | .addTimer ms cb recurring addr =>
    (m.addTimer now ms cb recurring addr).map fun r => (.handle r.1.1, r.2)
  | .cancel i => if i < m.created then (m.cancel i).map fun r => (.flag r.1, r.2) else none
  | .refresh i => if i < m.created then (m.refresh now i).map fun r => (.flag r.1, r.2) else none
  | .reset i ms from_now =>
    if i < m.created then (m.reset now i ms from_now).map fun r => (.flag r.1.1, r.2) else none
  | .getNextTimer => some (.timeout (m.getNextTimer now).1, (m.getNextTimer now).2)
  | .listExpiredCb probe =>
    (m.listExpiredCb now probe).map fun r => (.fired r.1.1 r.1.2, r.2)

/-- The machine of the calls, each at a clock reading. -/
def machine (β : Type) : Machine (TimerManager β) (ℕ × Call β) where
  step m c := (m.exec c.1 c.2).map Prod.snd

end TimerManager

end Sylar

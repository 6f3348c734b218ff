import Mathlib.Algebra.BigOperators.Group.Finset.Basic
import Sylar.Foundation.Transition

/-!
# Registered events

The event side of the IO manager: a table of contexts indexed by file descriptor, each with the
events registered on it, and for each event the scheduler and the callback or fiber that waits for
it. Contexts are heap objects, numbered in the order of their allocation; `m_fdContexts` holds
pointers to them. `epoll_ctl` is the kernel: it accepts a call or fails it.

A call runs in atomic steps: the lookup under the read lock, for `addEvent` the resize and second
lookup under the write lock, and the section under the mutex of the context. Calls of any number
of threads interleave between these steps. A call is numbered when it starts; the number of an
`addEvent` call stands for the callback or fiber that it leaves in the context. A failed assertion
or a null pointer aborts the program.

## Main definitions

* `Events`, `EventContext`, `FdContext`, `triggerEvent`: the contexts
* `IOManager`: the state, with the calls in flight
* `addEvent`, `delEvent`, `cancelEvent`, `cancelAll`: the sections under the mutex of a context
* `contextResize`, `Action`, `step`, `machine`: the interleaved calls
-/

namespace Sylar

open Foundation

namespace IOManager

/-- The events a file descriptor can be registered for. -/
inductive Event
  | read
  | write
  deriving DecidableEq, Repr

/-- A set of events, as the bits `READ` and `WRITE`. -/
structure Events where
  read : Bool := false
  write : Bool := false
  deriving DecidableEq, Repr

namespace Events

/-- `NONE`. -/
def none : Events := {}

/-- `events & event`. -/
def has (events : Events) : Event → Bool
  | .read => events.read
  | .write => events.write

/-- `events | event`. -/
def insert (events : Events) : Event → Events
  | .read => { events with read := true }
  | .write => { events with write := true }

/-- `events & ~event`. -/
def erase (events : Events) : Event → Events
  | .read => { events with read := false }
  | .write => { events with write := false }

/-- The number of set bits. -/
def count (events : Events) : ℕ := events.read.toNat + events.write.toNat

end Events

/-- What waits for an event: a scheduler, and a fiber or a callback. -/
structure EventContext where
  scheduler : Option ℕ := none
  fiber : Option ℕ := none
  cb : Option ℕ := none
  deriving DecidableEq, Repr

structure FdContext where
  fd : ℕ := 0
  read : EventContext := {}
  write : EventContext := {}
  events : Events := .none
  deriving DecidableEq, Repr

namespace FdContext

def getContext (c : FdContext) : Event → EventContext
  | .read => c.read
  | .write => c.write

def setContext (c : FdContext) (e : Event) (x : EventContext) : FdContext :=
  match e with
  | .read => { c with read := x }
  | .write => { c with write := x }

def resetContext (c : FdContext) (e : Event) : FdContext := c.setContext e {}

/-- `triggerEvent`: the callback or fiber is swapped into the scheduler's queue; an empty one is
not queued. Nothing, when the assertion fails or the scheduler is null. -/
def triggerEvent (c : FdContext) (e : Event) : Option (FdContext × List ℕ) :=
  if c.events.has e then
    let ctx := c.getContext e
    let c := { c with events := c.events.erase e }
    -- `ctx.scheduler->schedule`, on a null pointer
    match ctx.scheduler with
    | none => none
    | some _ =>
      match ctx.cb with
      | some cb => some (c.setContext e { ctx with cb := none, scheduler := none }, [cb])
      | none =>
        some (c.setContext e { ctx with fiber := none, scheduler := none }, ctx.fiber.toList)
  else
    none

end FdContext

/-- A call: `addEvent` says whether it is given a callback, and the scheduler of its thread. -/
inductive Op
  | addEvent (fd : ℕ) (event : Event) (cb : Bool) (scheduler : ℕ)
  | delEvent (fd : ℕ) (event : Event)
  | cancelEvent (fd : ℕ) (event : Event)
  | cancelAll (fd : ℕ)
  deriving DecidableEq, Repr

def Op.fd : Op → ℕ
  | addEvent fd .. => fd
  | delEvent fd _ => fd
  | cancelEvent fd _ => fd
  | cancelAll fd => fd

/-- Where a thread is in its call: `call` is the number of the call, `fd_ctx` the context the
lookup found. -/
inductive Pc
  | idle (returned : Option Bool)
  | lookup (op : Op) (call : ℕ)
  | resize (op : Op) (call : ℕ)
  | locked (op : Op) (call : ℕ) (fd_ctx : ℕ)
  deriving DecidableEq, Repr

/-- What became of the callback or fiber of an `addEvent`. -/
inductive Fate
  | scheduled
  | dropped
  deriving DecidableEq, Repr

end IOManager

open IOManager in
structure IOManager where
  /-- `m_fdContexts`. -/
  fdContexts : List ℕ
  /-- The contexts by their number. -/
  heap : ℕ → FdContext
  allocated : ℕ
  /-- The events epoll last accepted for a file descriptor. -/
  epoll : ℕ → Option Events
  pendingEventCount : ℤ
  /-- What was scheduled and dropped so far, in order. -/
  consumed : List (Fate × ℕ)
  calls : ℕ
  threads : ℕ → Pc
  aborted : Bool

namespace IOManager

/-- A failed assertion. -/
def abort (m : IOManager) : IOManager := { m with aborted := true }

def putContext (m : IOManager) (c : ℕ) (x : FdContext) : IOManager :=
  { m with heap := Function.update m.heap c x }

/-- An accepted `epoll_ctl`: `none` deletes the file descriptor. -/
def epollCtl (m : IOManager) (fd : ℕ) (events : Option Events) : IOManager :=
  { m with epoll := Function.update m.epoll fd events }

/-- `EPOLL_CTL_MOD` with what is left, or `EPOLL_CTL_DEL` when nothing is. -/
def Events.left (events : Events) : Option Events :=
  if events = .none then Option.none else some events

/-- `contextResize`: the vector is cut or filled up with new contexts. -/
def contextResize (size : ℕ) (m : IOManager) : IOManager :=
  let len := m.fdContexts.length
  { m with
    fdContexts := m.fdContexts.take size ++ (List.range (size - len)).map (m.allocated + ·)
    -- a context gets the index at which it is as its descriptor
    heap := fun c => if m.allocated ≤ c ∧ c < m.allocated + (size - len) then
      { fd := len + (c - m.allocated) } else m.heap c
    allocated := m.allocated + (size - len) }

/-- The constructor. -/
def new : IOManager :=
  contextResize 32
    { fdContexts := []
      heap := fun _ => {}
      allocated := 0
      epoll := fun _ => none
      pendingEventCount := 0
      consumed := []
      calls := 0
      threads := fun _ => .idle none
      aborted := false }

/-! ## The sections under the mutex of a context -/

/-- A triggered event: its waiter is scheduled and the event is not pending any more. -/
def trigger (c : ℕ) (e : Event) (m : IOManager) : IOManager :=
  match (m.heap c).triggerEvent e with
  | none => m.abort
  | some (x, queued) =>
    { m.putContext c x with
      pendingEventCount := m.pendingEventCount - 1
      consumed := m.consumed ++ queued.map (Fate.scheduled, ·) }

/-- The section of `addEvent`; `accepted` is the result of `epoll_ctl`. -/
def addEvent (c fd : ℕ) (e : Event) (cb : Bool) (scheduler call : ℕ) (accepted : Bool)
    (m : IOManager) : Bool × IOManager :=
  let fd_ctx := m.heap c
  -- the assertion that the event is not registered
  if fd_ctx.events.has e then
    (false, m.abort)
  else if !accepted then
    (false, m)
  else
    let m := m.epollCtl fd (some (fd_ctx.events.insert e))
    let event_ctx := fd_ctx.getContext e
    -- the assertion that the slot is empty
    if event_ctx.scheduler.isSome || event_ctx.fiber.isSome || event_ctx.cb.isSome then
      (false, m.abort)
    else
      let event_ctx : EventContext := if cb then { scheduler := scheduler, cb := call }
        else { scheduler := scheduler, fiber := call }
      let fd_ctx := { fd_ctx with events := fd_ctx.events.insert e }
      (true, { m.putContext c (fd_ctx.setContext e event_ctx) with
        pendingEventCount := m.pendingEventCount + 1 })

/-- The section of `delEvent`. -/
def delEvent (c fd : ℕ) (e : Event) (accepted : Bool) (m : IOManager) : Bool × IOManager :=
  let fd_ctx := m.heap c
  if !fd_ctx.events.has e || !accepted then
    (false, m)
  else
    let new_events := fd_ctx.events.erase e
    let m := m.epollCtl fd new_events.left
    let event_ctx := fd_ctx.getContext e
    -- `resetContext` forgets the waiter without queueing it
    let dropped := event_ctx.fiber.toList ++ event_ctx.cb.toList
    (true, { m.putContext c ({ fd_ctx with events := new_events }.resetContext e) with
      pendingEventCount := m.pendingEventCount - 1
      consumed := m.consumed ++ dropped.map (Fate.dropped, ·) })

/-- The section of `cancelEvent`. -/
def cancelEvent (c fd : ℕ) (e : Event) (accepted : Bool) (m : IOManager) : Bool × IOManager :=
  let fd_ctx := m.heap c
  if !fd_ctx.events.has e || !accepted then
    (false, m)
  else
    (true, trigger c e (m.epollCtl fd (fd_ctx.events.erase e).left))

/-- The section of `cancelAll`. -/
def cancelAll (c fd : ℕ) (accepted : Bool) (m : IOManager) : Bool × IOManager :=
  if (m.heap c).events = .none || !accepted then
    (false, m)
  else
    let m := m.epollCtl fd none
    let m := if (m.heap c).events.has .read then trigger c .read m else m
    let m := if (m.heap c).events.has .write then trigger c .write m else m
    -- the assertion that no event is left
    if (m.heap c).events = .none then (true, m) else (false, m.abort)

/-- The section of a call. -/
def runLocked (op : Op) (call c : ℕ) (accepted : Bool) (m : IOManager) : Bool × IOManager :=
  match op with
  | .addEvent fd e cb scheduler => addEvent c fd e cb scheduler call accepted m
  | .delEvent fd e => delEvent c fd e accepted m
  | .cancelEvent fd e => cancelEvent c fd e accepted m
  | .cancelAll fd => cancelAll c fd accepted m

/-! ## Interleaved calls -/

/-- A step of a thread. -/
inductive Action
  | call (t : ℕ) (op : Op)
  | lookup (t : ℕ)
  | resize (t : ℕ)
  | locked (t : ℕ) (accepted : Bool)
  deriving DecidableEq, Repr

def goto (m : IOManager) (t : ℕ) (pc : Pc) : IOManager :=
  { m with threads := Function.update m.threads t pc }

/-- The step of a thread, when it is where the step starts. -/
def step (m : IOManager) : Action → Option IOManager
  | .call t op =>
    match m.threads t with
    | .idle _ => some ({ m with calls := m.calls + 1 }.goto t (.lookup op m.calls))
    | _ => none
  | .lookup t =>
    match m.threads t with
    | .lookup op call =>
      match m.fdContexts[op.fd]? with
      | some fd_ctx => some (m.goto t (.locked op call fd_ctx))
      | none =>
        match op with
        -- only `addEvent` grows the vector
        | .addEvent .. => some (m.goto t (.resize op call))
        | _ => some (m.goto t (.idle (some false)))
    | _ => none
  | .resize t =>
    match m.threads t with
    | .resize op call =>
      -- the size is not looked at again under the write lock
      let m := contextResize (op.fd * 3 / 2) m
      match m.fdContexts[op.fd]? with
      | some fd_ctx => some (m.goto t (.locked op call fd_ctx))
      | none => some m.abort
    | _ => none
  | .locked t accepted =>
    match m.threads t with
    | .locked op call fd_ctx =>
      let r := runLocked op call fd_ctx accepted m
      some (r.2.goto t (.idle (some r.1)))
    | _ => none

/-- What callers promise: `addEvent` is for an event that is not registered yet. -/
def Promised (m : IOManager) : Action → Prop
  | .locked t _ =>
    match m.threads t with
    | .locked (.addEvent _ e _ _) _ fd_ctx => (m.heap fd_ctx).events.has e = false
    | _ => True
  | _ => True

instance (m : IOManager) (a : Action) : Decidable (m.Promised a) := by
  unfold Promised
  split
  · split <;> infer_instance
  · infer_instance

/-- The machine of the interleaved calls; an aborted program does not go on. -/
def machine : Machine IOManager Action where
  step m a := if m.aborted = false ∧ m.Promised a then m.step a else none

end IOManager

end Sylar

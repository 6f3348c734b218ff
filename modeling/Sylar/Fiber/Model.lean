import Sylar.Foundation.Transition
import Sylar.Scheduler.Model

/-!
# The fibers of a thread

A thread has flows of control: its own stack, and the stack of each fiber. A fiber object holds a
context, which `swapcontext` writes and loads; an object of a thread's main fiber has no stack, and
its context is one of the thread's own stack. Fiber objects are counted by the pointers to them,
those of the code that uses fibers (`held`) and those in the frames of `MainFunc`, `YieldToReady`
and `YieldToHold`.

A context is a flow, where the flow goes on, and the number of times the flow had been left when the
context was written. A flow goes on from the last of its contexts alone: an older one is of frames
that are gone, as are all of a stack that has been freed. What a failed assertion or such a load
leads to is nothing.

## Main definitions

* `Point`, `Context`: where a flow goes on, and what `swapcontext` writes
* `Object`, `Thread`: a fiber object, and the thread with its fibers
* `Thread.release`, `Thread.getThis`: a pointer that goes, and `Fiber::GetThis`
* `Thread.load`, `Thread.swap`: the switch of flows
* `Action`, `Thread.step`: what the running flow does
-/

namespace Sylar

open Foundation

namespace Switch

/-- The stack of a fiber, or the thread's own. -/
abbrev Flow := Option ℕ

/-- Where a flow goes on. -/
inductive Point
  /-- The start of `MainFunc` or `CallerMainFunc`. -/
  | entry
  /-- Behind `swapIn` or `call`, through a pointer that the code has on its stack. -/
  | called (f : ℕ)
  /-- The end of `YieldToReady` or `YieldToHold`, with the pointer `cur`. -/
  | yielded (cur : ℕ)
  /-- Behind `swapOut`. -/
  | out
  /-- The end of `MainFunc` or `CallerMainFunc`. -/
  | never
  deriving DecidableEq, Repr

/-- `m_ctx`; `turn` counts how often the flow had been left. -/
structure Context where
  flow : Flow
  point : Point
  turn : ℕ
  deriving DecidableEq, Repr

/-- A fiber object: `stack` and `cb` are whether `m_stack` and `m_cb` are set, `caller` whether
`makecontext` was given `CallerMainFunc`, and `cur` the pointer in the frame of `MainFunc` or
`CallerMainFunc`. -/
structure Object where
  state : Fiber.State
  stack : Bool
  cb : Bool
  caller : Bool
  ctx : Option Context
  refs : ℕ
  held : ℕ
  cur : Option ℕ := none
  deriving DecidableEq, Repr

/-- A thread: the objects, numbered in the order of their creation, `s_fiber_count`, `t_fiber`,
`t_threadFiber` and the scheduler's `t_fiber`; the running flow, and how often each was left. -/
structure Thread where
  objects : ℕ → Option Object
  created : ℕ
  count : ℕ
  this : Option ℕ
  threadFiber : Option ℕ
  mainFiber : Option ℕ
  flow : Flow
  turns : Flow → ℕ

namespace Thread

/-- A thread without fibers. -/
def new : Thread where
  objects := fun _ => none
  created := 0
  count := 0
  this := none
  threadFiber := none
  mainFiber := none
  flow := none
  turns := fun _ => 0

/-- `Fiber::SetThis`. -/
def setThis (s : Thread) (f : Option ℕ) : Thread := { s with this := f }

def put (s : Thread) (f : ℕ) (o : Object) : Thread :=
  { s with objects := Function.update s.objects f (some o) }

/-- What is done to an object, if it is there. -/
def modify (s : Thread) (f : ℕ) (g : Object → Object) : Option Thread :=
  (s.objects f).map fun o => s.put f (g o)

/-- `new Fiber`: the object that is created. -/
def create (s : Thread) (o : Object) : Thread :=
  { s.put s.created o with created := s.created + 1, count := s.count + 1 }

/-- `Fiber::~Fiber`. -/
def destroy (s : Thread) (f : ℕ) (o : Object) : Option Thread :=
  let s' := { s with objects := Function.update s.objects f none, count := s.count - 1 }
  if o.stack then
    -- the stack is freed, which must not be the one that is in use
    if (o.state.finished ∨ o.state = .init) ∧ s.flow ≠ some f then some s' else none
  else if o.cb = false ∧ o.state = .exec then
    some (if s.this = some f then s'.setThis none else s')
  else none

/-- A pointer to the object goes. -/
def release (s : Thread) (f : ℕ) : Option Thread :=
  (s.objects f).bind fun o =>
    match o.refs with
    | 0 => none
    | 1 => s.destroy f o
    | n + 2 => some (s.put f { o with refs := n + 1 })

/-- `Fiber::Fiber()`, for the main fiber of the thread, with the pointer in `t_threadFiber` and the
one that `GetThis` returns. -/
def mainObject : Object where
  state := .exec
  stack := false
  cb := false
  caller := false
  ctx := none
  refs := 2
  held := 0

/-- `Fiber::GetThis`: the fiber to which a pointer is returned. -/
def getThis (s : Thread) : Option (Thread × ℕ) :=
  match s.this with
  | some f => (s.modify f fun o => { o with refs := o.refs + 1 }).map fun s => (s, f)
  | none =>
    let f := s.created
    let s' := { (s.create mainObject).setThis (some f) with threadFiber := some f }
    match s.threadFiber with
    | none => some (s', f)
    | some g => (s'.release g).map fun s => (s, f)

/-- The code that uses fibers has a pointer more. -/
def give (s : Thread) (f : ℕ) : Option Thread :=
  s.modify f fun o => { o with held := o.held + 1 }

/-- The code that uses fibers has a pointer less, which is in a frame now or goes. -/
def take (s : Thread) (f : ℕ) : Option Thread :=
  (s.objects f).bind fun o =>
    if 0 < o.held then some (s.put f { o with held := o.held - 1 }) else none

/-- The flow of a context goes on. -/
def load (s : Thread) (c : Context) : Option Thread :=
  if s.turns c.flow = c.turn ∧ ∀ f ∈ c.flow, (s.objects f).isSome then
    let s := { s with flow := c.flow }
    match c.point with
    | .entry =>
      c.flow.bind fun h => s.getThis.bind fun (s, g) => s.modify h fun o => { o with cur := some g }
    | .called f => s.give f
    | .yielded cur => s.release cur
    | .out => some s
    | .never => none
  else none

/-- The running flow is left. -/
def turned (s : Thread) : Thread :=
  { s with turns := Function.update s.turns s.flow (s.turns s.flow + 1) }

/-- `swapcontext(&g->m_ctx, &f->m_ctx)`, behind which the running flow will go on at the point. -/
def swap (s : Thread) (g f : ℕ) (point : Point) : Option Thread :=
  (s.turned.modify g fun o => { o with ctx := some ⟨s.flow, point, s.turned.turns s.flow⟩ }).bind
    fun s => (s.objects f).bind fun o => o.ctx.bind fun c => s.load c

/-- `Fiber::swapOut`. -/
def swapOut (s : Thread) (f : ℕ) (point : Point) : Option Thread :=
  s.mainFiber.bind fun m => (s.setThis (some m)).swap f m point

/-- `Fiber::back`. -/
def back (s : Thread) (f : ℕ) (point : Point) : Option Thread :=
  s.threadFiber.bind fun t => (s.setThis (some t)).swap f t point

/-- `Fiber::call`. -/
def call (s : Thread) (f : ℕ) : Option Thread :=
  ((s.setThis (some f)).modify f fun o => { o with state := .exec }).bind fun s =>
    s.threadFiber.bind fun t => s.swap t f (.called f)

/-- `Fiber::swapIn`. -/
def swapIn (s : Thread) (f : ℕ) : Option Thread :=
  (s.objects f).bind fun o =>
    if o.state = .exec then none else
      ((s.setThis (some f)).modify f fun o => { o with state := .exec }).bind fun s =>
        s.mainFiber.bind fun m => s.swap m f (.called f)

/-- `Fiber::reset`. -/
def reset (s : Thread) (f : ℕ) (cb : Bool) : Option Thread :=
  (s.objects f).bind fun o =>
    if o.stack ∧ (o.state.finished ∨ o.state = .init) then
      some (s.put f
        { o with
          cb := cb
          ctx := some ⟨some f, .entry, s.turns (some f)⟩
          caller := false
          state := .init })
    else none

/-- `Fiber::YieldToReady` and `Fiber::YieldToHold`, by the state that they store. -/
def yieldTo (s : Thread) (state : Fiber.State) : Option Thread :=
  s.getThis.bind fun (s, cur) =>
    (s.modify cur fun o => { o with state := state }).bind fun s => s.swapOut cur (.yielded cur)

/-- What `MainFunc` and `CallerMainFunc` do when the callback has returned (`ok`) or has thrown. -/
def finish (s : Thread) (ok : Bool) : Option Thread :=
  s.flow.bind fun h => (s.objects h).bind fun frame => frame.cur.bind fun cur =>
    (s.modify cur fun o =>
      if ok then { o with cb := false, state := .term } else { o with state := .except }).bind
      fun s => (s.modify h fun o => { o with cur := none }).bind fun s => (s.release cur).bind
        fun s => if frame.caller then s.back cur .never else s.swapOut cur .never

end Thread

/-- What the running flow does: it calls `GetThis` and keeps the pointer, creates a fiber, copies a
pointer or lets it go; `Scheduler::Scheduler` or `Scheduler::run` stores the scheduler's main fiber,
`Scheduler::run` the state `HOLD`; and it calls what switches flows. -/
inductive Action
  | getThis
  | create (cb caller : Bool)
  | copy (f : ℕ)
  | drop (f : ℕ)
  | reset (f : ℕ) (cb : Bool)
  | setMain (f : ℕ)
  | hold (f : ℕ)
  | call (f : ℕ)
  | swapIn (f : ℕ)
  | swapOut
  | yieldToReady
  | yieldToHold
  | finish (ok : Bool)
  deriving DecidableEq, Repr

/-- `Fiber::Fiber(cb, stacksize, use_caller)`, with the pointer to the object. -/
def Thread.object (s : Thread) (cb caller : Bool) : Object where
  state := .init
  stack := true
  cb := cb
  caller := caller
  ctx := some ⟨some s.created, .entry, s.turns (some s.created)⟩
  refs := 1
  held := 1

def Thread.step (s : Thread) : Action → Option Thread
  | .getThis => s.getThis.bind fun (s, f) => s.give f
  | .create cb caller => some (s.create (s.object cb caller))
  | .copy f => s.modify f fun o => { o with refs := o.refs + 1, held := o.held + 1 }
  | .drop f => (s.take f).bind fun s => s.release f
  | .reset f cb => s.reset f cb
  | .setMain f => some { s with mainFiber := some f }
  | .hold f => s.modify f fun o => { o with state := .hold }
  | .call f => (s.take f).bind fun s => s.call f
  | .swapIn f => (s.take f).bind fun s => s.swapIn f
  | .swapOut => s.this.bind fun f => s.swapOut f .out
  | .yieldToReady => s.yieldTo .ready
  | .yieldToHold => s.yieldTo .hold
  | .finish ok => s.finish ok

def machine : Machine Thread Action := ⟨Thread.step⟩

end Switch

end Sylar

import Mathlib.Logic.Function.Basic
import Sylar.Foundation.Transition

/-!
# Hooked calls with a timeout

A hooked call that would block arms a condition timer, registers the fiber for the event, yields,
and looks at `tinfo` when it is resumed. The callback of the timer runs on any worker once the
timer has expired: it takes hold of `tinfo`, gives up when another timeout came first, sets
`cancelled`, and cancels the event. The steps of the fiber and of the callbacks interleave.

There is one fiber and one event. A callback of an earlier attempt may still run after the fiber
has started another attempt, so every attempt has a timer of its own. `found` says whether the
table of contexts has the file descriptor. The fiber is resumed from the queue after it has been
suspended.

## Main definitions

* `Hook`, `Call`: the hooked function, and the state of a call with its timers
* `Action`, `step`, `machine`: the interleaved steps of the fiber, the callbacks and the kernel
-/

namespace Sylar

open Foundation

/-- The two functions that wait with a timeout. -/
inductive Hook
  | do_io
  | connect_with_timeout
  deriving DecidableEq, Repr

namespace Hook

/-- What the system call returned: a result or an error, `EINTR`, or that it would block. -/
inductive Io
  | finished
  | interrupted
  | again
  deriving DecidableEq, Repr

/-- Where the fiber is in the call. -/
inductive Pc
  /-- At the system call, the label `retry`. -/
  | call
  /-- Before `addConditionTimer`. -/
  | arm
  /-- Before the lookup of `addEvent`. -/
  | find
  /-- Before the section of `addEvent`. -/
  | addEvent
  /-- Before `YieldToHold`. -/
  | yield
  | suspended
  /-- Resumed, before `timer->cancel()`. -/
  | resumed
  /-- Before the test of `tinfo->cancelled`. -/
  | test
  /-- `addEvent` failed, before `timer->cancel()`. -/
  | failed
  | returned (timedOut : Bool)
  deriving DecidableEq, Repr

/-- Where the timer of an attempt or its callback is. -/
inductive TimerPc
  | unset
  /-- In the set of timers. -/
  | armed
  /-- Taken by `listExpiredCb`. -/
  | expired
  /-- Holding `tinfo`, before the test of `cancelled`. -/
  | test
  /-- Before `cancelled = ETIMEDOUT`. -/
  | set
  /-- Before the lookup of `cancelEvent`. -/
  | find
  /-- Before the section of `cancelEvent`. -/
  | cancelEvent
  | ran
  /-- Cancelled by the fiber. -/
  | removed
  deriving DecidableEq, Repr

/-- A hooked call. -/
structure Call where
  pc : Pc := .call
  /-- `tinfo->cancelled`. -/
  cancelled : Bool := false
  /-- The event is registered, and the fiber waits for it. -/
  registered : Bool := false
  /-- The fiber is in the queue of the scheduler. -/
  queued : Bool := false
  found : Bool
  attempts : ℕ := 0
  /-- The variable `timer`, as the number of the attempt. -/
  timer : Option ℕ := none
  timers : ℕ → TimerPc := fun _ => .unset

/-- A step of the fiber, of the callback of an attempt, or of the kernel. -/
inductive Action
  | io (result : Io)
  | arm
  | find
  | addEvent (accepted : Bool)
  | yield
  | resume
  | cancel
  | test
  | expire (i : ℕ)
  | lock (i : ℕ)
  | testTimer (i : ℕ)
  | set (i : ℕ)
  | findTimer (i : ℕ)
  | cancelEvent (i : ℕ) (accepted : Bool)
  | event (accepted : Bool)
  deriving DecidableEq, Repr

namespace Call

def setTimer (s : Call) (i : ℕ) (pc : TimerPc) : Call :=
  { s with timers := Function.update s.timers i pc }

/-- The event is consumed: the fiber is scheduled. -/
def trigger (s : Call) : Call := { s with registered := false, queued := true }

/-- `timer->cancel()`: nothing when the timer has expired already. -/
def cancelTimer (s : Call) : Call :=
  match s.timer with
  | none => s
  | some i => if s.timers i = .armed then s.setTimer i .removed else s

/-- The step of a call whose timeout is set, or not. -/
def step (hook : Hook) (timeout : Bool) (s : Call) : Action → Option Call
  | .io result =>
    if s.pc = .call then
      match result, hook with
      | .again, _ => some { s with pc := .arm }
      -- `EINTR` calls the function again; `connect` returns it
      | .interrupted, .do_io => some s
      | _, _ => some { s with pc := .returned false }
    else none
  | .arm =>
    if s.pc = .arm then
      -- each turn of `retry` arms a timer of its own
      let i := s.attempts
      let s := { s with pc := .find, attempts := i + 1, timer := none }
      if timeout then some { s.setTimer i .armed with timer := some i } else some s
    else none
  | .find => if s.pc = .find then some { s with pc := .addEvent, found := true } else none
  | .addEvent accepted =>
    if s.pc = .addEvent then
      if accepted then some { s with pc := .yield, registered := true }
      -- `addEvent` refuses: the call gives up
      else some { s with pc := .failed }
    else none
  | .yield => if s.pc = .yield then some { s with pc := .suspended } else none
  | .resume =>
    if s.pc = .suspended ∧ s.queued then some { s with pc := .resumed, queued := false } else none
  | .cancel =>
    match s.pc with
    | .resumed => some { s.cancelTimer with pc := .test }
    | .failed => some { s.cancelTimer with pc := .returned false }
    | _ => none
  | .test =>
    if s.pc = .test then
      if s.cancelled then some { s with pc := .returned true }
      else
        match hook with
        -- `goto retry`
        | .do_io => some { s with pc := .call }
        | .connect_with_timeout => some { s with pc := .returned false }
    else none
  | .expire i => if s.timers i = .armed then some (s.setTimer i .expired) else none
  | .lock i =>
    if s.timers i = .expired then
      match s.pc with
      -- the weak pointer does not lock any more
      | .returned _ => some (s.setTimer i .ran)
      | _ => some (s.setTimer i .test)
    else none
  | .testTimer i =>
    if s.timers i = .test then some (s.setTimer i (if s.cancelled then .ran else .set)) else none
  | .set i =>
    if s.timers i = .set then some { s.setTimer i .find with cancelled := true } else none
  | .findTimer i =>
    if s.timers i = .find then some (s.setTimer i (if s.found then .cancelEvent else .ran))
    else none
  | .cancelEvent i accepted =>
    if s.timers i = .cancelEvent then
      let s := s.setTimer i .ran
      -- `cancelEvent` wakes the fiber only when the event is still registered
      if s.registered && accepted then some s.trigger else some s
    else none
  | .event accepted =>
    if s.registered then if accepted then some s.trigger else some s else none

end Call

/-- The interleaved steps of a call. -/
def machine (hook : Hook) (timeout : Bool) : Machine Call Action where
  step s a := s.step hook timeout a

end Hook

end Sylar

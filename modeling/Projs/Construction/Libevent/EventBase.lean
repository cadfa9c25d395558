/-
This file embeds the timers of `event.c`: events without a file or a signal are added with a
timeout, activated when it has passed, and processed from the queues of active events.
-/

import Mathlib.Algebra.GroupWithZero.Nat
import Projs.Construction.Libevent.MinHeap

namespace Projs.Libevent

def timerAdd (tv uv : Timeval) : Timeval :=
  let tvSec := tv.tvSec + uv.tvSec
  let tvUsec := tv.tvUsec + uv.tvUsec
  if 1000000 ≤ tvUsec then { tvSec := tvSec + 1, tvUsec := tvUsec - 1000000 }
  else { tvSec, tvUsec }

def timerSub (tv uv : Timeval) : Timeval :=
  let tvSec := tv.tvSec - uv.tvSec
  let tvUsec := tv.tvUsec - uv.tvUsec
  if tvUsec < 0 then { tvSec := tvSec - 1, tvUsec := tvUsec + 1000000 } else { tvSec, tvUsec }

def timerClear : Timeval := { tvSec := 0, tvUsec := 0 }

def microsecondsMask : Nat := 0x000fffff

/-- What the bits above the mask are worth. -/
def Timeval.aboveMicroseconds (tv : Timeval) : Int :=
  tv.tvUsec - tv.tvUsec % (microsecondsMask + 1 : Int)

/-- A base has no common timeouts here, so the two are to say nothing in the bits above the
microseconds. -/
def isSameCommonTimeout (tv1 tv2 : Timeval) : Bool :=
  tv1.aboveMicroseconds = tv2.aboveMicroseconds

/-- The flags are those of a timer, and of the result only `EV_TIMEOUT` is kept. -/
structure Event where
  evTimeout : Timeval
  evIoTimeout : Timeval
  evPri : Nat
  evPersist : Bool
  flagTimeout : Bool
  flagActive : Bool
  resTimeout : Bool

structure EventBase where
  timeheap : MinHeap
  events : EventPtr → Event
  nactivequeues : Nat
  activequeues : Nat → List EventPtr
  eventCount : Int
  eventCountActive : Int

/-- The program stops with an error message or with a failed assertion. -/
inductive BaseFault where
  | errx
  | assertion
  | endless
  deriving DecidableEq, Repr

/-- A new timer; the fields that are not set are what was in memory. -/
def eventAssign (nactivequeues : Nat) (evPersist : Bool) (memory : Event) : Event :=
  { memory with
    evIoTimeout := if evPersist then timerClear else memory.evIoTimeout
    evPri := nactivequeues / 2
    evPersist
    flagTimeout := false
    flagActive := false
    resTimeout := false }

/-- A new base with the timers that belong to it. -/
def eventBaseNew (nactivequeues : Nat) (evPersist : EventPtr → Bool) (memory : EventPtr → Event) :
    EventBase :=
  { timeheap := minHeapCtor
    events := fun ev => eventAssign nactivequeues (evPersist ev) (memory ev)
    nactivequeues
    activequeues := fun _ => []
    eventCount := 0
    eventCountActive := 0 }

/-- One event is changed. -/
def EventBase.update (base : EventBase) (ev : EventPtr) (change : Event → Event) : EventBase :=
  { base with events := Function.update base.events ev (change (base.events ev)) }

def EventBase.timeout (base : EventBase) (ev : EventPtr) : Timeval := (base.events ev).evTimeout

/-- The priority of an active event stays, and so does any priority for one that is not there. -/
def eventPrioritySet (base : EventBase) (ev : EventPtr) (pri : Int) : EventBase :=
  if (base.events ev).flagActive ∨ pri < 0 ∨ base.nactivequeues ≤ pri then base
  else base.update ev fun event => { event with evPri := pri.toNat }

def eventQueueRemoveActive (base : EventBase) (ev : EventPtr) : Except BaseFault EventBase :=
  if (base.events ev).flagActive then
    let pri := (base.events ev).evPri
    let base := base.update ev fun event => { event with flagActive := false }
    .ok { base with
      eventCount := base.eventCount - 1
      eventCountActive := base.eventCountActive - 1
      activequeues := Function.update base.activequeues pri ((base.activequeues pri).erase ev) }
  else .error .errx

def eventQueueInsertActive (base : EventBase) (ev : EventPtr) : Except BaseFault EventBase :=
  if (base.events ev).flagActive then .ok base
  else
    let pri := (base.events ev).evPri
    let base := base.update ev fun event => { event with flagActive := true }
    if pri < base.nactivequeues then
      .ok { base with
        eventCount := base.eventCount + 1
        eventCountActive := base.eventCountActive + 1
        activequeues := Function.update base.activequeues pri (base.activequeues pri ++ [ev]) }
    else .error .assertion

/-- The result of the heap is not looked at. -/
def eventQueueRemoveTimeout (base : EventBase) (ev : EventPtr) : Except BaseFault EventBase :=
  if (base.events ev).flagTimeout then
    let base := base.update ev fun event => { event with flagTimeout := false }
    .ok { base with
      eventCount := base.eventCount - 1
      timeheap := (minHeapErase base.timeout base.timeheap ev).getD base.timeheap }
  else .error .errx

def eventQueueInsertTimeout (memory : Bool) (base : EventBase) (ev : EventPtr) :
    Except BaseFault EventBase :=
  if (base.events ev).flagTimeout then .error .errx
  else
    let base := base.update ev fun event => { event with flagTimeout := true }
    .ok { base with
      eventCount := base.eventCount + 1
      timeheap := (minHeapPush base.timeout memory base.timeheap ev).getD base.timeheap }

/-- Whether memory can be had is asked before the event is changed, and again by the heap. -/
structure Memory where
  reserve : Bool
  push : Bool

/-- Without a timeout nothing is done for a timer; the result is zero, or -1 without memory. -/
def eventAddNolock (memory : Memory) (base : EventBase) (ev : EventPtr) (tv : Option Timeval)
    (tvIsAbsolute : Bool) (now : Timeval) : Except BaseFault (Int × EventBase) :=
  match tv with
  | none => .ok (0, base)
  | some tv =>
      let reserved :=
        if (base.events ev).flagTimeout then some base.timeheap
        else minHeapReserve memory.reserve base.timeheap (1 + base.timeheap.n)
      match reserved with
      | none => .ok (-1, base)
      | some timeheap => do
          let base := { base with timeheap }
          let base := if (base.events ev).evPersist ∧ ¬ tvIsAbsolute then
            base.update ev fun event => { event with evIoTimeout := tv } else base
          let base ← if (base.events ev).flagTimeout then eventQueueRemoveTimeout base ev
            else .ok base
          let base ← if (base.events ev).flagActive ∧ (base.events ev).resTimeout then
            eventQueueRemoveActive base ev else .ok base
          let evTimeout := if tvIsAbsolute then tv else timerAdd now tv
          let base := base.update ev fun event => { event with evTimeout }
          let base ← eventQueueInsertTimeout memory.push base ev
          pure (0, base)

def eventDelNolock (base : EventBase) (ev : EventPtr) : Except BaseFault EventBase := do
  let base ← if (base.events ev).flagTimeout then eventQueueRemoveTimeout base ev else .ok base
  if (base.events ev).flagActive then eventQueueRemoveActive base ev else .ok base

def eventRemoveTimerNolock (base : EventBase) (ev : EventPtr) : Except BaseFault EventBase :=
  if (base.events ev).flagTimeout then
    (eventQueueRemoveTimeout base ev).map fun base =>
      base.update ev fun event => { event with evIoTimeout := timerClear }
  else .ok base

/-- The results of an event that is active already are added together. -/
def eventActiveNolock (base : EventBase) (ev : EventPtr) (resTimeout : Bool) :
    Except BaseFault EventBase :=
  if (base.events ev).flagActive then
    .ok (base.update ev fun event => { event with resTimeout := event.resTimeout || resTimeout })
  else eventQueueInsertActive (base.update ev fun event => { event with resTimeout }) ev

/-- How long the loop may wait, or nothing when there is no timer. -/
def timeoutNext (base : EventBase) (now : Timeval) : Except BaseFault (Option Timeval) :=
  match minHeapTop base.timeheap with
  | none => .ok none
  | some ev =>
      if timerGreater (base.timeout ev) now then
        let tv := timerSub (base.timeout ev) now
        if 0 ≤ tv.tvSec ∧ 0 ≤ tv.tvUsec then .ok (some tv) else .error .assertion
      else .ok (some timerClear)

def timeoutProcessFrom (now : Timeval) : (steps : Nat) → EventBase → Except BaseFault EventBase
  | 0, _ => .error .endless
  | steps + 1, base =>
      match minHeapTop base.timeheap with
      | none => .ok base
      | some ev =>
          if timerGreater (base.timeout ev) now then .ok base
          else do
            let base ← eventDelNolock base ev
            let base ← eventActiveNolock base ev true
            timeoutProcessFrom now steps base

/-- Each round takes one event out of the heap. -/
def timeoutProcess (base : EventBase) (now : Timeval) : Except BaseFault EventBase :=
  timeoutProcessFrom now (base.timeheap.n + 1) base

/-- A persistent event with a timeout is added again. -/
def eventPersistClosure (memory : Memory) (base : EventBase) (ev : EventPtr) (now : Timeval) :
    Except BaseFault EventBase :=
  let event := base.events ev
  if event.evIoTimeout ≠ timerClear then
    if isSameCommonTimeout event.evTimeout event.evIoTimeout then
      let delay := event.evIoTimeout
      let relativeTo := if event.resTimeout then event.evTimeout else now
      let runAt := timerAdd relativeTo delay
      let runAt := if timerGreater now runAt then timerAdd now delay else runAt
      (eventAddNolock memory base ev (some runAt) true now).map Prod.snd
    else .error .assertion
  else .ok base

/-- The first event of a queue is taken for its callback. -/
def eventProcessFirst (memory : Memory) (base : EventBase) (queue : Nat) (now : Timeval) :
    Except BaseFault EventBase :=
  match base.activequeues queue with
  | [] => .ok base
  | ev :: _ =>
      if (base.events ev).evPersist then do
        let base ← eventQueueRemoveActive base ev
        eventPersistClosure memory base ev now
      else eventDelNolock base ev

end Projs.Libevent

/-
This file embeds `minheap-internal.h`, a heap of events by their timeouts in which every event knows
its place.
-/

import Mathlib.Logic.Function.Basic

namespace Projs.Libevent

structure Timeval where
  tvSec : Int
  tvUsec : Int
  deriving DecidableEq, Repr

/-- The macro `evutil_timercmp` with the operator `>`. -/
def timerGreater (first second : Timeval) : Bool :=
  if first.tvSec = second.tvSec then second.tvUsec < first.tvUsec
  else second.tvSec < first.tvSec

/-- The pointer to an event. -/
abbrev EventPtr := Nat

/-- The array with its length and its room, and the field of each event for its place. -/
structure MinHeap where
  p : Nat → EventPtr
  n : Nat
  a : Nat
  minHeapIdx : EventPtr → Int

def minHeapCtor : MinHeap := { p := fun _ => 0, n := 0, a := 0, minHeapIdx := fun _ => -1 }

variable (timeout : EventPtr → Timeval)

def minHeapElemGreater (first second : EventPtr) : Bool :=
  timerGreater (timeout first) (timeout second)

/-- An event is put at a place and told so. -/
def MinHeap.put (s : MinHeap) (place : Nat) (e : EventPtr) : MinHeap :=
  { s with
    p := Function.update s.p place e
    minHeapIdx := Function.update s.minHeapIdx e place }

def minHeapTop (s : MinHeap) : Option EventPtr := if s.n = 0 then none else some (s.p 0)

def minHeapShiftUp (s : MinHeap) (holeIndex : Nat) (e : EventPtr) : MinHeap :=
  let parent := (holeIndex - 1) / 2
  if holeIndex ≠ 0 ∧ minHeapElemGreater timeout (s.p parent) e then
    minHeapShiftUp (s.put holeIndex (s.p parent)) parent e
  else s.put holeIndex e
termination_by holeIndex
decreasing_by omega

/-- The first step up is made without a comparison. -/
def minHeapShiftUpUnconditional (s : MinHeap) (holeIndex : Nat) (e : EventPtr) : MinHeap :=
  let parent := (holeIndex - 1) / 2
  minHeapShiftUp timeout (s.put holeIndex (s.p parent)) parent e

def minHeapShiftDown (s : MinHeap) (holeIndex : Nat) (e : EventPtr) : MinHeap :=
  let minChild := 2 * (holeIndex + 1)
  if minChild ≤ s.n then
    let minChild :=
      if minChild = s.n ∨ minHeapElemGreater timeout (s.p minChild) (s.p (minChild - 1)) then
        minChild - 1
      else minChild
    if minHeapElemGreater timeout e (s.p minChild) then
      minHeapShiftDown (s.put holeIndex (s.p minChild)) minChild e
    else s.put holeIndex e
  else s.put holeIndex e
termination_by s.n - holeIndex
decreasing_by
  simp only [MinHeap.put]
  split <;> omega

/-- The array is doubled when it is full, if there is memory. -/
def minHeapReserve (memory : Bool) (s : MinHeap) (n : Nat) : Option MinHeap :=
  if s.a < n then
    let a := if s.a ≠ 0 then s.a * 2 else 8
    let a := if a < n then n else a
    if memory then some { s with a } else none
  else some s

def minHeapPush (memory : Bool) (s : MinHeap) (e : EventPtr) : Option MinHeap :=
  (minHeapReserve memory s (s.n + 1)).map fun s =>
    minHeapShiftUp timeout { s with n := s.n + 1 } s.n e

/-- The place of an event outside of the heap. -/
def MinHeap.forget (s : MinHeap) (e : EventPtr) : MinHeap :=
  { s with minHeapIdx := Function.update s.minHeapIdx e (-1) }

def minHeapPop (s : MinHeap) : Option EventPtr × MinHeap :=
  if s.n = 0 then (none, s)
  else
    let e := s.p 0
    let n := s.n - 1
    (some e, (minHeapShiftDown timeout { s with n } 0 (s.p n)).forget e)

/-- An event goes up when it is less than the one above its place, and else it goes down. -/
def minHeapShift (s : MinHeap) (place : Nat) (e : EventPtr) : MinHeap :=
  if 0 < place ∧ minHeapElemGreater timeout (s.p ((place - 1) / 2)) e then
    minHeapShiftUpUnconditional timeout s place e
  else minHeapShiftDown timeout s place e

def minHeapErase (s : MinHeap) (e : EventPtr) : Option MinHeap :=
  if s.minHeapIdx e = -1 then none
  else
    let n := s.n - 1
    some ((minHeapShift timeout { s with n } (s.minHeapIdx e).toNat (s.p n)).forget e)

def minHeapAdjust (memory : Bool) (s : MinHeap) (e : EventPtr) : Option MinHeap :=
  if s.minHeapIdx e = -1 then minHeapPush timeout memory s e
  else some (minHeapShift timeout s (s.minHeapIdx e).toNat e)

end Projs.Libevent

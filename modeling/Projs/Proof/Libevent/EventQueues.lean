import Mathlib.Algebra.GroupWithZero.Nat
import Mathlib.Data.List.Nodup
import Projs.Construction.Libevent.EventBase
import Projs.Proof.Libevent.MinHeap

namespace Projs.Libevent
open BinaryHeap

/-- Both ways of a branch go on in the same way. -/
theorem ite_bind {First Second : Type} {condition : Prop} [Decidable condition]
    {left right : Except BaseFault First} {value : First}
    (taken : (if condition then left else right) = .ok value)
    {function : First → Except BaseFault Second} :
    (if condition then left >>= function else right >>= function) = function value := by
  split at taken
  · next yes =>
      rw [if_pos yes, taken]
      rfl
  · next no =>
      rw [if_neg no, taken]
      rfl

/-- The number of active events in all queues. -/
def activeTotal (activequeues : Nat → List EventPtr) (nactivequeues : Nat) : Nat :=
  ((List.range nactivequeues).map fun i => (activequeues i).length).sum

theorem activeTotal_update (activequeues : Nat → List EventPtr) {queue nactivequeues : Nat}
    (inside : queue < nactivequeues) (events : List EventPtr) :
    activeTotal (Function.update activequeues queue events) nactivequeues +
        (activequeues queue).length =
      activeTotal activequeues nactivequeues + events.length := by
  induction nactivequeues with
  | zero => cases inside
  | succ count inductionHypothesis =>
      rw [activeTotal, activeTotal, List.range_succ, List.map_append, List.map_append,
        List.sum_append, List.sum_append, List.map_singleton, List.map_singleton,
        List.sum_singleton, List.sum_singleton]
      change activeTotal _ count + _ + _ = activeTotal _ count + _ + _
      rcases Nat.lt_or_eq_of_le (Nat.le_of_lt_succ inside) with before | last
      · have rest := inductionHypothesis before
        rw [Function.update_of_ne (Nat.ne_of_gt before)]
        omega
      · subst last
        have front : activeTotal (Function.update activequeues queue events) queue =
            activeTotal activequeues queue := by
          rw [activeTotal, activeTotal]
          congr 1
          apply List.map_congr_left
          intro index below
          rw [Function.update_of_ne (Nat.ne_of_lt (List.mem_range.mp below))]
        rw [front, Function.update_self]
        omega

/-- The heap holds the events that wait for a timeout, the queues hold the active ones, and the
counters count them. -/
structure EventBase.Sound (base : EventBase) : Prop where
  heap : base.timeheap.Valid base.timeout
  pending : ∀ ev, base.timeheap.Holds ev ↔ (base.events ev).flagTimeout = true
  queued : ∀ queue ev, ev ∈ base.activequeues queue ↔
    (base.events ev).flagActive = true ∧ (base.events ev).evPri = queue
  nodup : ∀ queue, (base.activequeues queue).Nodup
  priority : ∀ ev, (base.events ev).evPri < base.nactivequeues
  active : base.eventCountActive = activeTotal base.activequeues base.nactivequeues
  count : base.eventCount = base.timeheap.n + base.eventCountActive

variable {base : EventBase} {ev : EventPtr}

theorem update_self (base : EventBase) (ev : EventPtr) (change : Event → Event) :
    (base.update ev change).events ev = change (base.events ev) := Function.update_self _ _ _

theorem update_of_ne (base : EventBase) {ev other : EventPtr} (apart : other ≠ ev)
    (change : Event → Event) : (base.update ev change).events other = base.events other :=
  Function.update_of_ne apart _ _

/-- A change that keeps a part of an event keeps it for every event. -/
theorem update_part {Part : Type} (base : EventBase) (ev : EventPtr) (change : Event → Event)
    (part : Event → Part) (kept : part (change (base.events ev)) = part (base.events ev))
    (other : EventPtr) :
    part ((base.update ev change).events other) = part (base.events other) := by
  by_cases same : other = ev
  · rw [same, update_self, kept]
  · rw [update_of_ne base same]

/-- What an event waits for, what it is added again with, and whether it is. -/
def Event.times (event : Event) : Timeval × Timeval × Bool :=
  (event.evTimeout, event.evIoTimeout, event.evPersist)

theorem timeout_of_times {base next : EventBase}
    (times : ∀ e, (next.events e).times = (base.events e).times) : next.timeout = base.timeout :=
  funext fun e => congrArg Prod.fst (times e)

/-- Changes of an event that are not seen by the heap and the queues do not disturb the base. -/
theorem EventBase.Sound.update (sound : base.Sound) {change : Event → Event}
    (evTimeout : (base.events ev).flagTimeout = true →
      (change (base.events ev)).evTimeout = (base.events ev).evTimeout)
    (flagTimeout : (change (base.events ev)).flagTimeout = (base.events ev).flagTimeout)
    (flagActive : (change (base.events ev)).flagActive = (base.events ev).flagActive)
    (evPri : (change (base.events ev)).evPri = (base.events ev).evPri) :
    (base.update ev change).Sound := by
  refine ⟨sound.heap.of_timeout fun e held => ?_, fun e => ?_, fun queue e => ?_, sound.nodup,
    fun e => ?_, sound.active, sound.count⟩
  · by_cases same : e = ev
    · rw [EventBase.timeout, EventBase.timeout, same, update_self]
      exact evTimeout ((sound.pending ev).mp (same ▸ held))
    · rw [EventBase.timeout, EventBase.timeout, update_of_ne base same]
  · rw [update_part base ev change Event.flagTimeout flagTimeout]
    exact sound.pending e
  · rw [update_part base ev change Event.flagActive flagActive,
      update_part base ev change Event.evPri evPri]
    exact sound.queued queue e
  · rw [update_part base ev change Event.evPri evPri]
    exact sound.priority e

/-- The base after the queue of an event has been changed by it. -/
def EventBase.requeued (base : EventBase) (ev : EventPtr) (flagActive : Bool) (step : Int)
    (queue : List EventPtr) : EventBase :=
  { base.update ev (fun event => { event with flagActive }) with
    eventCount := base.eventCount + step
    eventCountActive := base.eventCountActive + step
    activequeues := Function.update base.activequeues (base.events ev).evPri queue }

section Requeued

variable (base : EventBase) (ev : EventPtr) (flag : Bool) (step : Int) (queue : List EventPtr)

@[simp] theorem requeued_times (e : EventPtr) :
    ((base.requeued ev flag step queue).events e).times = (base.events e).times :=
  update_part base ev (fun event => { event with flagActive := flag }) Event.times rfl e

@[simp] theorem requeued_timeout : (base.requeued ev flag step queue).timeout = base.timeout :=
  timeout_of_times (requeued_times base ev flag step queue)

@[simp] theorem requeued_evPri (e : EventPtr) :
    ((base.requeued ev flag step queue).events e).evPri = (base.events e).evPri :=
  update_part base ev (fun event => { event with flagActive := flag }) Event.evPri rfl e

@[simp] theorem requeued_flagTimeout (e : EventPtr) :
    ((base.requeued ev flag step queue).events e).flagTimeout = (base.events e).flagTimeout :=
  update_part base ev (fun event => { event with flagActive := flag }) Event.flagTimeout rfl e

theorem requeued_flagActive (e : EventPtr) :
    ((base.requeued ev flag step queue).events e).flagActive =
      if e = ev then flag else (base.events e).flagActive := by
  change (Function.update base.events ev _ e).flagActive = _
  rw [Function.update_apply]
  split <;> rfl

theorem requeued_queues (other : Nat) : (base.requeued ev flag step queue).activequeues other =
    if other = (base.events ev).evPri then queue else base.activequeues other :=
  Function.update_apply _ _ _ _

end Requeued

theorem EventBase.Sound.requeued (sound : base.Sound) {flagActive : Bool} {step : Int}
    {queue : List EventPtr} (nodup : queue.Nodup)
    (members : ∀ e, e ∈ queue ↔
      if e = ev then flagActive = true else e ∈ base.activequeues (base.events ev).evPri)
    (size : (queue.length : Int) = (base.activequeues (base.events ev).evPri).length + step) :
    (base.requeued ev flagActive step queue).Sound := by
  refine ⟨?_, fun e => ?_, fun other e => ?_, fun other => ?_, fun e => ?_, ?_, ?_⟩
  · rw [requeued_timeout]
    exact sound.heap
  · rw [requeued_flagTimeout]
    exact sound.pending e
  · rw [requeued_evPri, requeued_flagActive, requeued_queues]
    split
    · next here =>
        rw [members]
        split
        · next same => rw [same, and_iff_left here.symm]
        · rw [here, sound.queued]
    · next apart =>
        rw [sound.queued]
        split
        · next same =>
            rw [same]
            exact iff_of_false (fun both => apart both.2.symm) fun both => apart both.2.symm
        · exact Iff.rfl
  · rw [requeued_queues]
    split
    · exact nodup
    · exact sound.nodup other
  · rw [requeued_evPri]
    exact sound.priority e
  · have total := activeTotal_update base.activequeues (sound.priority ev) queue
    have counted := sound.active
    change base.eventCountActive + step = (activeTotal (Function.update base.activequeues
      (base.events ev).evPri queue) base.nactivequeues : Int)
    omega
  · have counted := sound.count
    change base.eventCount + step = (base.timeheap.n : Int) + (base.eventCountActive + step)
    omega

/-- The base after an event has left its queue. -/
def EventBase.deactivated (base : EventBase) (ev : EventPtr) : EventBase :=
  base.requeued ev false (-1) ((base.activequeues (base.events ev).evPri).erase ev)

theorem eventQueueRemoveActive_eq (active : (base.events ev).flagActive = true) :
    eventQueueRemoveActive base ev = .ok (base.deactivated ev) := by
  rw [eventQueueRemoveActive, if_pos active]
  rfl

theorem EventBase.Sound.deactivated (sound : base.Sound)
    (active : (base.events ev).flagActive = true) : (base.deactivated ev).Sound := by
  have member : ev ∈ base.activequeues (base.events ev).evPri :=
    (sound.queued _ ev).mpr ⟨active, rfl⟩
  have nodup := sound.nodup (base.events ev).evPri
  apply sound.requeued (nodup.erase ev)
  · intro e
    split
    · next same =>
        rw [same]
        exact iff_of_false nodup.not_mem_erase (by decide)
    · next apart => exact List.mem_erase_of_ne apart
  · have length := List.length_erase_of_mem member
    have some := List.length_pos_of_mem member
    omega

/-- The base after an event has been put behind the others of its queue. -/
def EventBase.activated (base : EventBase) (ev : EventPtr) : EventBase :=
  base.requeued ev true 1 (base.activequeues (base.events ev).evPri ++ [ev])

theorem EventBase.Sound.insertActive_eq (sound : base.Sound)
    (idle : (base.events ev).flagActive = false) :
    eventQueueInsertActive base ev = .ok (base.activated ev) := by
  rw [eventQueueInsertActive, if_neg (by rw [idle]; decide)]
  exact if_pos (sound.priority ev)

theorem EventBase.Sound.activated (sound : base.Sound)
    (idle : (base.events ev).flagActive = false) : (base.activated ev).Sound := by
  have absent : ev ∉ base.activequeues (base.events ev).evPri := fun there => by
    rw [sound.queued, idle] at there
    cases there.1
  apply sound.requeued
  · refine List.nodup_append.mpr ⟨sound.nodup _, List.nodup_singleton ev, ?_⟩
    rintro first there last here rfl
    exact absent (List.mem_singleton.mp here ▸ there)
  · intro e
    rw [List.mem_append, List.mem_singleton]
    split
    · next same => exact iff_of_true (.inr same) rfl
    · next apart => exact or_iff_left apart
  · rw [List.length_append, List.length_singleton, Int.natCast_add, Int.natCast_one]

/-- The base after the heap has been changed by an event. -/
def EventBase.reheaped (base : EventBase) (ev : EventPtr) (flagTimeout : Bool) (step : Int)
    (heap : MinHeap) : EventBase :=
  { base.update ev (fun event => { event with flagTimeout }) with
    eventCount := base.eventCount + step
    timeheap := heap }

section Reheaped

variable (base : EventBase) (ev : EventPtr) (flag : Bool) (step : Int) (heap : MinHeap)

@[simp] theorem reheaped_times (e : EventPtr) :
    ((base.reheaped ev flag step heap).events e).times = (base.events e).times :=
  update_part base ev (fun event => { event with flagTimeout := flag }) Event.times rfl e

@[simp] theorem reheaped_timeout : (base.reheaped ev flag step heap).timeout = base.timeout :=
  timeout_of_times (reheaped_times base ev flag step heap)

@[simp] theorem reheaped_evPri (e : EventPtr) :
    ((base.reheaped ev flag step heap).events e).evPri = (base.events e).evPri :=
  update_part base ev (fun event => { event with flagTimeout := flag }) Event.evPri rfl e

@[simp] theorem reheaped_flagActive (e : EventPtr) :
    ((base.reheaped ev flag step heap).events e).flagActive = (base.events e).flagActive :=
  update_part base ev (fun event => { event with flagTimeout := flag }) Event.flagActive rfl e

theorem reheaped_flagTimeout (e : EventPtr) :
    ((base.reheaped ev flag step heap).events e).flagTimeout =
      if e = ev then flag else (base.events e).flagTimeout := by
  change (Function.update base.events ev _ e).flagTimeout = _
  rw [Function.update_apply]
  split <;> rfl

theorem reheaped_fewer (e : EventPtr)
    (waits : ((base.reheaped ev false step heap).events e).flagTimeout = true) :
    (base.events e).flagTimeout = true := by
  rw [reheaped_flagTimeout] at waits
  split at waits
  · cases waits
  · exact waits

end Reheaped

/-- The flag of an event tells whether it is in the heap. -/
theorem EventBase.Sound.reheaped (sound : base.Sound) {flagTimeout : Bool} {step : Int}
    {heap : MinHeap} (valid : heap.Valid base.timeout)
    (holds : ∀ e, heap.Holds e ↔ if e = ev then flagTimeout = true else base.timeheap.Holds e)
    (size : (heap.n : Int) = base.timeheap.n + step) :
    (base.reheaped ev flagTimeout step heap).Sound := by
  refine ⟨?_, fun e => ?_, fun queue e => ?_, sound.nodup, fun e => ?_, sound.active, ?_⟩
  · rw [reheaped_timeout]
    exact valid
  · rw [reheaped_flagTimeout]
    apply (holds e).trans
    split
    · exact Iff.rfl
    · exact sound.pending e
  · rw [reheaped_flagActive, reheaped_evPri]
    exact sound.queued queue e
  · rw [reheaped_evPri]
    exact sound.priority e
  · have counted := sound.count
    change base.eventCount + step = (heap.n : Int) + base.eventCountActive
    omega

/-- An event that waits is taken out of the heap. -/
theorem EventBase.Sound.removeTimeout (sound : base.Sound)
    (waits : (base.events ev).flagTimeout = true) :
    ∃ heap, eventQueueRemoveTimeout base ev = .ok (base.reheaped ev false (-1) heap) ∧
      (base.reheaped ev false (-1) heap).Sound ∧ heap.n + 1 = base.timeheap.n ∧
      heap.a = base.timeheap.a ∧ ∀ e, heap.Holds e ↔ e ≠ ev ∧ base.timeheap.Holds e := by
  let change : Event → Event := fun event => { event with flagTimeout := false }
  have held : base.timeheap.minHeapIdx ev ≠ -1 :=
    (sound.heap.holds_iff ev).mp ((sound.pending ev).mpr waits)
  obtain ⟨heap, erased, valid, size, room, holds⟩ := minHeapErase_spec sound.heap held
  have timeout : (base.update ev change).timeout = base.timeout :=
    funext (update_part base ev change Event.evTimeout rfl)
  refine ⟨heap, ?_, sound.reheaped valid (fun e => ?_) (by omega), size, room, holds⟩
  · rw [eventQueueRemoveTimeout, if_pos waits]
    change Except.ok (base.reheaped ev false (-1)
      ((minHeapErase (base.update ev change).timeout base.timeheap ev).getD base.timeheap)) = _
    rw [timeout, erased]
    rfl
  · rw [holds]
    split
    · next same => exact iff_of_false (fun both => both.1 same) (by decide)
    · next apart => exact and_iff_right apart

/-- With room in the array no memory is asked for. -/
theorem minHeapReserve_of_le {s : MinHeap} {n : Nat} (memory : Bool) (room : n ≤ s.a) :
    minHeapReserve memory s n = some s := by
  rw [minHeapReserve, if_neg (Nat.not_lt.mpr room)]

/-- An event that does not wait is put into the heap, which has room for it. -/
theorem EventBase.Sound.insertTimeout (sound : base.Sound) (memory : Bool)
    (idle : (base.events ev).flagTimeout = false) (room : base.timeheap.n < base.timeheap.a) :
    ∃ heap, eventQueueInsertTimeout memory base ev = .ok (base.reheaped ev true 1 heap) ∧
      (base.reheaped ev true 1 heap).Sound ∧
      ∀ e, heap.Holds e ↔ e = ev ∨ base.timeheap.Holds e := by
  let change : Event → Event := fun event => { event with flagTimeout := true }
  have absent : base.timeheap.minHeapIdx ev = -1 := by
    by_contra held
    rw [(sound.pending ev).mp ((sound.heap.holds_iff ev).mpr held)] at idle
    cases idle
  have timeout : (base.update ev change).timeout = base.timeout :=
    funext (update_part base ev change Event.evTimeout rfl)
  have pushed : ∃ heap, minHeapPush base.timeout memory base.timeheap ev = some heap ∧
      heap.Valid base.timeout ∧ heap.n = base.timeheap.n + 1 ∧
      ∀ e, heap.Holds e ↔ e = ev ∨ base.timeheap.Holds e := by
    rcases minHeapPush_spec memory sound.heap absent with ⟨none, -⟩ | found
    · rw [minHeapPush, minHeapReserve_of_le memory room] at none
      cases none
    · exact found
  obtain ⟨heap, pushed, valid, size, holds⟩ := pushed
  refine ⟨heap, ?_, sound.reheaped valid (fun e => ?_) (by omega), holds⟩
  · rw [eventQueueInsertTimeout, if_neg (by rw [idle]; decide)]
    change Except.ok (base.reheaped ev true 1 ((minHeapPush (base.update ev change).timeout memory
      base.timeheap ev).getD base.timeheap)) = _
    rw [timeout, pushed]
    rfl
  · rw [holds]
    split
    · next same => exact iff_of_true (.inl same) rfl
    · next apart => exact or_iff_right apart

end Projs.Libevent

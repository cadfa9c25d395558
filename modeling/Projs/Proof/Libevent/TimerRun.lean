import Projs.Library.LabelledMachine
import Projs.Proof.Libevent.EventQueues

namespace Projs.Libevent
open LabelledMachine

variable {base : EventBase} {ev : EventPtr}

/-- The state of the base without an event in the heap and in the queues. -/
structure Removes (base next : EventBase) (ev : EventPtr) : Prop where
  sound : next.Sound
  times : ∀ e, (next.events e).times = (base.events e).times
  evPri : ∀ e, (next.events e).evPri = (base.events e).evPri
  flagTimeout : ∀ e, (next.events e).flagTimeout = true ↔
    e ≠ ev ∧ (base.events e).flagTimeout = true
  flagActive : (next.events ev).flagActive = false
  queues : ∀ queue, next.activequeues queue = (base.activequeues queue).erase ev
  size : next.timeheap.n ≤ base.timeheap.n
  fewer : (base.events ev).flagTimeout = true → next.timeheap.n < base.timeheap.n

/-- A deleted event waits no longer and is not active. -/
theorem EventBase.Sound.eventDel (sound : base.Sound) (ev : EventPtr) :
    ∃ next, eventDelNolock base ev = .ok next ∧ Removes base next ev := by
  have waiting : ∃ middle, (if (base.events ev).flagTimeout then eventQueueRemoveTimeout base ev
        else .ok base) = .ok middle ∧ middle.Sound ∧
      (∀ e, (middle.events e).times = (base.events e).times) ∧
      (∀ e, (middle.events e).evPri = (base.events e).evPri) ∧
      (∀ e, (middle.events e).flagTimeout = true ↔
        e ≠ ev ∧ (base.events e).flagTimeout = true) ∧
      middle.activequeues = base.activequeues ∧ middle.timeheap.n ≤ base.timeheap.n ∧
      ((base.events ev).flagTimeout = true → middle.timeheap.n < base.timeheap.n) := by
    split
    · next waits =>
        obtain ⟨heap, removed, kept, size, -, holds⟩ := sound.removeTimeout waits
        refine ⟨_, removed, kept, ?_, ?_, fun e => ?_, rfl, ?_, fun _ => ?_⟩
        · exact reheaped_times base ev false (-1) heap
        · exact reheaped_evPri base ev false (-1) heap
        · rw [← kept.pending e, ← sound.pending e]
          exact holds e
        · exact Nat.le_of_succ_le (Nat.le_of_eq size)
        · exact Nat.lt_of_succ_le (Nat.le_of_eq size)
    · next idle =>
        refine ⟨base, rfl, sound, fun _ => rfl, fun _ => rfl, fun e => ?_, rfl, Nat.le_refl _,
          fun waits => absurd waits idle⟩
        exact ⟨fun waits => ⟨fun same => idle (same ▸ waits), waits⟩, fun both => both.2⟩
  obtain ⟨middle, removed, kept, times, evPri, flagTimeout, queues, size, fewer⟩ := waiting
  have done : ∃ next, (if (middle.events ev).flagActive then eventQueueRemoveActive middle ev
      else .ok middle) = .ok next ∧ Removes base next ev := by
    split
    · next active =>
        refine ⟨_, eventQueueRemoveActive_eq active, kept.deactivated active, fun e => ?_,
          fun e => ?_, fun e => ?_, ?_, fun queue => ?_, size, fewer⟩
        · rw [EventBase.deactivated, requeued_times, times]
        · rw [EventBase.deactivated, requeued_evPri, evPri]
        · rw [EventBase.deactivated, requeued_flagTimeout, flagTimeout]
        · rw [EventBase.deactivated, requeued_flagActive, if_pos rfl]
        · rw [EventBase.deactivated, requeued_queues, ← queues]
          split
          · next here => rw [here]
          · next apart =>
              have absent : ev ∉ middle.activequeues queue := fun there =>
                apart ((kept.queued queue ev).mp there).2.symm
              rw [List.erase_of_not_mem absent]
    · next idle =>
        have absent (queue : Nat) : ev ∉ middle.activequeues queue := fun there =>
          idle ((kept.queued queue ev).mp there).1
        refine ⟨middle, rfl, kept, times, evPri, flagTimeout, Bool.eq_false_iff.mpr idle,
          fun queue => ?_, size, fewer⟩
        rw [← queues, List.erase_of_not_mem (absent queue)]
  obtain ⟨next, finished, removes⟩ := done
  refine ⟨next, ?_, removes⟩
  rw [eventDelNolock]
  exact (ite_bind removed).trans finished

/-- An activated event is in the queue of its priority. -/
theorem EventBase.Sound.eventActive (sound : base.Sound) (ev : EventPtr) (resTimeout : Bool) :
    ∃ next, eventActiveNolock base ev resTimeout = .ok next ∧ next.Sound ∧
      (∀ e, (next.events e).times = (base.events e).times) ∧
      (∀ e, (next.events e).evPri = (base.events e).evPri) ∧
      (∀ e, (next.events e).flagTimeout = (base.events e).flagTimeout) ∧
      next.timeheap = base.timeheap ∧ next.nactivequeues = base.nactivequeues ∧
      ((base.events ev).flagActive = false → ∀ queue, next.activequeues queue =
        if queue = (base.events ev).evPri then base.activequeues queue ++ [ev]
        else base.activequeues queue) := by
  rw [eventActiveNolock]
  split
  · next active =>
      refine ⟨_, rfl, sound.update (fun _ => rfl) rfl rfl rfl, ?_, ?_, ?_, rfl, rfl, ?_⟩
      · exact update_part base ev _ Event.times rfl
      · exact update_part base ev _ Event.evPri rfl
      · exact update_part base ev _ Event.flagTimeout rfl
      · intro idle
        rw [active] at idle
        cases idle
  · next idle =>
      let change : Event → Event := fun event => { event with resTimeout }
      have off : (base.events ev).flagActive = false := Bool.eq_false_iff.mpr idle
      have marked : (base.update ev change).Sound := sound.update (fun _ => rfl) rfl rfl rfl
      have still : ((base.update ev change).events ev).flagActive = false := by
        rw [update_self]
        exact off
      have pri : ((base.update ev change).events ev).evPri = (base.events ev).evPri := by
        rw [update_self]
      refine ⟨_, marked.insertActive_eq still, marked.activated still, fun e => ?_, fun e => ?_,
        fun e => ?_, rfl, rfl, fun _ queue => ?_⟩
      · rw [EventBase.activated, requeued_times]
        exact update_part base ev change Event.times rfl e
      · rw [EventBase.activated, requeued_evPri]
        exact update_part base ev change Event.evPri rfl e
      · rw [EventBase.activated, requeued_flagTimeout]
        exact update_part base ev change Event.flagTimeout rfl e
      · rw [EventBase.activated, requeued_queues, pri]
        split
        · next here => rw [here]; rfl
        · rfl

/-- The events that have fired, in their order. -/
structure Fired (base next : EventBase) (now : Timeval) (due : List EventPtr) : Prop where
  sound : next.Sound
  nodup : due.Nodup
  mem_due : ∀ e, e ∈ due ↔
    (base.events e).flagTimeout = true ∧ timerGreater (base.timeout e) now = false
  sorted : due.Pairwise fun first second =>
    timerGreater (base.timeout first) (base.timeout second) = false
  flagTimeout : ∀ e, (next.events e).flagTimeout = true ↔
    (base.events e).flagTimeout = true ∧ timerGreater (base.timeout e) now = true
  times : ∀ e, (next.events e).times = (base.events e).times
  evPri : ∀ e, (next.events e).evPri = (base.events e).evPri
  queues : ∀ queue, next.activequeues queue =
    (base.activequeues queue).filter (fun e => e ∉ due) ++
      due.filter fun e => (base.events e).evPri = queue

/-- When the first event of the heap is not due, no event is. -/
theorem EventBase.Sound.none_due (sound : base.Sound) {now : Timeval}
    (none : ∀ e, (base.events e).flagTimeout = true → timerGreater (base.timeout e) now = true) :
    Fired base base now [] := by
  refine ⟨sound, List.nodup_nil, fun e => ?_, List.Pairwise.nil, fun e => ?_, fun _ => rfl,
    fun _ => rfl, fun queue => ?_⟩
  · refine iff_of_false List.not_mem_nil fun both => ?_
    rw [none e both.1] at both
    cases both.2
  · exact ⟨fun waits => ⟨waits, none e waits⟩, fun both => both.1⟩
  · simp

/-- One event has fired. -/
structure FiredOne (base next : EventBase) (ev : EventPtr) : Prop where
  sound : next.Sound
  times : ∀ e, (next.events e).times = (base.events e).times
  evPri : ∀ e, (next.events e).evPri = (base.events e).evPri
  flagTimeout : ∀ e, (next.events e).flagTimeout = true ↔
    e ≠ ev ∧ (base.events e).flagTimeout = true
  queues : ∀ queue, next.activequeues queue = (base.activequeues queue).erase ev ++
    [ev].filter fun e => (base.events e).evPri = queue
  fewer : next.timeheap.n < base.timeheap.n

theorem EventBase.Sound.fireOne (sound : base.Sound) (waits : (base.events ev).flagTimeout = true) :
    ∃ middle next, eventDelNolock base ev = .ok middle ∧
      eventActiveNolock middle ev true = .ok next ∧ FiredOne base next ev := by
  obtain ⟨middle, deleted, removes⟩ := sound.eventDel ev
  obtain ⟨next, activated, kept, times, evPri, flagTimeout, heap, -, queues⟩ :=
    removes.sound.eventActive ev true
  refine ⟨middle, next, deleted, activated, kept, fun e => ?_, fun e => ?_, fun e => ?_,
    fun queue => ?_, ?_⟩
  · rw [times, removes.times]
  · rw [evPri, removes.evPri]
  · rw [flagTimeout, removes.flagTimeout]
  · rw [queues removes.flagActive, removes.queues, removes.evPri]
    split
    · next here => simp [here]
    · next apart => simp [Ne.symm apart]
  · rw [heap]
    exact removes.fewer waits

/-- The first event and then the others have fired. -/
theorem FiredOne.cons {next final : EventBase} {now : Timeval} {due : List EventPtr}
    (sound : base.Sound) (one : FiredOne base next ev) (fired : Fired next final now due)
    (waits : (base.events ev).flagTimeout = true)
    (past : timerGreater (base.timeout ev) now = false)
    (least : ∀ e, (base.events e).flagTimeout = true →
      timerGreater (base.timeout ev) (base.timeout e) = false) :
    Fired base final now (ev :: due) := by
  have timeouts : next.timeout = base.timeout := timeout_of_times one.times
  have apart : ev ∉ due := fun there =>
    ((one.flagTimeout ev).mp ((fired.mem_due ev).mp there).1).1 rfl
  refine ⟨fired.sound, List.nodup_cons.mpr ⟨apart, fired.nodup⟩, fun e => ?_, ?_, fun e => ?_,
    fun e => ?_, fun e => ?_, fun queue => ?_⟩
  · rw [List.mem_cons, fired.mem_due, one.flagTimeout, timeouts]
    constructor
    · rintro (rfl | ⟨⟨-, waiting⟩, passed⟩)
      · exact ⟨waits, past⟩
      · exact ⟨waiting, passed⟩
    · rintro ⟨waiting, passed⟩
      by_cases same : e = ev
      · exact .inl same
      · exact .inr ⟨⟨same, waiting⟩, passed⟩
  · refine List.pairwise_cons.mpr ⟨fun e there => ?_, ?_⟩
    · exact least e ((one.flagTimeout e).mp ((fired.mem_due e).mp there).1).2
    · have rest := fired.sorted
      rw [timeouts] at rest
      exact rest
  · rw [fired.flagTimeout, one.flagTimeout, timeouts]
    constructor
    · rintro ⟨⟨-, waiting⟩, later⟩
      exact ⟨waiting, later⟩
    · rintro ⟨waiting, later⟩
      refine ⟨⟨fun same => ?_, waiting⟩, later⟩
      rw [same, past] at later
      cases later
  · rw [fired.times, one.times]
  · rw [fired.evPri, one.evPri]
  · have stays : ([ev].filter fun e => (base.events e).evPri = queue).filter (fun e => e ∉ due) =
        [ev].filter fun e => (base.events e).evPri = queue := by
      apply List.filter_eq_self.mpr
      intro e there
      rw [List.mem_singleton.mp (List.mem_of_mem_filter there)]
      exact decide_eq_true apart
    have front : ((base.activequeues queue).erase ev).filter (fun e => e ∉ due) =
        (base.activequeues queue).filter fun e => e ∉ ev :: due := by
      rw [(sound.nodup queue).erase_eq_filter, List.filter_filter]
      congr 1
      funext e
      by_cases same : e = ev <;> simp [same]
    have back : (due.filter fun e => (next.events e).evPri = queue) =
        due.filter fun e => (base.events e).evPri = queue := by
      congr 1
      funext e
      rw [one.evPri]
    rw [fired.queues, one.queues, List.filter_append, stays, front, back, List.append_assoc,
      ← List.filter_append]
    rfl

/-- The loop fires the events that are due, from the earliest to the latest. -/
theorem timeoutProcessFrom_fired (now : Timeval) (steps : Nat) (sound : base.Sound)
    (enough : base.timeheap.n < steps) :
    ∃ due next, timeoutProcessFrom now steps base = .ok next ∧ Fired base next now due := by
  induction steps generalizing base with
  | zero => cases enough
  | succ steps inductionHypothesis =>
      rw [timeoutProcessFrom]
      cases top : minHeapTop base.timeheap with
      | none =>
          refine ⟨[], base, rfl, sound.none_due fun e waits => ?_⟩
          exact absurd ((sound.pending e).mpr waits) (minHeapTop_eq_none_iff.mp top e)
      | some ev =>
          obtain ⟨held, least⟩ := sound.heap.top_le top
          simp only
          by_cases later : timerGreater (base.timeout ev) now = true
          · rw [if_pos later]
            refine ⟨[], base, rfl, sound.none_due fun e waits => ?_⟩
            apply timerGreater_iff.mpr
            exact lt_of_lt_of_le (timerGreater_iff.mp later)
              (least e ((sound.pending e).mpr waits))
          · have waits := (sound.pending ev).mp held
            obtain ⟨middle, next, deleted, activated, one⟩ := sound.fireOne waits
            obtain ⟨due, final, processed, fired⟩ := inductionHypothesis one.sound
              (Nat.lt_of_lt_of_le one.fewer (Nat.le_of_lt_succ enough))
            refine ⟨ev :: due, final, ?_, one.cons sound fired waits (Bool.eq_false_iff.mpr later)
              fun e waiting => ?_⟩
            · rw [if_neg later, deleted]
              change (eventActiveNolock middle ev true >>= _) = _
              rw [activated]
              exact processed
            · exact timerGreater_eq_false_iff.mpr (least e ((sound.pending e).mpr waiting))

/-- A call to the timers that are due fires all of them. -/
theorem timeoutProcess_fired (sound : base.Sound) (now : Timeval) :
    ∃ due next, timeoutProcess base now = .ok next ∧ Fired base next now due :=
  timeoutProcessFrom_fired now _ sound (Nat.lt_succ_self _)

end Projs.Libevent

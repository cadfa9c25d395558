import Projs.Proof.Libevent.TimerRun

namespace Projs.Libevent
open BinaryHeap LabelledMachine

variable {base : EventBase} {ev : EventPtr}

/-- The microseconds are less than a second. -/
def Timeval.Normalised (tv : Timeval) : Prop := 0 ≤ tv.tvUsec ∧ tv.tvUsec < 1000000

instance (tv : Timeval) : Decidable tv.Normalised := inferInstanceAs (Decidable (_ ∧ _))

theorem Timeval.Normalised.timerAdd {tv uv : Timeval} (first : tv.Normalised)
    (second : uv.Normalised) : (timerAdd tv uv).Normalised := by
  obtain ⟨low, high⟩ := first
  obtain ⟨positive, below⟩ := second
  rw [Libevent.timerAdd]
  split
  · next carried => exact ⟨Int.sub_nonneg_of_le carried, by simp only; omega⟩
  · next fits => exact ⟨Int.add_nonneg low positive, Int.lt_of_not_ge fits⟩

/-- A time is a while after an earlier one. -/
theorem Timeval.Normalised.timerSub {tv uv : Timeval} (first : tv.Normalised)
    (second : uv.Normalised) (later : timerGreater tv uv = true) :
    0 ≤ (timerSub tv uv).tvSec ∧ 0 ≤ (timerSub tv uv).tvUsec := by
  obtain ⟨low, high⟩ := first
  obtain ⟨positive, below⟩ := second
  simp only [timerGreater] at later
  simp only [Libevent.timerSub]
  split at later <;> split <;> simp only [decide_eq_true_eq] at later ⊢ <;> omega

theorem Timeval.Normalised.aboveMicroseconds {tv : Timeval} (normalised : tv.Normalised) :
    tv.aboveMicroseconds = 0 := by
  obtain ⟨low, high⟩ := normalised
  rw [Timeval.aboveMicroseconds, microsecondsMask, Int.emod_eq_of_lt low (by omega), Int.sub_self]

/-- An event that waits does so for a normalised time, and one that is added again was added for
such a time and is added with one. -/
structure Event.Timed (event : Event) : Prop where
  waits : event.flagTimeout = true → event.evTimeout.Normalised
  again : event.evPersist = true → event.evIoTimeout ≠ timerClear →
    event.evTimeout.Normalised ∧ event.evIoTimeout.Normalised

theorem Event.Timed.of_times {first second : Event} (timed : first.Timed)
    (times : second.times = first.times)
    (fewer : second.flagTimeout = true → first.flagTimeout = true) : second.Timed := by
  have evTimeout : second.evTimeout = first.evTimeout := congrArg Prod.fst times
  have evIoTimeout : second.evIoTimeout = first.evIoTimeout := congrArg (fun time => time.2.1) times
  have evPersist : second.evPersist = first.evPersist := congrArg (fun time => time.2.2) times
  constructor
  · intro waits
    rw [evTimeout]
    exact timed.waits (fewer waits)
  · rw [evTimeout, evIoTimeout, evPersist]
    exact timed.again

def EventBase.Timed (base : EventBase) : Prop := ∀ ev, (base.events ev).Timed

theorem EventBase.Timed.of_times {base next : EventBase} (timed : base.Timed)
    (times : ∀ e, (next.events e).times = (base.events e).times)
    (fewer : ∀ e, (next.events e).flagTimeout = true → (base.events e).flagTimeout = true) :
    next.Timed :=
  fun e => (timed e).of_times (times e) (fewer e)

theorem EventBase.Timed.update {change : Event → Event} (timed : base.Timed)
    (changed : (change (base.events ev)).Timed) : (base.update ev change).Timed := by
  intro e
  by_cases same : e = ev
  · rw [same, update_self]
    exact changed
  · rw [update_of_ne base same]
    exact timed e

/-- An event that is added with a normalised time is timed. -/
theorem Event.Timed.added {event next : Event} (timed : event.Timed) {tv now : Timeval}
    {tvIsAbsolute : Bool} (normalised : tv.Normalised) (clock : now.Normalised)
    (times : next.times = (if tvIsAbsolute then tv else timerAdd now tv,
      if event.evPersist ∧ ¬ tvIsAbsolute then tv else event.evIoTimeout, event.evPersist)) :
    next.Timed := by
  have evTimeout : next.evTimeout = if tvIsAbsolute then tv else timerAdd now tv :=
    congrArg Prod.fst times
  have evIoTimeout : next.evIoTimeout =
      if event.evPersist ∧ ¬ tvIsAbsolute then tv else event.evIoTimeout :=
    congrArg (fun time => time.2.1) times
  have evPersist : next.evPersist = event.evPersist := congrArg (fun time => time.2.2) times
  have time : next.evTimeout.Normalised := by
    rw [evTimeout]
    split
    · exact normalised
    · exact clock.timerAdd normalised
  refine ⟨fun _ => time, fun persist some => ⟨time, ?_⟩⟩
  rw [evPersist] at persist
  rw [evIoTimeout] at some ⊢
  cases tvIsAbsolute with
  | true =>
      rw [if_neg fun both => both.2 rfl] at some ⊢
      exact (timed.again persist some).2
  | false =>
      rw [if_pos ⟨persist, Bool.false_ne_true⟩]
      exact normalised

/-- More room in the array is not seen. -/
theorem EventBase.Sound.withRoom (sound : base.Sound) {a : Nat} (more : base.timeheap.a ≤ a) :
    EventBase.Sound { base with timeheap := { base.timeheap with a } } :=
  ⟨⟨sound.heap.ordered, sound.heap.placed, sound.heap.outside,
    Nat.le_trans sound.heap.room more⟩, sound.pending, sound.queued, sound.nodup, sound.priority,
    sound.active, sound.count⟩

/-- Before an event is changed, there is room for it in the heap. -/
theorem reserve_eq (base : EventBase) (memory : Bool) (ev : EventPtr) :
    (if (base.events ev).flagTimeout then some base.timeheap
        else minHeapReserve memory base.timeheap (1 + base.timeheap.n)) = none ∨
      ∃ a, base.timeheap.a ≤ a ∧ ((base.events ev).flagTimeout = false → base.timeheap.n < a) ∧
        (if (base.events ev).flagTimeout then some base.timeheap
          else minHeapReserve memory base.timeheap (1 + base.timeheap.n)) =
          some { base.timeheap with a } := by
  split
  · next waits =>
      refine .inr ⟨base.timeheap.a, Nat.le_refl _, fun idle => ?_, rfl⟩
      rw [waits] at idle
      cases idle
  · next idle =>
      rcases minHeapReserve_eq memory base.timeheap (1 + base.timeheap.n) with
        ⟨none, -⟩ | ⟨a, more, room, reserved⟩
      · exact .inl none
      · exact .inr ⟨a, more, fun _ => by omega, reserved⟩

/-- An event that is to get a new timeout does not wait any more, and the heap has room for it. -/
theorem EventBase.Sound.stopWaiting (sound : base.Sound)
    (room : (base.events ev).flagTimeout = false → base.timeheap.n < base.timeheap.a) :
    ∃ next, (if (base.events ev).flagTimeout then eventQueueRemoveTimeout base ev
        else .ok base) = .ok next ∧ next.Sound ∧ (next.events ev).flagTimeout = false ∧
      next.timeheap.n < next.timeheap.a ∧
      (∀ e, (next.events e).times = (base.events e).times) ∧
      ∀ e, (next.events e).flagTimeout = true → (base.events e).flagTimeout = true := by
  split
  · next waits =>
      obtain ⟨heap, removed, kept, size, same, -⟩ := sound.removeTimeout waits
      refine ⟨_, removed, kept, ?_, ?_, reheaped_times base ev false (-1) heap,
        reheaped_fewer base ev (-1) heap⟩
      · rw [reheaped_flagTimeout, if_pos rfl]
      · have fits := sound.heap.room
        change heap.n < heap.a
        omega
  · next idle =>
      have off := Bool.eq_false_iff.mpr idle
      exact ⟨base, rfl, sound, off, room off, fun _ => rfl, fun _ => id⟩

/-- An event that is active because of its timeout leaves its queue. -/
theorem EventBase.Sound.stopFiring (sound : base.Sound) (ev : EventPtr) :
    ∃ next, (if (base.events ev).flagActive ∧ (base.events ev).resTimeout then
        eventQueueRemoveActive base ev else .ok base) = .ok next ∧ next.Sound ∧
      (∀ e, (next.events e).flagTimeout = (base.events e).flagTimeout) ∧
      next.timeheap = base.timeheap ∧ ∀ e, (next.events e).times = (base.events e).times := by
  split
  · next active =>
      refine ⟨_, eventQueueRemoveActive_eq active.1, sound.deactivated active.1, ?_, rfl, ?_⟩
      · exact requeued_flagTimeout base ev false (-1) _
      · exact requeued_times base ev false (-1) _
  · exact ⟨base, rfl, sound, fun _ => rfl, rfl, fun _ => rfl⟩

/-- Adding an event succeeds, or there is no memory and nothing is changed. -/
theorem EventBase.Sound.eventAdd (sound : base.Sound) (memory : Memory) (ev : EventPtr)
    (tv : Option Timeval) (tvIsAbsolute : Bool) (now : Timeval) :
    eventAddNolock memory base ev tv tvIsAbsolute now = .ok (-1, base) ∨
      ∃ next, eventAddNolock memory base ev tv tvIsAbsolute now = .ok (0, next) ∧ next.Sound ∧
        ((∀ time ∈ tv, time.Normalised) → now.Normalised → base.Timed → next.Timed) := by
  cases tv with
  | none => exact .inr ⟨base, rfl, sound, fun _ _ timed => timed⟩
  | some tv =>
      rw [eventAddNolock]
      simp only
      rcases reserve_eq base memory.reserve ev with none | ⟨a, more, room, reserved⟩
      · rw [none]
        exact .inl rfl
      · rw [reserved]
        simp only
        let first : EventBase := { base with timeheap := { base.timeheap with a } }
        have kept : first.Sound := sound.withRoom more
        let second : EventBase := if (first.events ev).evPersist ∧ ¬ tvIsAbsolute then
          first.update ev fun event => { event with evIoTimeout := tv } else first
        have remembered : second.Sound ∧ second.timeheap = first.timeheap ∧
            (second.events ev).flagTimeout = (first.events ev).flagTimeout ∧
            (second.events ev).times.2 = (if (base.events ev).evPersist ∧ ¬ tvIsAbsolute then tv
              else (base.events ev).evIoTimeout, (base.events ev).evPersist) ∧
            ∀ e, e ≠ ev → second.events e = base.events e := by
          simp only [second]
          split
          · refine ⟨kept.update (fun _ => rfl) rfl rfl rfl, rfl, by rw [update_self], ?_,
              fun e apart => update_of_ne first apart _⟩
            rw [update_self]
            rfl
          · exact ⟨kept, rfl, rfl, rfl, fun _ _ => rfl⟩
        obtain ⟨secondSound, sameHeap, sameFlag, secondTimes, others⟩ := remembered
        have secondRoom : (second.events ev).flagTimeout = false →
            second.timeheap.n < second.timeheap.a := by
          rw [sameFlag, sameHeap]
          exact room
        obtain ⟨third, stopped, thirdSound, idle, free, thirdTimes, fewer⟩ :=
          secondSound.stopWaiting secondRoom
        obtain ⟨fourth, quiet, fourthSound, still, heap, fourthTimes⟩ := thirdSound.stopFiring ev
        let evTimeout := if tvIsAbsolute then tv else timerAdd now tv
        let fifth := fourth.update ev fun event => { event with evTimeout }
        have off : (fourth.events ev).flagTimeout = false := (still ev).trans idle
        have fifthSound : fifth.Sound := fourthSound.update
          (fun waits => by rw [off] at waits; cases waits) rfl rfl rfl
        have fifthOff : (fifth.events ev).flagTimeout = false := by
          rw [update_self]
          exact off
        have fifthRoom : fifth.timeheap.n < fifth.timeheap.a := by
          change fourth.timeheap.n < fourth.timeheap.a
          rw [heap]
          exact free
        obtain ⟨final, inserted, finalSound, -⟩ :=
          fifthSound.insertTimeout memory.push fifthOff fifthRoom
        refine .inr ⟨_, ?_, finalSound, fun normalised clock timed => ?_⟩
        · let insert (base : EventBase) : Except BaseFault (Int × EventBase) :=
            eventQueueInsertTimeout memory.push
                (base.update ev fun event => { event with evTimeout }) ev >>=
              fun base => pure (0, base)
          let quieten (base : EventBase) : Except BaseFault (Int × EventBase) :=
            if (base.events ev).flagActive ∧ (base.events ev).resTimeout then
              eventQueueRemoveActive base ev >>= insert else .ok base >>= insert
          change (if (second.events ev).flagTimeout then
            eventQueueRemoveTimeout second ev >>= quieten else .ok second >>= quieten) = _
          rw [ite_bind stopped]
          change (if (third.events ev).flagActive ∧ (third.events ev).resTimeout then
              eventQueueRemoveActive third ev >>= insert else .ok third >>= insert) = _
          rw [ite_bind quiet]
          change (eventQueueInsertTimeout memory.push fifth ev >>= _) = _
          rw [inserted]
          rfl
        · have times (e : EventPtr) : (fourth.events e).times = (second.events e).times :=
            (fourthTimes e).trans (thirdTimes e)
          intro e
          by_cases same : e = ev
          · apply (timed ev).added (normalised tv rfl) clock
            rw [reheaped_times, same, update_self, ← secondTimes, ← times]
            rfl
          · apply (timed e).of_times
            · rw [reheaped_times, update_of_ne fourth same, times, others e same]
            · intro waits
              rw [reheaped_flagTimeout, if_neg same, update_of_ne fourth same, still] at waits
              rw [← others e same]
              exact fewer e waits

theorem EventBase.Sound.eventRemoveTimer (sound : base.Sound) (ev : EventPtr) :
    ∃ next, eventRemoveTimerNolock base ev = .ok next ∧ next.Sound ∧ (base.Timed → next.Timed) := by
  rw [eventRemoveTimerNolock]
  split
  · next waits =>
      obtain ⟨heap, removed, kept, -⟩ := sound.removeTimeout waits
      rw [removed]
      refine ⟨_, rfl, kept.update (fun _ => rfl) rfl rfl rfl, fun timed => ?_⟩
      apply EventBase.Timed.update
        (timed.of_times (reheaped_times base ev false (-1) heap) (reheaped_fewer base ev (-1) heap))
      refine ⟨fun waits => ?_, fun _ some => absurd rfl some⟩
      change ((base.reheaped ev false (-1) heap).events ev).flagTimeout = true at waits
      rw [reheaped_flagTimeout, if_pos rfl] at waits
      cases waits
  · exact ⟨base, rfl, sound, id⟩

theorem eventPrioritySet_part {Part : Type} (base : EventBase) (ev : EventPtr) (pri : Int)
    (part : Event → Part) (kept : ∀ event evPri, part { event with evPri } = part event)
    (e : EventPtr) : part ((eventPrioritySet base ev pri).events e) = part (base.events e) := by
  rw [eventPrioritySet]
  split
  · rfl
  · exact update_part base ev (fun event => { event with evPri := pri.toNat }) part (kept _ _) e

theorem EventBase.Sound.eventPrioritySet (sound : base.Sound) (ev : EventPtr) (pri : Int) :
    (eventPrioritySet base ev pri).Sound := by
  rw [Libevent.eventPrioritySet]
  split
  · exact sound
  · next allowed =>
      let change : Event → Event := fun event => { event with evPri := pri.toNat }
      have timeout : (base.update ev change).timeout = base.timeout :=
        funext (update_part base ev change Event.evTimeout rfl)
      have flagTimeout := update_part base ev change Event.flagTimeout rfl
      have idle : ¬ (base.events ev).flagActive = true := fun active => allowed (.inl active)
      refine ⟨?_, fun e => ?_, fun queue e => ?_, sound.nodup, fun e => ?_, sound.active,
        sound.count⟩
      · change base.timeheap.Valid (base.update ev change).timeout
        rw [timeout]
        exact sound.heap
      · change base.timeheap.Holds e ↔ ((base.update ev change).events e).flagTimeout = true
        rw [flagTimeout]
        exact sound.pending e
      · change e ∈ base.activequeues queue ↔ ((base.update ev change).events e).flagActive = true ∧
          ((base.update ev change).events e).evPri = queue
        by_cases same : e = ev
        · rw [same, update_self]
          exact iff_of_false (fun there => idle ((sound.queued queue ev).mp there).1)
            fun both => idle both.1
        · rw [update_of_ne base same]
          exact sound.queued queue e
      · change ((base.update ev change).events e).evPri < base.nactivequeues
        by_cases same : e = ev
        · rw [same, update_self]
          change pri.toNat < base.nactivequeues
          omega
        · rw [update_of_ne base same]
          exact sound.priority e

/-- The one assertion is on the two times of the event, and it holds for normalised ones. -/
theorem EventBase.Sound.eventPersistClosure (sound : base.Sound) (memory : Memory) (now : Timeval)
    (persist : (base.events ev).evPersist = true) :
    (∃ next, eventPersistClosure memory base ev now = .ok next ∧ next.Sound ∧
      (now.Normalised → base.Timed → next.Timed)) ∨
      ¬ base.Timed ∧ eventPersistClosure memory base ev now = .error .assertion := by
  rw [Libevent.eventPersistClosure]
  simp only
  split
  · next some =>
      split
      · next same =>
          rcases sound.eventAdd memory ev (Option.some _) true now with
            failed | ⟨next, added, held, timed⟩
          · rw [failed]
            exact .inl ⟨base, rfl, sound, fun _ => id⟩
          · rw [added]
            refine .inl ⟨next, rfl, held, fun clock before => timed ?_ clock before⟩
            rintro time ⟨⟩
            obtain ⟨evTimeout, evIoTimeout⟩ := (before ev).again persist some
            have relativeTo : (if (base.events ev).resTimeout then (base.events ev).evTimeout
                else now).Normalised := by
              split
              · exact evTimeout
              · exact clock
            exact iteInduction (motive := Timeval.Normalised)
              (fun _ => clock.timerAdd evIoTimeout) (fun _ => relativeTo.timerAdd evIoTimeout)
      · next apart =>
          refine .inr ⟨fun timed => apart ?_, rfl⟩
          obtain ⟨evTimeout, evIoTimeout⟩ := (timed ev).again persist some
          apply decide_eq_true
          rw [evTimeout.aboveMicroseconds, evIoTimeout.aboveMicroseconds]
  · exact .inl ⟨base, rfl, sound, fun _ => id⟩

theorem Removes.timed {next : EventBase} (removes : Removes base next ev) (timed : base.Timed) :
    next.Timed :=
  timed.of_times removes.times fun e waits => ((removes.flagTimeout e).mp waits).2

/-- The first event of a queue leaves it, and a persistent one waits again. -/
theorem EventBase.Sound.eventProcessFirst (sound : base.Sound) (memory : Memory) (queue : Nat)
    (now : Timeval) :
    (∃ next, eventProcessFirst memory base queue now = .ok next ∧ next.Sound ∧
      (now.Normalised → base.Timed → next.Timed)) ∨
      ¬ base.Timed ∧ eventProcessFirst memory base queue now = .error .assertion := by
  rw [Libevent.eventProcessFirst]
  cases events : base.activequeues queue with
  | nil => exact .inl ⟨base, rfl, sound, fun _ => id⟩
  | cons ev rest =>
      have active : (base.events ev).flagActive = true :=
        ((sound.queued queue ev).mp (events ▸ List.mem_cons_self)).1
      simp only
      split
      · next persist =>
          have times := requeued_times base ev false (-1)
            ((base.activequeues (base.events ev).evPri).erase ev)
          have fewer (e : EventPtr) (waits : ((base.deactivated ev).events e).flagTimeout = true) :
              (base.events e).flagTimeout = true := by
            rwa [EventBase.deactivated, requeued_flagTimeout] at waits
          have again : ((base.deactivated ev).events ev).evPersist = true :=
            (congrArg (fun time => time.2.2) (times ev)).trans persist
          have kept := sound.deactivated active
          rw [eventQueueRemoveActive_eq active]
          rcases kept.eventPersistClosure memory now again with
            ⟨next, closed, held, timed⟩ | ⟨never, failed⟩
          · refine .inl ⟨next, closed, held, fun clock before => ?_⟩
            exact timed clock (before.of_times times fewer)
          · exact .inr ⟨fun before => never (before.of_times times fewer), failed⟩
      · obtain ⟨next, deleted, removes⟩ := sound.eventDel ev
        exact .inl ⟨next, deleted, removes.sound, fun _ => removes.timed⟩

/-- The calls of the program and of its loop, in any order. -/
inductive TimerCall where
  | add (memory : Memory) (ev : EventPtr) (tv : Option Timeval) (tvIsAbsolute : Bool)
      (now : Timeval)
  | del (ev : EventPtr)
  | removeTimer (ev : EventPtr)
  | prioritySet (ev : EventPtr) (pri : Int)
  | active (ev : EventPtr) (resTimeout : Bool)
  | timeoutProcess (now : Timeval)
  | processFirst (memory : Memory) (queue : Nat) (now : Timeval)

def timerMachine : Machine EventBase TimerCall BaseFault where
  step base
    | .add memory ev tv tvIsAbsolute now =>
        (eventAddNolock memory base ev tv tvIsAbsolute now).map Prod.snd
    | .del ev => eventDelNolock base ev
    | .removeTimer ev => eventRemoveTimerNolock base ev
    | .prioritySet ev pri => .ok (eventPrioritySet base ev pri)
    | .active ev resTimeout => eventActiveNolock base ev resTimeout
    | .timeoutProcess now => Libevent.timeoutProcess base now
    | .processFirst memory queue now => Libevent.eventProcessFirst memory base queue now

/-- The times that a call is given, and what it reads from the clock, are normalised. -/
def TimerCall.Normalised : TimerCall → Prop
  | .add _ _ tv _ now => (∀ time ∈ tv, time.Normalised) ∧ now.Normalised
  | .timeoutProcess now | .processFirst _ _ now => now.Normalised
  | .del _ | .removeTimer _ | .prioritySet _ _ | .active _ _ => True

instance : (call : TimerCall) → Decidable call.Normalised
  | .add _ _ tv _ now =>
      inferInstanceAs (Decidable ((∀ time ∈ tv, time.Normalised) ∧ now.Normalised))
  | .timeoutProcess now | .processFirst _ _ now => inferInstanceAs (Decidable now.Normalised)
  | .del _ | .removeTimer _ | .prioritySet _ _ | .active _ _ => inferInstanceAs (Decidable True)

/-- A call fails only in the assertion on the times, and every other call keeps the base sound. -/
theorem EventBase.Sound.step (sound : base.Sound) (call : TimerCall) :
    (∃ next, timerMachine.step base call = .ok next ∧ next.Sound ∧
      (call.Normalised → base.Timed → next.Timed)) ∨
      ¬ base.Timed ∧ timerMachine.step base call = .error .assertion := by
  cases call with
  | add memory ev tv tvIsAbsolute now =>
      rcases sound.eventAdd memory ev tv tvIsAbsolute now with failed | ⟨next, added, kept, timed⟩
      · refine .inl ⟨base, ?_, sound, fun _ => id⟩
        exact congrArg (Except.map Prod.snd) failed
      · refine .inl ⟨next, ?_, kept, fun normalised => timed normalised.1 normalised.2⟩
        exact congrArg (Except.map Prod.snd) added
  | del ev =>
      obtain ⟨next, deleted, removes⟩ := sound.eventDel ev
      exact .inl ⟨next, deleted, removes.sound, fun _ => removes.timed⟩
  | removeTimer ev =>
      obtain ⟨next, removed, kept, timed⟩ := sound.eventRemoveTimer ev
      exact .inl ⟨next, removed, kept, fun _ => timed⟩
  | prioritySet ev pri =>
      refine .inl ⟨_, rfl, sound.eventPrioritySet ev pri, fun _ timed => ?_⟩
      apply timed.of_times (eventPrioritySet_part base ev pri Event.times fun _ _ => rfl)
      intro e waits
      rwa [eventPrioritySet_part base ev pri Event.flagTimeout fun _ _ => rfl] at waits
  | active ev resTimeout =>
      obtain ⟨next, activated, kept, times, -, flagTimeout, -⟩ := sound.eventActive ev resTimeout
      refine .inl ⟨next, activated, kept, fun _ timed => timed.of_times times fun e waits => ?_⟩
      rwa [flagTimeout] at waits
  | timeoutProcess now =>
      obtain ⟨due, next, processed, fired⟩ := timeoutProcess_fired sound now
      refine .inl ⟨next, processed, fired.sound, fun _ timed => timed.of_times fired.times ?_⟩
      exact fun e waits => ((fired.flagTimeout e).mp waits).1
  | processFirst memory queue now => exact sound.eventProcessFirst memory queue now

/-- Every state that is reached is sound. -/
theorem EventBase.Sound.run {final : EventBase} {calls : List TimerCall} (sound : base.Sound)
    (reached : timerMachine.run base calls = .ok final) : final.Sound := by
  have keeps : timerMachine.Keeps fun _ state => state.Sound := by
    intro history state call next held _ stepped
    rcases held.step call with ⟨found, same, kept, -⟩ | ⟨-, failed⟩
    · rw [stepped] at same
      cases same
      exact kept
    · rw [stepped] at failed
      cases failed
  exact keeps.run timerMachine sound reached

/-- With normalised times every run goes to its end and keeps them normalised. -/
theorem EventBase.Sound.exists_run (sound : base.Sound) (timed : base.Timed)
    {calls : List TimerCall} (normalised : ∀ call ∈ calls, call.Normalised) :
    ∃ final, timerMachine.run base calls = .ok final ∧ final.Timed := by
  have steps : ∀ (state : EventBase) (call : TimerCall), state.Sound ∧ state.Timed →
      call.Normalised →
        ∃ next, timerMachine.step state call = .ok next ∧ next.Sound ∧ next.Timed := by
    rintro state call ⟨held, before⟩ allowed
    rcases held.step call with ⟨next, stepped, kept, after⟩ | ⟨never, -⟩
    · exact ⟨next, stepped, kept, after allowed before⟩
    · exact absurd before never
  obtain ⟨final, reached, -, after⟩ := timerMachine.exists_run steps normalised ⟨sound, timed⟩
  exact ⟨final, reached, after⟩

theorem eventBaseNew_sound {nactivequeues : Nat} (positive : 0 < nactivequeues)
    (evPersist : EventPtr → Bool) (memory : EventPtr → Event) :
    (eventBaseNew nactivequeues evPersist memory).Sound where
  heap := minHeapCtor_valid _
  pending ev := by
    refine iff_of_false (fun held => ?_) (fun waits => by cases waits)
    obtain ⟨place, inside, -⟩ := held
    exact Nat.not_lt_zero _ inside
  queued queue ev := iff_of_false List.not_mem_nil fun both => by cases both.1
  nodup queue := List.nodup_nil
  priority ev := Nat.div_lt_self positive (by decide)
  active := by
    have none : activeTotal (fun _ => []) nactivequeues = 0 := by
      rw [activeTotal]
      simp
    change (0 : Int) = (activeTotal (fun _ => []) nactivequeues : Int)
    rw [none]
    rfl
  count := rfl

theorem eventBaseNew_timed (nactivequeues : Nat) (evPersist : EventPtr → Bool)
    (memory : EventPtr → Event) : (eventBaseNew nactivequeues evPersist memory).Timed := by
  intro ev
  refine ⟨nofun, fun persist some => ?_⟩
  change evPersist ev = true at persist
  change (if evPersist ev then timerClear else (memory ev).evIoTimeout) ≠ timerClear at some
  exact absurd (if_pos persist) some

/-- A persistent timer of the lowest priority and a timer of the highest are added, and a third
timer between the two, which is active already. -/
def threeTimers : List TimerCall :=
  [.prioritySet 7 0, .prioritySet 1 2, .add ⟨true, true⟩ 7 (some ⟨2, 0⟩) false ⟨5, 0⟩,
    .add ⟨true, true⟩ 1 (some ⟨1, 500000⟩) false ⟨5, 600000⟩,
    .add ⟨true, true⟩ 8 (some ⟨9, 0⟩) false ⟨5, 700000⟩, .active 8 false]

/-- The time of 1048576 microseconds is more than a second, and the assertion stops the program. -/
example : (timerMachine.run (eventBaseNew 1 (fun _ => true) fun _ =>
    ⟨timerClear, timerClear, 0, false, false, false, false⟩)
    [.add ⟨true, true⟩ 7 (some ⟨0, 1048576⟩) false ⟨5, 0⟩, .timeoutProcess ⟨8, 0⟩,
      .processFirst ⟨true, true⟩ 0 ⟨8, 0⟩]).isOk = false := by decide +kernel

/-- The loop waits for the earliest timer, and not at all when one is due. -/
theorem EventBase.Sound.timeoutNext_eq (sound : base.Sound) (now : Timeval) :
    (timeoutNext base now = .ok none ∧ ∀ ev, (base.events ev).flagTimeout = false) ∨
      ∃ ev, (base.events ev).flagTimeout = true ∧
        (∀ other, (base.events other).flagTimeout = true →
          (base.timeout ev).key ≤ (base.timeout other).key) ∧
        (timerGreater (base.timeout ev) now = false →
          timeoutNext base now = .ok (some timerClear)) ∧
        (timerGreater (base.timeout ev) now = true → timeoutNext base now ≠ .ok none ∧
          (base.Timed → now.Normalised →
            timeoutNext base now = .ok (some (timerSub (base.timeout ev) now)))) := by
  rw [timeoutNext]
  cases top : minHeapTop base.timeheap with
  | none =>
      refine .inl ⟨rfl, fun ev => Bool.eq_false_iff.mpr fun waits => ?_⟩
      exact minHeapTop_eq_none_iff.mp top ev ((sound.pending ev).mpr waits)
  | some ev =>
      obtain ⟨held, least⟩ := sound.heap.top_le top
      have waits := (sound.pending ev).mp held
      refine .inr ⟨ev, waits, fun other waits => least other ((sound.pending other).mpr waits),
        fun past => ?_, fun later => ?_⟩
      · simp only [past, Bool.false_eq_true, if_false]
      · simp only [later, if_true]
        refine ⟨by split <;> simp, fun timed clock => if_pos ?_⟩
        exact ((timed ev).waits waits).timerSub clock later

/-- In every state that is reached, the timers that are due fire in the order of their timeouts and
behind the events that are active, and the others go on waiting. The loop is told to wait for the
earliest timer, and not to wait when one is due. -/
theorem timerRun_fires {nactivequeues : Nat} (positive : 0 < nactivequeues)
    {evPersist : EventPtr → Bool} {memory : EventPtr → Event} {calls : List TimerCall}
    {before : EventBase}
    (reached : timerMachine.run (eventBaseNew nactivequeues evPersist memory) calls = .ok before)
    (now : Timeval) :
    ∃ (after : EventBase) (due : List EventPtr),
      timeoutProcess before now = .ok after ∧
      (∀ ev, ev ∈ due ↔ (before.events ev).flagTimeout = true ∧
        timerGreater (before.timeout ev) now = false) ∧
      due.Nodup ∧
      (due.Pairwise fun first second =>
        timerGreater (before.timeout first) (before.timeout second) = false) ∧
      (∀ ev, (after.events ev).flagTimeout = true ↔ (before.events ev).flagTimeout = true ∧
        timerGreater (before.timeout ev) now = true) ∧
      (∀ queue, after.activequeues queue =
        (before.activequeues queue).filter (fun ev => ev ∉ due) ++
          due.filter fun ev => (before.events ev).evPri = queue) ∧
      (timeoutNext before now = .ok none ↔ ∀ ev, (before.events ev).flagTimeout = false) ∧
      (due ≠ [] → timeoutNext before now = .ok (some timerClear)) ∧
      ((∀ call ∈ calls, call.Normalised) → now.Normalised →
        ∀ first, (before.events first).flagTimeout = true →
          (∀ ev, (before.events ev).flagTimeout = true →
            timerGreater (before.timeout first) (before.timeout ev) = false) →
          due = [] →
          timeoutNext before now = .ok (some (timerSub (before.timeout first) now))) := by
  have start := eventBaseNew_sound positive evPersist memory
  have sound := start.run reached
  obtain ⟨due, after, processed, fired⟩ := timeoutProcess_fired sound now
  refine ⟨after, due, processed, fired.mem_due, fired.nodup, fired.sorted, fired.flagTimeout,
    fired.queues, ?_⟩
  rcases sound.timeoutNext_eq now with ⟨never, none⟩ | ⟨ev, waits, least, past, later⟩
  · refine ⟨iff_of_true never none, fun some => ?_, fun _ _ first waits => ?_⟩
    · obtain ⟨ev, there⟩ := List.exists_mem_of_ne_nil due some
      exact absurd ((fired.mem_due ev).mp there).1 (by rw [none ev]; decide)
    · exact absurd waits (by rw [none first]; decide)
  · refine ⟨iff_of_false ?_ fun none => ?_, fun some => ?_,
      fun normalised clock first waiting earliest empty => ?_⟩
    · cases passed : timerGreater (before.timeout ev) now with
      | true => exact (later passed).1
      | false =>
          rw [past passed]
          simp
    · rw [none ev] at waits
      cases waits
    · obtain ⟨other, there⟩ := List.exists_mem_of_ne_nil due some
      obtain ⟨waiting, elapsed⟩ := (fired.mem_due other).mp there
      have earlier := le_trans (least other waiting) (timerGreater_eq_false_iff.mp elapsed)
      exact past (timerGreater_eq_false_iff.mpr earlier)
    · obtain ⟨final, ran, timed⟩ :=
        start.exists_run (eventBaseNew_timed nactivequeues evPersist memory) normalised
      rw [reached] at ran
      cases ran
      have ahead : timerGreater (before.timeout ev) now = true := by
        by_contra elapsed
        have there := (fired.mem_due ev).mpr ⟨waits, Bool.eq_false_iff.mpr elapsed⟩
        rw [empty] at there
        cases there
      have same : before.timeout first = before.timeout ev := Timeval.key_injective
        (le_antisymm (timerGreater_eq_false_iff.mp (earliest ev waits)) (least first waiting))
      rw [same]
      exact (later ahead).2 timed clock

theorem timerRun_fires_three :
    let base := eventBaseNew 3 (fun ev => ev < 3) fun _ =>
      ⟨⟨-1, -1⟩, ⟨7, 7⟩, 0, false, false, false, false⟩
    0 < 3 ∧ ∃ (before after : EventBase) (due : List EventPtr),
      timerMachine.run base threeTimers = .ok before ∧
      timeoutProcess before ⟨8, 0⟩ = .ok after ∧
      (∀ ev, ev ∈ due ↔ (before.events ev).flagTimeout = true ∧
        timerGreater (before.timeout ev) ⟨8, 0⟩ = false) ∧
      (∀ ev, (after.events ev).flagTimeout = true ↔ (before.events ev).flagTimeout = true ∧
        timerGreater (before.timeout ev) ⟨8, 0⟩ = true) ∧
      (∀ queue, after.activequeues queue =
        (before.activequeues queue).filter (fun ev => ev ∉ due) ++
          due.filter fun ev => (before.events ev).evPri = queue) ∧
      (List.range 3).map after.activequeues = [[7], [8], [1]] ∧
      timeoutNext before ⟨8, 0⟩ = .ok (some timerClear) := by
  intro base
  have ran : (timerMachine.run base threeTimers).toOption.map (fun before =>
      ((before.events 7).flagTimeout, timerGreater (before.timeout 7) ⟨8, 0⟩)) =
        some (true, false) := by decide +kernel
  obtain ⟨before, found, seen⟩ := Option.map_eq_some_iff.mp ran
  have reached := ok_of_toOption found
  obtain ⟨after, due, processed, mem_due, -, -, flagTimeout, queues, -, waits, -⟩ :=
    timerRun_fires (by decide) reached ⟨8, 0⟩
  have queued : (timerMachine.run base (threeTimers ++ [.timeoutProcess ⟨8, 0⟩])).toOption.map
      (fun after => (List.range 3).map after.activequeues) = some [[7], [8], [1]] := by
    decide +kernel
  rw [run_append_of_ok timerMachine _ reached, run_singleton] at queued
  change (timeoutProcess before ⟨8, 0⟩).toOption.map _ = _ at queued
  rw [processed] at queued
  have first : 7 ∈ due := (mem_due 7).mpr (Prod.mk.inj seen)
  exact ⟨by decide, before, after, due, reached, processed, mem_due, flagTimeout, queues,
    Option.some.inj queued, waits (List.ne_nil_of_mem first)⟩

end Projs.Libevent

import Mathlib.Data.List.Count
import Mathlib.Data.List.Nodup
import Projs.Library.LabelledMachine

namespace HandleTrace
open LabelledMachine

/-- An event can obtain a handle, receive a handle as its argument, and close the one it receives;
the null handle is the argument `none`. -/
structure Protocol (Event Handle : Type) where
  obtained : Event → Option Handle
  received : Event → Option (Option Handle)
  closed : Event → Option Handle
  receives : ∀ event handle, closed event = some handle → received event = some (some handle)

variable {Event Handle : Type} (protocol : Protocol Event Handle)

/-- These are the handles that a trace obtains. -/
def Protocol.gains (trace : List Event) : List Handle := trace.filterMap protocol.obtained

/-- These are the handles that a trace closes. -/
def Protocol.losses (trace : List Event) : List Handle := trace.filterMap protocol.closed

@[simp] theorem gains_nil : protocol.gains [] = [] := rfl

@[simp] theorem losses_nil : protocol.losses [] = [] := rfl

@[simp] theorem gains_append (front back : List Event) :
    protocol.gains (front ++ back) = protocol.gains front ++ protocol.gains back :=
  List.filterMap_append

@[simp] theorem losses_append (front back : List Event) :
    protocol.losses (front ++ back) = protocol.losses front ++ protocol.losses back :=
  List.filterMap_append

@[simp] theorem gains_singleton (event : Event) :
    protocol.gains [event] = (protocol.obtained event).toList := by
  cases found : protocol.obtained event <;> simp [Protocol.gains, found]

@[simp] theorem losses_singleton (event : Event) :
    protocol.losses [event] = (protocol.closed event).toList := by
  cases found : protocol.closed event <;> simp [Protocol.losses, found]

/-- A handle is open behind a trace that has obtained it and not closed it. -/
def Protocol.Opened (trace : List Event) (handle : Handle) : Prop :=
  handle ∈ protocol.gains trace ∧ handle ∉ protocol.losses trace

variable [DecidableEq Handle]

/-- Every event receives an open handle, and every handle is closed exactly once. -/
structure Protocol.Disciplined (trace : List Event) : Prop where
  received : ∀ before event after, trace = before ++ event :: after →
    ∀ argument ∈ protocol.received event,
      ∃ handle, argument = some handle ∧ protocol.Opened before handle
  closed : ∀ handle ∈ protocol.gains trace, (protocol.losses trace).count handle = 1

/-- An event misuses a handle that is null or not open. -/
inductive Misuse where
  | null
  | stale
  deriving DecidableEq, Repr

/-- The custodian keeps the open handles and lets no event misuse one. -/
def Protocol.custodian : Machine (List Handle) Event Misuse where
  step live event :=
    let next := (protocol.obtained event).toList ++
      live.filter fun handle => protocol.closed event ≠ some handle
    match protocol.received event with
    | some none => .error .null
    | some (some handle) => if handle ∈ live then .ok next else .error .stale
    | none => .ok next

/-- A step of the custodian finds the received handle among the open ones. -/
theorem custodian_step {live next : List Handle} {event : Event}
    (stepped : protocol.custodian.step live event = .ok next) :
    next = ((protocol.obtained event).toList ++
        live.filter fun handle => protocol.closed event ≠ some handle) ∧
      ∀ argument ∈ protocol.received event, ∃ handle ∈ live, argument = some handle := by
  simp only [Protocol.custodian] at stepped
  cases received : protocol.received event with
  | none =>
      rw [received] at stepped
      cases stepped
      exact ⟨rfl, nofun⟩
  | some argument =>
      cases argument with
      | none =>
          rw [received] at stepped
          cases stepped
      | some handle =>
          rw [received] at stepped
          simp only at stepped
          split at stepped
          · next member =>
              cases stepped
              refine ⟨rfl, ?_⟩
              intro argument same
              exact ⟨handle, member, (Option.some.inj same).symm⟩
          · cases stepped

/-- The custodian keeps exactly the open handles of the trace that it has seen. -/
structure Keeping (trace : List Event) (live : List Handle) : Prop where
  live : ∀ handle, handle ∈ live ↔ protocol.Opened trace handle
  gained : protocol.losses trace ⊆ protocol.gains trace
  once : (protocol.losses trace).Nodup

theorem keeping_keeps : protocol.custodian.Keeps fun trace live =>
    (protocol.gains trace).Nodup → Keeping protocol trace live := by
  intro trace live event next keeping _ stepped distinct
  rw [gains_append, gains_singleton] at distinct
  obtain ⟨before, _, apart⟩ := List.nodup_append.mp distinct
  obtain ⟨members, gained, once⟩ := keeping before
  obtain ⟨same, receives⟩ := custodian_step protocol stepped
  subst same
  have lost : ∀ handle, protocol.closed event = some handle → protocol.Opened trace handle := by
    intro handle closes
    obtain ⟨other, member, same⟩ := receives _ (protocol.receives event handle closes)
    cases same
    exact (members handle).mp member
  constructor
  · intro handle
    rw [List.mem_append, List.mem_filter, members handle]
    unfold Protocol.Opened
    rw [gains_append, losses_append, gains_singleton, losses_singleton]
    simp only [List.mem_append, Option.mem_toList, decide_eq_true_eq, not_or]
    constructor
    · rintro (fresh | ⟨⟨found, kept⟩, others⟩)
      · have new : handle ∉ protocol.gains trace := fun old =>
          apart handle old handle (by simpa using fresh) rfl
        exact ⟨.inr fresh, fun old => new (gained old), fun closes => new (lost handle closes).1⟩
      · exact ⟨.inl found, kept, others⟩
    · rintro ⟨found | fresh, kept, others⟩
      · exact .inr ⟨⟨found, kept⟩, others⟩
      · exact .inl fresh
  · intro handle member
    rw [losses_append, losses_singleton, List.mem_append, Option.mem_toList] at member
    rw [gains_append]
    rcases member with old | closes
    · exact List.mem_append_left _ (gained old)
    · exact List.mem_append_left _ (lost handle closes).1
  · rw [losses_append, losses_singleton, List.nodup_append]
    refine ⟨once, Option.toList_nodup _, ?_⟩
    intro handle old other closes
    rw [Option.mem_toList] at closes
    rintro rfl
    exact (lost handle closes).2 old

/-- A trace that the custodian follows to the end without an open handle is disciplined. -/
theorem disciplined_of_custodian {trace : List Event} (distinct : (protocol.gains trace).Nodup)
    (followed : protocol.custodian.run [] trace = .ok []) : protocol.Disciplined trace := by
  have start : (protocol.gains []).Nodup → Keeping protocol [] [] := fun _ =>
    ⟨fun handle => by simp [Protocol.Opened, Protocol.gains], List.Subset.refl [], List.nodup_nil⟩
  constructor
  · intro before event after split argument received
    rw [split] at followed distinct
    obtain ⟨live, first, second⟩ := (run_append_ok_iff protocol.custodian).mp followed
    obtain ⟨next, stepped, _⟩ := (run_cons_ok_iff protocol.custodian).mp second
    rw [gains_append] at distinct
    have keeping := (keeping_keeps protocol).run _ start first (List.nodup_append.mp distinct).1
    obtain ⟨handle, member, same⟩ := (custodian_step protocol stepped).2 argument received
    exact ⟨handle, same, (keeping.live handle).mp member⟩
  · intro handle found
    have keeping := (keeping_keeps protocol).run _ start followed distinct
    apply List.count_eq_one_of_mem keeping.once
    by_contra kept
    exact absurd ((keeping.live handle).mpr ⟨found, kept⟩) List.not_mem_nil

/-- A disciplined trace closes at least as many handles as it obtains. -/
theorem Protocol.Disciplined.length_le {trace : List Event}
    (disciplined : protocol.Disciplined trace) (distinct : (protocol.gains trace).Nodup) :
    (protocol.gains trace).length ≤ (protocol.losses trace).length := by
  apply List.Subperm.length_le
  apply List.subperm_of_subset distinct
  intro handle found
  have once := disciplined.closed handle found
  exact List.count_pos_iff.mp (by omega)

/-- No event of a disciplined trace receives the null handle. -/
theorem Protocol.Disciplined.received_ne {trace : List Event}
    (disciplined : protocol.Disciplined trace) {event : Event} (member : event ∈ trace) :
    protocol.received event ≠ some none := by
  intro null
  obtain ⟨before, after, split⟩ := List.append_of_mem member
  obtain ⟨handle, same, _⟩ := disciplined.received before event after split none null
  cases same

end HandleTrace

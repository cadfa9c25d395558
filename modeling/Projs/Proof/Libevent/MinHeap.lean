import Projs.Proof.Libevent.MinHeapOrder

namespace Projs.Libevent
open BinaryHeap

variable {timeout before : EventPtr → Timeval} {s : MinHeap} {e : EventPtr}

/-- The step without a comparison is made where the comparison would allow it. -/
theorem shiftUpUnconditional_eq {place : Nat}
    (up : 0 < place ∧ minHeapElemGreater timeout (s.p ((place - 1) / 2)) e) :
    minHeapShiftUpUnconditional timeout s place e = minHeapShiftUp timeout s place e := by
  rw [minHeapShiftUp]
  exact (if_pos ⟨Nat.ne_of_gt up.1, up.2⟩).symm

/-- An event that is put at a place of an ordered heap is brought where it belongs. -/
theorem shift_arrived {place : Nat} {items : Nat → EventPtr}
    (ordered : Ordered (eventKey before) items s.n) (inside : place < s.n)
    (placed : (s.put place e).Placed)
    (same : ∀ index, index < s.n → index ≠ place →
      eventKey timeout ((s.put place e).p index) = eventKey before (items index)) :
    Arrived timeout (s.put place e) (minHeapShift timeout s place e) := by
  have here : (s.put place e).p place = e := Function.update_self _ _ _
  have beside (index : Nat) (apart : index ≠ place) : (s.put place e).p index = s.p index :=
    Function.update_of_ne apart _ _
  rw [minHeapShift]
  split
  · next up =>
      have above := parent_lt up.1
      rw [shiftUpUnconditional_eq up]
      apply shiftUp_arrived timeout s place e inside placed
      apply ordered.rising same up.1 inside
      rw [here, beside _ (Nat.ne_of_lt above)]
      exact elemGreater_iff.mp up.2
  · next down =>
      apply shiftDown_arrived timeout s place e inside placed
      apply ordered.sinking same inside
      intro positive
      have above := parent_lt positive
      rw [here, beside _ (Nat.ne_of_lt above)]
      exact le_of_not_gt fun less => down ⟨positive, elemGreater_iff.mpr less⟩

/-- Other timeouts outside of the heap do not disturb it. -/
theorem MinHeap.Valid.of_timeout (valid : s.Valid before)
    (same : ∀ e, s.Holds e → timeout e = before e) : s.Valid timeout := by
  refine ⟨fun child below inside => ?_, valid.placed, valid.outside, valid.room⟩
  have above := parent_lt below
  rw [eventKey, eventKey, same _ ⟨child, inside, rfl⟩,
    same _ ⟨parent child, Nat.lt_trans above inside, rfl⟩]
  exact valid.ordered child below inside

/-- A new event is put into the heap, or there is no memory and nothing changes. -/
theorem minHeapPush_spec (memory : Bool) (valid : s.Valid timeout)
    (absent : s.minHeapIdx e = -1) :
    (minHeapPush timeout memory s e = none ∧ memory = false) ∨
      ∃ next, minHeapPush timeout memory s e = some next ∧ next.Valid timeout ∧
        next.n = s.n + 1 ∧ ∀ x, next.Holds x ↔ x = e ∨ s.Holds x := by
  rcases minHeapReserve_eq memory s (s.n + 1) with ⟨none, failed⟩ | ⟨a, kept, room, reserved⟩
  · exact .inl ⟨by rw [minHeapPush, none]; rfl, failed⟩
  · let first : MinHeap := { s with a, n := s.n + 1 }
    have here : (first.put s.n e).p s.n = e := Function.update_self _ _ _
    have beside (index : Nat) (inside : index < s.n) : (first.put s.n e).p index = s.p index :=
      Function.update_of_ne (Nat.ne_of_lt inside) _ _
    have notHeld (index : Nat) (inside : index < s.n) : s.p index ≠ e := fun same =>
      (valid.holds_iff e).mp ⟨index, inside, same⟩ absent
    have idx (x : EventPtr) (other : x ≠ e) : (first.put s.n e).minHeapIdx x = s.minHeapIdx x :=
      Function.update_of_ne other _ _
    have placed : (first.put s.n e).Placed := by
      intro index inside
      rcases Nat.lt_or_eq_of_le (Nat.le_of_lt_succ inside) with old | new
      · rw [beside index old, idx _ (notHeld index old)]
        exact valid.placed index old
      · rw [new, here]
        exact Function.update_self _ _ _
    have rising : Rising (eventKey timeout) (first.put s.n e).p (s.n + 1) s.n :=
      valid.ordered.appended fun index inside => by rw [beside index inside]
    have arrived := shiftUp_arrived timeout first s.n e (Nat.lt_succ_self s.n) placed rising
    have holds (x : EventPtr) : (first.put s.n e).Holds x ↔ x = e ∨ s.Holds x := by
      constructor
      · rintro ⟨index, inside, rfl⟩
        rcases Nat.lt_or_eq_of_le (Nat.le_of_lt_succ inside) with old | new
        · exact .inr ⟨index, old, (beside index old).symm⟩
        · exact .inl (by rw [new, here])
      · rintro (rfl | ⟨index, inside, rfl⟩)
        · exact ⟨s.n, Nat.lt_succ_self s.n, here⟩
        · exact ⟨index, Nat.lt_succ_of_lt inside, beside index inside⟩
    have gathered (x : EventPtr) := (arrived.sifted.holds x).trans (holds x)
    refine .inr ⟨_, by rw [minHeapPush, reserved]; rfl, ⟨arrived.ordered, arrived.sifted.placed,
      fun x outside => ?_, ?_⟩, arrived.sifted.n, gathered⟩
    · have old := fun held => outside ((gathered x).mpr held)
      have other : x ≠ e := fun same => old (.inl same)
      rw [arrived.sifted.others x fun held => old ((holds x).mp held), idx x other]
      exact valid.outside x fun held => old (.inr held)
    · rw [arrived.sifted.n, arrived.sifted.a]
      exact room

/-- What remains when an event has been taken out. -/
theorem valid_forget {final first : MinHeap} (arrived : Arrived timeout first final)
    (gone : ¬ first.Holds e) (outside : ∀ x, x ≠ e → ¬ first.Holds x → first.minHeapIdx x = -1)
    (room : first.n ≤ first.a) : (final.forget e).Valid timeout := by
  have idx (x : EventPtr) (other : x ≠ e) : (final.forget e).minHeapIdx x = final.minHeapIdx x :=
    Function.update_of_ne other _ _
  refine ⟨arrived.ordered, fun index inside => ?_, fun x absent => ?_, ?_⟩
  · have other : final.p index ≠ e := fun same =>
      gone ((arrived.sifted.holds e).mp ⟨index, inside, same⟩)
    exact (idx _ other).trans (arrived.sifted.placed index inside)
  · by_cases same : x = e
    · rw [same]
      exact Function.update_self _ _ _
    · have old : ¬ first.Holds x := fun held => absent ((arrived.sifted.holds x).mpr held)
      rw [idx x same, arrived.sifted.others x old]
      exact outside x same old
  · change final.n ≤ final.a
    rw [arrived.sifted.n, arrived.sifted.a]
    exact room

/-- An event is taken out of the heap, and the others stay. -/
theorem minHeapErase_spec (valid : s.Valid timeout) (held : s.minHeapIdx e ≠ -1) :
    ∃ next, minHeapErase timeout s e = some next ∧ next.Valid timeout ∧ next.n + 1 = s.n ∧
      next.a = s.a ∧ ∀ x, next.Holds x ↔ x ≠ e ∧ s.Holds x := by
  obtain ⟨place, inside, rfl, index⟩ := valid.exists_place held
  let n := s.n - 1
  let first : MinHeap := { s with n }
  have size : n + 1 = s.n := Nat.succ_pred_eq_of_pos (Nat.zero_lt_of_lt inside)
  rw [minHeapErase, if_neg held, index]
  change ∃ next,
    some ((minHeapShift timeout first place (s.p n)).forget (s.p place)) = some next ∧ _
  have here : (first.put place (s.p n)).p place = s.p n := Function.update_self _ _ _
  have beside (index : Nat) (apart : index ≠ place) :
      (first.put place (s.p n)).p index = s.p index := Function.update_of_ne apart _ _
  have ordered : Ordered (eventKey timeout) s.p n := valid.ordered.of_le (Nat.sub_le _ _)
  have room : n ≤ s.a := Nat.le_trans (Nat.sub_le _ _) valid.room
  have holds (x : EventPtr) : (first.put place (s.p n)).Holds x ↔ x ≠ s.p place ∧ s.Holds x := by
    constructor
    · rintro ⟨other, within, rfl⟩
      change other < n at within
      by_cases same : other = place
      · rw [same, here]
        refine ⟨fun equal => ?_, n, by omega, rfl⟩
        have last := valid.placed.injective (by omega) inside equal
        omega
      · rw [beside other same]
        exact ⟨fun equal => same (valid.placed.injective (by omega) inside equal), other,
          by omega, rfl⟩
    · rintro ⟨apart, other, within, rfl⟩
      have different : other ≠ place := fun same => apart (by rw [same])
      by_cases last : other = n
      · exact ⟨place, by change place < n; omega, by rw [here, last]⟩
      · exact ⟨other, by change other < n; omega, beside other different⟩
  have gone : ¬ (first.put place (s.p n)).Holds (s.p place) := fun held =>
    ((holds _).mp held).1 rfl
  have idx (x : EventPtr) (other : x ≠ s.p n) :
      (first.put place (s.p n)).minHeapIdx x = s.minHeapIdx x := Function.update_of_ne other _ _
  have outside (x : EventPtr) (other : x ≠ s.p place)
      (absent : ¬ (first.put place (s.p n)).Holds x) :
      (first.put place (s.p n)).minHeapIdx x = -1 := by
    have old : ¬ s.Holds x := fun held => absent ((holds x).mpr ⟨other, held⟩)
    rw [idx x fun same => old ⟨n, by omega, same.symm⟩]
    exact valid.outside x old
  have finish (final : MinHeap) (arrived : Arrived timeout (first.put place (s.p n)) final) :
      ∃ next, some (final.forget (s.p place)) = some next ∧ next.Valid timeout ∧
        next.n + 1 = s.n ∧ next.a = s.a ∧ ∀ x, next.Holds x ↔ x ≠ s.p place ∧ s.Holds x := by
    refine ⟨_, rfl, valid_forget arrived gone outside room, ?_, arrived.sifted.a, fun x => ?_⟩
    · rw [← size]
      exact congrArg (· + 1) arrived.sifted.n
    · exact (arrived.sifted.holds x).trans (holds x)
  apply finish
  by_cases last : place = n
  · have stays : minHeapShift timeout first place (s.p n) = first.put place (s.p n) := by
      have down : ¬ (0 < place ∧
          minHeapElemGreater timeout (s.p ((place - 1) / 2)) (s.p n) = true) := by
        rintro ⟨positive, greater⟩
        have order := valid.ordered place positive inside
        rw [last] at order greater
        exact absurd (elemGreater_iff.mp greater) (not_lt_of_ge order)
      have childless : ¬ 2 * (place + 1) ≤ n := by omega
      rw [minHeapShift]
      refine (if_neg down).trans ?_
      rw [minHeapShiftDown]
      exact if_neg childless
    rw [stays]
    refine ⟨Sifted.refl fun other below => ?_, fun other positive below => ?_⟩
    · change other < n at below
      rw [beside other (by omega), idx _ fun equal => ?_]
      · exact valid.placed other (by omega)
      · have index := valid.placed.injective (by omega) (by omega) equal
        omega
    · change other < n at below
      have above := parent_lt positive
      rw [beside other (by omega), beside _ (by omega)]
      exact ordered other positive below
  · have within : place < n := by omega
    apply shift_arrived ordered within
    · intro other below
      change other < n at below
      by_cases same : other = place
      · rw [same, here]
        exact Function.update_self _ _ _
      · rw [beside other same, idx _ fun equal => ?_]
        · exact valid.placed other (by omega)
        · have index := valid.placed.injective (by omega) (by omega) equal
          omega
    · intro other below apart
      rw [beside other apart]

/-- The event at the top is taken out as any other event would be. -/
theorem minHeapPop_eq (valid : s.Valid timeout) (some : s.n ≠ 0) :
    (minHeapPop timeout s).1 = minHeapTop s ∧
      minHeapErase timeout s (s.p 0) = Option.some (minHeapPop timeout s).2 := by
  have first : s.minHeapIdx (s.p 0) = 0 := valid.placed 0 (Nat.pos_of_ne_zero some)
  have top : ¬ s.minHeapIdx (s.p 0) = -1 := by
    rw [first]
    decide
  rw [minHeapPop, if_neg some, minHeapTop, if_neg some]
  refine ⟨rfl, ?_⟩
  have down (first : MinHeap) (e : EventPtr) :
      minHeapShift timeout first 0 e = minHeapShiftDown timeout first 0 e := by
    rw [minHeapShift]
    exact if_neg fun up => Nat.lt_irrefl 0 up.1
  rw [minHeapErase, if_neg top, first]
  change Option.some ((minHeapShift timeout _ 0 _).forget _) = _
  rw [down]

/-- An event with a new timeout is brought where it belongs, or put into the heap. -/
theorem minHeapAdjust_spec (memory : Bool) (valid : s.Valid before)
    (same : ∀ x, x ≠ e → timeout x = before x) :
    (minHeapAdjust timeout memory s e = none ∧ memory = false ∧ s.minHeapIdx e = -1) ∨
      ∃ next, minHeapAdjust timeout memory s e = some next ∧ next.Valid timeout ∧
        ∀ x, next.Holds x ↔ x = e ∨ s.Holds x := by
  rw [minHeapAdjust]
  by_cases absent : s.minHeapIdx e = -1
  · have unchanged (x : EventPtr) (held : s.Holds x) : timeout x = before x :=
      same x fun equal => (valid.holds_iff x).mp held (by rw [equal]; exact absent)
    have current : s.Valid timeout := valid.of_timeout unchanged
    rw [if_pos absent]
    rcases minHeapPush_spec memory current absent with
      ⟨none, failed⟩ | ⟨next, pushed, kept, -, holds⟩
    · exact .inl ⟨none, failed, absent⟩
    · exact .inr ⟨next, pushed, kept, holds⟩
  · obtain ⟨place, inside, rfl, index⟩ := valid.exists_place absent
    have unchanged : s.put place (s.p place) = s := by
      rw [MinHeap.put, ← index, Function.update_eq_self, Function.update_eq_self]
    have placed : (s.put place (s.p place)).Placed := by
      rw [unchanged]
      exact valid.placed
    have kept (other : Nat) (below : other < s.n) (apart : other ≠ place) :
        eventKey timeout ((s.put place (s.p place)).p other) = eventKey before (s.p other) := by
      rw [unchanged, eventKey, same _ fun equal =>
        apart (valid.placed.injective below inside equal)]
      rfl
    have arrived := shift_arrived valid.ordered inside placed kept
    rw [unchanged] at arrived
    rw [if_neg absent, index]
    refine .inr ⟨_, rfl, ⟨arrived.ordered, arrived.sifted.placed, fun x outside => ?_, ?_⟩,
      fun x => ?_⟩
    · have old : ¬ s.Holds x := fun held => outside ((arrived.sifted.holds x).mpr held)
      rw [Int.toNat_natCast, arrived.sifted.others x old]
      exact valid.outside x old
    · rw [Int.toNat_natCast, arrived.sifted.n, arrived.sifted.a]
      exact valid.room
    · rw [Int.toNat_natCast, arrived.sifted.holds x]
      refine ⟨.inr, ?_⟩
      rintro (rfl | held)
      · exact ⟨place, inside, rfl⟩
      · exact held

/-- The event at the top leaves the heap. -/
theorem minHeapPop_spec (valid : s.Valid timeout) :
    ((minHeapPop timeout s).1 = none ∧ (minHeapPop timeout s).2 = s ∧ ∀ x, ¬ s.Holds x) ∨
      ∃ top, (minHeapPop timeout s).1 = some top ∧ s.Holds top ∧
        (∀ x, s.Holds x → timerGreater (timeout top) (timeout x) = false) ∧
        (minHeapPop timeout s).2.Valid timeout ∧
        ∀ x, (minHeapPop timeout s).2.Holds x ↔ x ≠ top ∧ s.Holds x := by
  by_cases none : s.n = 0
  · refine .inl ⟨by rw [minHeapPop, if_pos none], by rw [minHeapPop, if_pos none], ?_⟩
    apply minHeapTop_eq_none_iff.mp
    rw [minHeapTop, if_pos none]
  · obtain ⟨first, erased⟩ := minHeapPop_eq valid none
    have top : minHeapTop s = some (s.p 0) := by rw [minHeapTop, if_neg none]
    obtain ⟨held, least⟩ := valid.top_le top
    obtain ⟨next, same, kept, -, -, holds⟩ :=
      minHeapErase_spec valid ((valid.holds_iff _).mp held)
    rw [erased] at same
    cases same
    refine .inr ⟨s.p 0, first.trans top, held, fun x there => ?_, kept, holds⟩
    exact timerGreater_eq_false_iff.mpr (least x there)

/-- A heap with the timeouts of its events. -/
structure TimedHeap where
  heap : MinHeap
  timeout : EventPtr → Timeval

inductive HeapCall where
  | push (memory : Bool) (e : EventPtr) (time : Timeval)
  | pop
  | erase (e : EventPtr)
  | adjust (memory : Bool) (e : EventPtr) (time : Timeval)

/-- A caller sets the timeout first, and it does not push an event that is in the heap. -/
def TimedHeap.call (timed : TimedHeap) : HeapCall → TimedHeap
  | .push memory e time =>
      if timed.heap.minHeapIdx e = -1 then
        let timeout := Function.update timed.timeout e time
        { heap := (minHeapPush timeout memory timed.heap e).getD timed.heap, timeout }
      else timed
  | .pop => { timed with heap := (minHeapPop timed.timeout timed.heap).2 }
  | .erase e => { timed with heap := (minHeapErase timed.timeout timed.heap e).getD timed.heap }
  | .adjust memory e time =>
      let timeout := Function.update timed.timeout e time
      { heap := (minHeapAdjust timeout memory timed.heap e).getD timed.heap, timeout }

/-- A new timeout of an event outside of the heap is not seen by the heap. -/
theorem valid_update (time : Timeval) (valid : s.Valid timeout) (absent : s.minHeapIdx e = -1) :
    s.Valid (Function.update timeout e time) := by
  apply valid.of_timeout
  intro x held
  apply Function.update_of_ne
  rintro rfl
  exact (valid.holds_iff x).mp held absent

theorem TimedHeap.call_valid {timed : TimedHeap} (valid : timed.heap.Valid timed.timeout)
    (call : HeapCall) : (timed.call call).heap.Valid (timed.call call).timeout := by
  cases call with
  | push memory e time =>
      rw [TimedHeap.call]
      split
      · next absent =>
          have current := valid_update time valid absent
          rcases minHeapPush_spec memory current absent with ⟨none, -⟩ | ⟨next, pushed, kept, -⟩
          · simp only [none, Option.getD_none]
            exact current
          · simp only [pushed, Option.getD_some]
            exact kept
      · exact valid
  | pop =>
      rcases minHeapPop_spec valid with ⟨-, same, -⟩ | ⟨top, -, -, -, kept, -⟩
      · rw [TimedHeap.call, same]
        exact valid
      · exact kept
  | erase e =>
      rw [TimedHeap.call]
      by_cases absent : timed.heap.minHeapIdx e = -1
      · rw [minHeapErase, if_pos absent]
        exact valid
      · obtain ⟨next, erased, kept, -⟩ := minHeapErase_spec valid absent
        rw [erased]
        exact kept
  | adjust memory e time =>
      have same (x : EventPtr) (apart : x ≠ e) :
          Function.update timed.timeout e time x = timed.timeout x :=
        Function.update_of_ne apart _ _
      rw [TimedHeap.call]
      rcases minHeapAdjust_spec memory valid same with ⟨none, -, absent⟩ | ⟨next, moved, kept, -⟩
      · simp only [none, Option.getD_none]
        exact valid_update time valid absent
      · simp only [moved, Option.getD_some]
        exact kept

theorem TimedHeap.run_valid {timed : TimedHeap} (valid : timed.heap.Valid timed.timeout)
    (calls : List HeapCall) :
    (calls.foldl TimedHeap.call timed).heap.Valid (calls.foldl TimedHeap.call timed).timeout := by
  induction calls generalizing timed with
  | nil => exact valid
  | cons call rest inductionHypothesis => exact inductionHypothesis (timed.call_valid valid call)

/-- After any calls a pop takes an event with a least timeout and no other one, and it finds nothing
only in an empty heap. -/
theorem heapRun_pop (timeout : EventPtr → Timeval) (calls : List HeapCall) :
    let timed := calls.foldl TimedHeap.call { heap := minHeapCtor, timeout }
    ((minHeapPop timed.timeout timed.heap).1 = none ∧ ∀ e, ¬ timed.heap.Holds e) ∨
      ∃ top, (minHeapPop timed.timeout timed.heap).1 = some top ∧ timed.heap.Holds top ∧
        (∀ e, timed.heap.Holds e → timerGreater (timed.timeout top) (timed.timeout e) = false) ∧
        ∀ e, (minHeapPop timed.timeout timed.heap).2.Holds e ↔ e ≠ top ∧ timed.heap.Holds e := by
  intro timed
  have start : (TimedHeap.mk minHeapCtor timeout).heap.Valid timeout := minHeapCtor_valid timeout
  have valid : timed.heap.Valid timed.timeout := TimedHeap.run_valid start calls
  rcases minHeapPop_spec valid with ⟨none, -, empty⟩ | ⟨top, first, held, least, -, holds⟩
  · exact .inl ⟨none, empty⟩
  · exact .inr ⟨top, first, held, least, holds⟩

end Projs.Libevent

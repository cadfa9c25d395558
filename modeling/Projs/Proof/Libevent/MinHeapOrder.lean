import Mathlib.Data.Prod.Lex
import Mathlib.Order.Lattice
import Projs.Construction.Libevent.MinHeap
import Projs.Library.BinaryHeap

namespace Projs.Libevent
open BinaryHeap

/-- Times are compared by their seconds and then by their microseconds. -/
def Timeval.key (time : Timeval) : Int ×ₗ Int := toLex (time.tvSec, time.tvUsec)

theorem timerGreater_iff {first second : Timeval} :
    timerGreater first second = true ↔ second.key < first.key := by
  rw [timerGreater, Timeval.key, Timeval.key, Prod.Lex.toLex_lt_toLex]
  split
  · next same => simp [same]
  · next apart => simp [Ne.symm apart]

theorem timerGreater_eq_false_iff {first second : Timeval} :
    timerGreater first second = false ↔ first.key ≤ second.key := by
  rw [← Bool.not_eq_true, timerGreater_iff, not_lt]

theorem Timeval.key_injective : Function.Injective Timeval.key := by
  rintro ⟨firstSec, firstUsec⟩ ⟨secondSec, secondUsec⟩ same
  cases toLex.injective same
  rfl

variable {timeout : EventPtr → Timeval} {s : MinHeap} {e : EventPtr}

/-- The order of the events in the heap. -/
def eventKey (timeout : EventPtr → Timeval) (e : EventPtr) : Int ×ₗ Int := (timeout e).key

theorem elemGreater_iff {first second : EventPtr} :
    minHeapElemGreater timeout first second = true ↔
      eventKey timeout second < eventKey timeout first := timerGreater_iff

/-- The event is somewhere in the array. -/
def MinHeap.Holds (s : MinHeap) (e : EventPtr) : Prop := ∃ place, place < s.n ∧ s.p place = e

/-- Every event in the array knows its place. -/
def MinHeap.Placed (s : MinHeap) : Prop := ∀ place, place < s.n → s.minHeapIdx (s.p place) = place

theorem MinHeap.Placed.injective (placed : s.Placed) {first second : Nat} (inside : first < s.n)
    (within : second < s.n) (same : s.p first = s.p second) : first = second := by
  have left := placed first inside
  rw [same, placed second within] at left
  exact Int.ofNat_inj.mp left.symm

/-- The events of an array have only changed their places. -/
structure Sifted (first final : MinHeap) : Prop where
  n : final.n = first.n
  a : final.a = first.a
  placed : final.Placed
  holds : ∀ e, final.Holds e ↔ first.Holds e
  others : ∀ e, ¬ first.Holds e → final.minHeapIdx e = first.minHeapIdx e

theorem Sifted.refl (placed : s.Placed) : Sifted s s :=
  ⟨rfl, rfl, placed, fun _ => Iff.rfl, fun _ _ => rfl⟩

theorem Sifted.trans {first middle final : MinHeap} (before : Sifted first middle)
    (after : Sifted middle final) : Sifted first final where
  n := after.n.trans before.n
  a := after.a.trans before.a
  placed := after.placed
  holds e := (after.holds e).trans (before.holds e)
  others e absent :=
    (after.others e fun held => absent ((before.holds e).mp held)).trans (before.others e absent)

@[simp] theorem put_p (s : MinHeap) (place : Nat) (e : EventPtr) :
    (s.put place e).p = Function.update s.p place e := rfl

@[simp] theorem put_n (s : MinHeap) (place : Nat) (e : EventPtr) : (s.put place e).n = s.n := rfl

/-- A step of the loops moves the hole to another place. -/
theorem p_put_put (s : MinHeap) {hole next : Nat} (apart : next ≠ hole) (e : EventPtr) :
    ((s.put hole (s.p next)).put next e).p = exchange (s.put hole e).p hole next := by
  funext place
  simp only [put_p]
  by_cases first : place = hole
  · rw [first, exchange_first, Function.update_of_ne apart, Function.update_of_ne apart.symm,
      Function.update_self]
  · by_cases second : place = next
    · rw [second, exchange_second, Function.update_self, Function.update_self]
    · rw [exchange_other first second, Function.update_of_ne second, Function.update_of_ne first,
        Function.update_of_ne first]

theorem sifted_put_put {hole next : Nat} (placed : (s.put hole e).Placed) (inside : hole < s.n)
    (within : next < s.n) (apart : next ≠ hole) :
    Sifted (s.put hole e) ((s.put hole (s.p next)).put next e) := by
  have changed := p_put_put s apart e
  have there : (s.put hole e).p next = s.p next := Function.update_of_ne apart _ _
  have here : (s.put hole e).p hole = e := Function.update_self _ _ _
  have other : s.p next ≠ e := by
    intro same
    exact apart (placed.injective within inside (there.trans (same.trans here.symm)))
  have idx (x : EventPtr) : ((s.put hole (s.p next)).put next e).minHeapIdx x =
      if x = e then (next : Int) else if x = s.p next then (hole : Int) else s.minHeapIdx x := by
    change Function.update (Function.update s.minHeapIdx (s.p next) hole) e next x = _
    rw [Function.update_apply, Function.update_apply]
  have before (x : EventPtr) (notHere : x ≠ e) : (s.put hole e).minHeapIdx x = s.minHeapIdx x :=
    Function.update_of_ne notHere _ _
  refine ⟨rfl, rfl, fun place below => ?_, fun x => ?_, fun x absent => ?_⟩
  · rw [changed, idx]
    by_cases first : place = hole
    · rw [first, exchange_first, there, if_neg other, if_pos rfl]
    · by_cases second : place = next
      · rw [second, exchange_second, here, if_pos rfl]
      · have stays := placed place below
        have notE : (s.put hole e).p place ≠ e := fun same =>
          first (placed.injective below inside (same.trans here.symm))
        have notNext : (s.put hole e).p place ≠ s.p next := fun same =>
          second (placed.injective below within (same.trans there.symm))
        rw [exchange_other first second, if_neg notE, if_neg notNext, ← before _ notE]
        exact stays
  · constructor
    · rintro ⟨place, below, rfl⟩
      rw [changed]
      by_cases first : place = hole
      · exact ⟨next, within, by rw [first, exchange_first]⟩
      · by_cases second : place = next
        · exact ⟨hole, inside, by rw [second, exchange_second]⟩
        · exact ⟨place, below, (exchange_other first second).symm⟩
    · rintro ⟨place, below, rfl⟩
      by_cases first : place = hole
      · exact ⟨next, within, by rw [changed, first, exchange_second]⟩
      · by_cases second : place = next
        · exact ⟨hole, inside, by rw [changed, second, exchange_first]⟩
        · exact ⟨place, below, by rw [changed]; exact exchange_other first second⟩
  · have notE : x ≠ e := fun same => absent ⟨hole, inside, here.trans same.symm⟩
    have notNext : x ≠ s.p next := fun same => absent ⟨next, within, there.trans same.symm⟩
    rw [idx, if_neg notE, if_neg notNext, before x notE]

/-- The events of an array have been brought into order. -/
structure Arrived (timeout : EventPtr → Timeval) (first final : MinHeap) : Prop where
  sifted : Sifted first final
  ordered : Ordered (eventKey timeout) final.p final.n

/-- An event that rises ends in an ordered heap. -/
theorem shiftUp_arrived (timeout : EventPtr → Timeval) (s : MinHeap) (hole : Nat) (e : EventPtr)
    (inside : hole < s.n) (placed : (s.put hole e).Placed)
    (rising : Rising (eventKey timeout) (s.put hole e).p s.n hole) :
    Arrived timeout (s.put hole e) (minHeapShiftUp timeout s hole e) := by
  induction hole using Nat.strongRecOn generalizing s with
  | ind hole inductionHypothesis =>
      have here : (s.put hole e).p hole = e := Function.update_self _ _ _
      have beside (place : Nat) (apart : place ≠ hole) : (s.put hole e).p place = s.p place :=
        Function.update_of_ne apart _ _
      rw [minHeapShiftUp]
      change Arrived timeout _ (if hole ≠ 0 ∧ minHeapElemGreater timeout (s.p (parent hole)) e then
        minHeapShiftUp timeout (s.put hole (s.p (parent hole))) (parent hole) e else s.put hole e)
      split
      · next up =>
          obtain ⟨below, greater⟩ := up
          have positive := Nat.pos_of_ne_zero below
          have above := parent_lt positive
          have within := Nat.lt_trans above inside
          have apart := Nat.ne_of_lt above
          have step := sifted_put_put placed inside within apart
          have less : eventKey timeout ((s.put hole e).p hole) <
              eventKey timeout ((s.put hole e).p (parent hole)) := by
            rw [here, beside _ apart]
            exact elemGreater_iff.mp greater
          have moved := rising.exchange positive inside less
          rw [← p_put_put s apart e] at moved
          have arrived := inductionHypothesis (parent hole) above
            (s.put hole (s.p (parent hole))) within step.placed moved
          exact ⟨step.trans arrived.sifted, arrived.ordered⟩
      · next stay =>
          refine ⟨Sifted.refl placed, rising.ordered fun positive => ?_⟩
          rw [here, beside _ (Nat.ne_of_lt (parent_lt positive))]
          exact le_of_not_gt fun less =>
            stay ⟨Nat.ne_of_gt positive, elemGreater_iff.mpr less⟩

/-- The child that the loop down takes is a least one. -/
theorem minChild_least (timeout : EventPtr → Timeval) {hole : Nat} (more : 2 * (hole + 1) ≤ s.n) :
    ∃ child, (if 2 * (hole + 1) = s.n ∨
        minHeapElemGreater timeout (s.p (2 * (hole + 1))) (s.p (2 * (hole + 1) - 1)) then
          2 * (hole + 1) - 1 else 2 * (hole + 1)) = child ∧
      0 < child ∧ child < s.n ∧ parent child = hole ∧
      ∀ other, 0 < other → other < s.n → parent other = hole →
        eventKey timeout (s.p child) ≤ eventKey timeout (s.p other) := by
  have children (other : Nat) (below : 0 < other) (under : parent other = hole) :
      other = 2 * (hole + 1) - 1 ∨ other = 2 * (hole + 1) := by
    have cases := eq_child below
    rw [under] at cases
    omega
  split
  · next first =>
      refine ⟨_, rfl, by omega, by omega, by rw [parent]; omega, fun other below inside under => ?_⟩
      rcases children other below under with rfl | rfl
      · exact le_refl _
      · rcases first with last | greater
        · omega
        · exact le_of_lt (elemGreater_iff.mp greater)
  · next second =>
      have notLast : 2 * (hole + 1) ≠ s.n := fun last => second (.inl last)
      refine ⟨_, rfl, by omega, by omega, by rw [parent]; omega, fun other below inside under => ?_⟩
      rcases children other below under with rfl | rfl
      · exact le_of_not_gt fun less => second (.inr (elemGreater_iff.mpr less))
      · exact le_refl _

/-- An event that sinks ends in an ordered heap. -/
theorem shiftDown_arrived (timeout : EventPtr → Timeval) (s : MinHeap) (hole : Nat) (e : EventPtr)
    (inside : hole < s.n) (placed : (s.put hole e).Placed)
    (sinking : Sinking (eventKey timeout) (s.put hole e).p s.n hole) :
    Arrived timeout (s.put hole e) (minHeapShiftDown timeout s hole e) := by
  induction size : s.n - hole using Nat.strongRecOn generalizing s hole with
  | ind size inductionHypothesis =>
      have here : (s.put hole e).p hole = e := Function.update_self _ _ _
      have beside (place : Nat) (apart : place ≠ hole) : (s.put hole e).p place = s.p place :=
        Function.update_of_ne apart _ _
      rw [minHeapShiftDown]
      simp only
      by_cases more : 2 * (hole + 1) ≤ s.n
      · obtain ⟨child, taken, below, within, under, least⟩ := minChild_least timeout more
        have lower := parent_lt below
        have apart : child ≠ hole := by omega
        rw [if_pos more, taken]
        split
        · next greater =>
            have step := sifted_put_put placed inside within apart
            have less : eventKey timeout ((s.put hole e).p child) <
                eventKey timeout ((s.put hole e).p hole) := by
              rw [here, beside child apart]
              exact elemGreater_iff.mp greater
            have smallest (other : Nat) (positive : 0 < other) (present : other < s.n)
                (sibling : parent other = hole) :
                eventKey timeout ((s.put hole e).p child) ≤
                  eventKey timeout ((s.put hole e).p other) := by
              have deeper := parent_lt positive
              rw [beside child apart, beside other (by omega)]
              exact least other positive present sibling
            have moved := sinking.exchange below within under smallest less
            rw [← p_put_put s apart e] at moved
            have arrived := inductionHypothesis (s.n - child) (by omega)
              (s.put hole (s.p child)) child within step.placed moved rfl
            exact ⟨step.trans arrived.sifted, arrived.ordered⟩
        · next stay =>
            refine ⟨Sifted.refl placed, sinking.ordered fun other positive present sibling => ?_⟩
            have deeper := parent_lt positive
            rw [here, beside other (by omega)]
            exact le_trans (le_of_not_gt fun less => stay (elemGreater_iff.mpr less))
              (least other positive present sibling)
      · rw [if_neg more]
        refine ⟨Sifted.refl placed, sinking.ordered fun other positive present sibling => ?_⟩
        have child := eq_child positive
        change other < s.n at present
        omega

/-- The heap is in order, its events know their places, and no other event has one. -/
structure MinHeap.Valid (timeout : EventPtr → Timeval) (s : MinHeap) : Prop where
  ordered : Ordered (eventKey timeout) s.p s.n
  placed : s.Placed
  outside : ∀ e, ¬ s.Holds e → s.minHeapIdx e = -1
  room : s.n ≤ s.a

theorem minHeapCtor_valid (timeout : EventPtr → Timeval) : minHeapCtor.Valid timeout where
  ordered _ _ inside := absurd inside (Nat.not_lt_zero _)
  placed _ inside := absurd inside (Nat.not_lt_zero _)
  outside _ _ := rfl
  room := Nat.le_refl 0

/-- An event is in the heap exactly when it has a place. -/
theorem MinHeap.Valid.holds_iff (valid : s.Valid timeout) (e : EventPtr) :
    s.Holds e ↔ s.minHeapIdx e ≠ -1 := by
  constructor
  · rintro ⟨place, inside, rfl⟩
    rw [valid.placed place inside]
    omega
  · intro there
    by_contra absent
    exact there (valid.outside e absent)

theorem MinHeap.Valid.exists_place (valid : s.Valid timeout) (held : s.minHeapIdx e ≠ -1) :
    ∃ place, place < s.n ∧ s.p place = e ∧ s.minHeapIdx e = place := by
  obtain ⟨place, inside, rfl⟩ := (valid.holds_iff e).mpr held
  exact ⟨place, inside, rfl, valid.placed place inside⟩

/-- The top of the heap is an event with a least timeout. -/
theorem MinHeap.Valid.top_le (valid : s.Valid timeout) {top : EventPtr}
    (first : minHeapTop s = some top) :
    s.Holds top ∧ ∀ e, s.Holds e → eventKey timeout top ≤ eventKey timeout e := by
  rw [minHeapTop] at first
  split at first
  · cases first
  · next some =>
      cases first
      refine ⟨⟨0, Nat.pos_of_ne_zero some, rfl⟩, ?_⟩
      rintro e ⟨place, inside, rfl⟩
      exact valid.ordered.top_le inside

theorem minHeapTop_eq_none_iff : minHeapTop s = none ↔ ∀ e, ¬ s.Holds e := by
  rw [minHeapTop]
  split
  · next none =>
      refine iff_of_true rfl fun e held => ?_
      obtain ⟨place, inside, -⟩ := held
      omega
  · next some =>
      refine iff_of_false (fun none => by cases none) fun all => ?_
      exact all (s.p 0) ⟨0, Nat.pos_of_ne_zero some, rfl⟩

/-- A failed allocation changes nothing, and else there is room. -/
theorem minHeapReserve_eq (memory : Bool) (s : MinHeap) (n : Nat) :
    (minHeapReserve memory s n = none ∧ memory = false) ∨
      ∃ a, s.a ≤ a ∧ n ≤ a ∧ minHeapReserve memory s n = some { s with a } := by
  rw [minHeapReserve]
  by_cases full : s.a < n
  · rw [if_pos full]
    cases memory with
    | false => exact .inl ⟨rfl, rfl⟩
    | true =>
        refine .inr ⟨_, ?_, ?_, rfl⟩
        all_goals
          repeat' split
          all_goals omega
  · rw [if_neg full]
    exact .inr ⟨s.a, Nat.le_refl _, Nat.le_of_not_lt full, rfl⟩

end Projs.Libevent

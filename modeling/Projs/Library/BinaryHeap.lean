import Mathlib.Order.Lattice
import Mathlib.Tactic.Common

namespace BinaryHeap

variable {Item Key : Type} [LinearOrder Key] {key : Item → Key} {items : Nat → Item}
  {count place : Nat}

/-- The place above a place of the heap; the top is its own parent. -/
def parent (place : Nat) : Nat := (place - 1) / 2

theorem parent_lt (below : 0 < place) : parent place < place := by
  rw [parent]
  omega

theorem eq_child (below : 0 < place) :
    place = 2 * parent place + 1 ∨ place = 2 * parent place + 2 := by
  rw [parent]
  omega

/-- No item is less than the one above it. -/
def Ordered (key : Item → Key) (items : Nat → Item) (count : Nat) : Prop :=
  ∀ child, 0 < child → child < count → key (items (parent child)) ≤ key (items child)

/-- The items below a place are not less than the one above it. -/
def Bridged (key : Item → Key) (items : Nat → Item) (count place : Nat) : Prop :=
  ∀ child, 0 < child → child < count → parent child = place → 0 < place →
    key (items (parent place)) ≤ key (items child)

/-- Only the item at a place can be less than the one above it. -/
structure Rising (key : Item → Key) (items : Nat → Item) (count place : Nat) : Prop where
  others : ∀ child, 0 < child → child < count → child ≠ place →
    key (items (parent child)) ≤ key (items child)
  bridged : Bridged key items count place

/-- Only the item at a place can be greater than the ones below it. -/
structure Sinking (key : Item → Key) (items : Nat → Item) (count place : Nat) : Prop where
  others : ∀ child, 0 < child → child < count → parent child ≠ place →
    key (items (parent child)) ≤ key (items child)
  bridged : Bridged key items count place

/-- The first item is a least one. -/
theorem Ordered.top_le (ordered : Ordered key items count) (inside : place < count) :
    key (items 0) ≤ key (items place) := by
  induction place using Nat.strongRecOn with
  | ind place inductionHypothesis =>
      rcases Nat.eq_zero_or_pos place with rfl | below
      · exact le_refl _
      · have above := parent_lt below
        exact le_trans (inductionHypothesis (parent place) above (Nat.lt_trans above inside))
          (ordered place below inside)

theorem Ordered.bridged (ordered : Ordered key items count) (place : Nat) :
    Bridged key items count place := by
  intro child below inside rfl above
  have upper := ordered _ above (Nat.lt_trans (parent_lt below) inside)
  exact le_trans upper (ordered child below inside)

theorem Ordered.of_le {fewer : Nat} (ordered : Ordered key items count) (less : fewer ≤ count) :
    Ordered key items fewer :=
  fun child below inside => ordered child below (Nat.lt_of_lt_of_le inside less)

/-- Two items change places. -/
def exchange (items : Nat → Item) (first second : Nat) : Nat → Item := fun place =>
  if place = first then items second else if place = second then items first else items place

theorem exchange_first (items : Nat → Item) (first second : Nat) :
    exchange items first second first = items second := if_pos rfl

theorem exchange_second (items : Nat → Item) (first second : Nat) :
    exchange items first second second = items first := by
  rw [exchange]
  split
  · next same => rw [same]
  · exact if_pos rfl

theorem exchange_other {first second : Nat} (notFirst : place ≠ first)
    (notSecond : place ≠ second) : exchange items first second place = items place := by
  rw [exchange, if_neg notFirst, if_neg notSecond]

/-- An item that is less than the one above it goes up. -/
theorem Rising.exchange (rising : Rising key items count place) (below : 0 < place)
    (inside : place < count) (less : key (items place) < key (items (parent place))) :
    Rising key (exchange items place (parent place)) count (parent place) := by
  have above := parent_lt below
  refine ⟨fun child under within other => ?_, fun child under within lower raised => ?_⟩
  · by_cases here : child = place
    · subst here
      rw [exchange_first, exchange_second]
      exact le_of_lt less
    · rw [exchange_other here other]
      by_cases first : parent child = place
      · rw [first, exchange_first]
        exact rising.bridged child under within first below
      · by_cases second : parent child = parent place
        · rw [second, exchange_second]
          exact le_trans (le_of_lt less) (second ▸ rising.others child under within here)
        · rw [exchange_other first second]
          exact rising.others child under within here
  · have higher := parent_lt raised
    have top : BinaryHeap.exchange items place (parent place) (parent (parent place)) =
        items (parent (parent place)) := exchange_other (by omega) (by omega)
    have upper := rising.others (parent place) raised (Nat.lt_trans above inside) (by omega)
    rw [top]
    by_cases here : child = place
    · subst here
      rw [exchange_first]
      exact upper
    · have notParent : child ≠ parent place := by
        have lowerLt := parent_lt under
        omega
      rw [exchange_other here notParent]
      have next := rising.others child under within here
      rw [lower] at next
      exact le_trans upper next

/-- An item that is not less than the one above it has arrived. -/
theorem Rising.ordered (rising : Rising key items count place)
    (arrived : 0 < place → key (items (parent place)) ≤ key (items place)) :
    Ordered key items count := by
  intro child below inside
  by_cases here : child = place
  · subst here
    exact arrived below
  · exact rising.others child below inside here

/-- An item that is greater than a least one below it goes down. -/
theorem Sinking.exchange (sinking : Sinking key items count place) {child : Nat} (below : 0 < child)
    (inside : child < count) (under : parent child = place)
    (least : ∀ other, 0 < other → other < count → parent other = place →
      key (items child) ≤ key (items other))
    (less : key (items child) < key (items place)) :
    Sinking key (exchange items place child) count child := by
  have above := parent_lt below
  refine ⟨fun other lower within apart => ?_, fun other lower within next _ => ?_⟩
  · have before := parent_lt lower
    by_cases first : parent other = place
    · rw [first, exchange_first]
      by_cases here : other = child
      · rw [here, exchange_second]
        exact le_of_lt less
      · rw [exchange_other (by omega) here]
        exact least other lower within first
    · rw [exchange_other first apart]
      by_cases here : other = place
      · subst here
        rw [exchange_first]
        exact sinking.bridged child below inside under lower
      · have notChild : other ≠ child := fun same => first (same ▸ under)
        rw [exchange_other here notChild]
        exact sinking.others other lower within first
  · have before := parent_lt lower
    rw [under, exchange_first, exchange_other (by omega) (by omega)]
    have order := sinking.others other lower within (by omega)
    rw [next] at order
    exact order

/-- An item that is not greater than the ones below it has arrived. -/
theorem Sinking.ordered (sinking : Sinking key items count place)
    (arrived : ∀ child, 0 < child → child < count → parent child = place →
      key (items place) ≤ key (items child)) : Ordered key items count := by
  intro child below inside
  by_cases here : parent child = place
  · rw [here]
    exact arrived child below inside here
  · exact sinking.others child below inside here

variable {other : Item → Key} {changed : Nat → Item}

/-- An item put at a place can rise when it is less than the one above it. -/
theorem Ordered.rising (ordered : Ordered key items count)
    (same : ∀ index, index < count → index ≠ place → other (changed index) = key (items index))
    (below : 0 < place) (inside : place < count)
    (less : other (changed place) < other (changed (parent place))) :
    Rising other changed count place := by
  have above := parent_lt below
  have kept := same (parent place) (Nat.lt_trans above inside) (Nat.ne_of_lt above)
  refine ⟨fun child lower within apart => ?_, fun child lower within next _ => ?_⟩
  · have before := parent_lt lower
    rw [same child within apart]
    by_cases first : parent child = place
    · rw [first]
      rw [kept] at less
      exact le_trans (le_of_lt less) (ordered.bridged place child lower within first below)
    · rw [same _ (Nat.lt_trans before within) first]
      exact ordered child lower within
  · have before := parent_lt lower
    rw [kept, same child within (by omega)]
    exact ordered.bridged place child lower within next below

/-- An item put at a place can sink when it is not less than the one above it. -/
theorem Ordered.sinking (ordered : Ordered key items count)
    (same : ∀ index, index < count → index ≠ place → other (changed index) = key (items index))
    (inside : place < count)
    (notLess : 0 < place → other (changed (parent place)) ≤ other (changed place)) :
    Sinking other changed count place := by
  refine ⟨fun child lower within apart => ?_, fun child lower within next below => ?_⟩
  · have before := parent_lt lower
    by_cases here : child = place
    · subst here
      exact notLess lower
    · rw [same child within here, same _ (Nat.lt_trans before within) apart]
      exact ordered child lower within
  · have before := parent_lt lower
    have above := parent_lt below
    rw [same (parent place) (Nat.lt_trans above inside) (Nat.ne_of_lt above),
      same child within (by omega)]
    exact ordered.bridged place child lower within next below

/-- An item put behind the others can rise. -/
theorem Ordered.appended (ordered : Ordered key items count)
    (same : ∀ index, index < count → other (changed index) = key (items index)) :
    Rising other changed (count + 1) count := by
  refine ⟨fun child lower within apart => ?_, fun child lower within next _ => ?_⟩
  · have before := parent_lt lower
    have inside : child < count := by omega
    rw [same child inside, same _ (Nat.lt_trans before inside)]
    exact ordered child lower inside
  · have before := parent_lt lower
    omega

end BinaryHeap

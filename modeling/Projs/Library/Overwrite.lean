import Mathlib.Data.List.Basic
import Mathlib.Tactic.Common

namespace Overwrite

variable {Item : Type}

/-- Items are written over a list from a place on, and the list grows where it ends. -/
def overwrite (content : List Item) (place : Nat) (data : List Item) : List Item :=
  content.take place ++ data ++ content.drop (place + data.length)

theorem length_overwrite {content data : List Item} {place : Nat}
    (inside : place ≤ content.length) :
    (overwrite content place data).length = max content.length (place + data.length) := by
  rw [overwrite, List.length_append, List.length_append, List.length_take, List.length_drop]
  omega

theorem getElem?_overwrite {content data : List Item} {place : Nat}
    (inside : place ≤ content.length) (index : Nat) :
    (overwrite content place data)[index]? =
      if place ≤ index ∧ index < place + data.length then data[index - place]?
      else content[index]? := by
  have front : (content.take place).length = place := by
    rw [List.length_take]
    omega
  rw [overwrite, List.append_assoc]
  by_cases before : index < place
  · rw [List.getElem?_append_left (by omega), List.getElem?_take, if_pos before,
      if_neg (by omega)]
  · rw [List.getElem?_append_right (by omega), front]
    by_cases within : index < place + data.length
    · rw [List.getElem?_append_left (by omega), if_pos ⟨by omega, within⟩]
    · have behind : place + data.length + (index - place - data.length) = index := by omega
      rw [List.getElem?_append_right (by omega), List.getElem?_drop, behind, if_neg (by omega)]

theorem overwrite_nil {content : List Item} (place : Nat) :
    overwrite content place [] = content := by
  simp [overwrite]

/-- Two writes behind each other are one write. -/
theorem overwrite_append {content first second : List Item} {place : Nat}
    (inside : place ≤ content.length) :
    overwrite (overwrite content place first) (place + first.length) second =
      overwrite content place (first ++ second) := by
  have reached : place + first.length ≤ (overwrite content place first).length := by
    rw [length_overwrite inside]
    exact Nat.le_max_right _ _
  apply List.ext_getElem?
  intro index
  rw [getElem?_overwrite reached, getElem?_overwrite inside, getElem?_overwrite inside,
    List.length_append]
  by_cases before : index < place + first.length
  · rw [if_neg (by omega)]
    by_cases within : place ≤ index
    · rw [if_pos ⟨within, before⟩, if_pos ⟨within, by omega⟩, List.getElem?_append_left (by omega)]
    · rw [if_neg (by omega), if_neg (by omega)]
  · by_cases within : index < place + first.length + second.length
    · have rest : index - place - first.length = index - (place + first.length) := by omega
      rw [if_pos ⟨by omega, within⟩, if_pos ⟨by omega, by omega⟩,
        List.getElem?_append_right (by omega), rest]
    · rw [if_neg (by omega), if_neg (by omega), if_neg (by omega)]

/-- A slice is read place by place. -/
theorem mapM_slice {content : List Item} {cells : Nat → Option Item} {place count : Nat}
    (inside : place + count ≤ content.length)
    (same : ∀ offset, offset < count → cells offset = content[place + offset]?) :
    (List.range count).mapM cells = some ((content.drop place).take count) := by
  induction count with
  | zero => simp
  | succ count inductionHypothesis =>
      have here : (content.drop place)[count]? = some content[place + count] := by
        rw [List.getElem?_drop, List.getElem?_eq_getElem (by omega)]
      have last := same count (Nat.lt_succ_self count)
      rw [List.getElem?_eq_getElem (by omega)] at last
      rw [List.range_succ, List.mapM_append,
        inductionHypothesis (by omega) fun offset before => same offset (Nat.lt_succ_of_lt before),
        List.take_add_one, here]
      simp [last]

end Overwrite

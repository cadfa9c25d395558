import Mathlib.Data.List.Induction
import Mathlib.Data.List.Shortlex
import Mathlib.Data.Fin.Basic
import Projs.Library.PositionalNumeral

namespace BijectiveNumeral
open PositionalNumeral

variable {base : Nat}

/-- Letters count from one, so that no letter is worth nothing. -/
def number (letters : List (Fin base)) : Nat :=
  value base (letters.map fun letter => letter.val + 1)

/-- The last letter of a number's name is found by division, and the letters before it name the
quotient. -/
def name (positive : 0 < base) (n : Nat) : List (Fin base) :=
  if n = 0 then []
  else name positive ((n - 1) / base) ++ [⟨(n - 1) % base, Nat.mod_lt _ positive⟩]
termination_by n
decreasing_by
  have quotient := Nat.div_le_self (n - 1) base
  omega

@[simp] theorem number_nil : number ([] : List (Fin base)) = 0 := rfl

@[simp] theorem number_concat (letters : List (Fin base)) (letter : Fin base) :
    number (letters ++ [letter]) = number letters * base + (letter.val + 1) := by
  simp [number, value, extend]

@[simp] theorem name_zero (positive : 0 < base) : name positive 0 = [] := by rw [name, if_pos rfl]

@[simp] theorem name_succ (positive : 0 < base) (n : Nat) :
    name positive (n + 1) = name positive (n / base) ++ [⟨n % base, Nat.mod_lt n positive⟩] := by
  rw [name, if_neg (Nat.succ_ne_zero n)]
  rfl

/-- A number is spelled by its name. -/
theorem number_name (positive : 0 < base) (n : Nat) : number (name positive n) = n := by
  induction n using Nat.strongRecOn with
  | ind n ih =>
      cases n with
      | zero => rw [name_zero, number_nil]
      | succ n =>
          have quotient : n / base < n + 1 := Nat.lt_succ_of_le (Nat.div_le_self n base)
          have division := Nat.div_add_mod' n base
          rw [name_succ, number_concat, ih _ quotient]
          simp only
          omega

/-- Every sequence of letters is the name of the number that it spells. -/
theorem name_number (positive : 0 < base) (letters : List (Fin base)) :
    name positive (number letters) = letters := by
  induction letters using List.reverseRecOn with
  | nil => rw [number_nil, name_zero]
  | append_singleton letters letter ih =>
      have quotient : (number letters * base + letter.val) / base = number letters := by
        rw [Nat.mul_comm, Nat.mul_add_div positive, Nat.div_eq_of_lt letter.isLt, Nat.add_zero]
      have remainder : (number letters * base + letter.val) % base = letter.val := by
        rw [Nat.mul_comm, Nat.mul_add_mod, Nat.mod_eq_of_lt letter.isLt]
      rw [number_concat, ← Nat.add_assoc, name_succ, quotient, ih]
      simp only [remainder]

/-- Different names spell different numbers. -/
theorem number_inj (positive : 0 < base) {left right : List (Fin base)} :
    number left = number right ↔ left = right :=
  (Function.LeftInverse.injective (name_number positive)).eq_iff

/-- Letters are read on from a number. -/
def spellOn (total : Nat) (letters : List (Fin base)) : Nat :=
  extend base total (letters.map fun letter => letter.val + 1)

theorem number_append (front back : List (Fin base)) :
    number (front ++ back) = spellOn (number front) back := by
  simp [number, value, spellOn, extend]

/-- Equally many letters cannot make up for a smaller number before them. -/
theorem spellOn_lt {smaller larger : Nat} (less : smaller < larger) {left right : List (Fin base)}
    (lengths : left.length = right.length) : spellOn smaller left < spellOn larger right := by
  induction left generalizing right smaller larger with
  | nil =>
      rw [List.length_nil, eq_comm, List.length_eq_zero_iff] at lengths
      rw [lengths]
      exact less
  | cons first left ih =>
      cases right with
      | nil => cases lengths
      | cons second right =>
          apply ih _ (Nat.succ.inj lengths)
          have letter := first.isLt
          calc smaller * base + (first.val + 1) ≤ smaller * base + base := by omega
            _ = (smaller + 1) * base := (Nat.succ_mul smaller base).symm
            _ ≤ larger * base := Nat.mul_le_mul_right base less
            _ < larger * base + (second.val + 1) := by omega

theorem number_pos {letters : List (Fin base)} (filled : letters ≠ []) : 0 < number letters := by
  obtain ⟨first, rest, same⟩ := List.exists_cons_of_ne_nil filled
  have positive : 0 < base := Nat.zero_lt_of_lt first.isLt
  rw [same]
  exact value_pos positive _ (Nat.succ_pos _)

/-- Fewer letters spell a smaller number. -/
theorem number_lt_of_length_lt {left right : List (Fin base)}
    (shorter : left.length < right.length) : number left < number right := by
  have parts := List.take_append_drop (right.length - left.length) right
  have front : right.take (right.length - left.length) ≠ [] := by
    rw [Ne, List.take_eq_nil_iff]
    rintro (none | rfl)
    · omega
    · exact Nat.not_lt_zero _ shorter
  have lengths : left.length = (right.drop (right.length - left.length)).length := by
    rw [List.length_drop]
    omega
  rw [← parts, number_append]
  exact spellOn_lt (number_pos front) lengths

/-- Among names of one length, the first different letter decides. -/
theorem spellOn_lt_of_lex (total : Nat) {left right : List (Fin base)}
    (lengths : left.length = right.length) (before : List.Lex (· < ·) left right) :
    spellOn total left < spellOn total right := by
  induction before generalizing total with
  | nil => cases lengths
  | @cons letter left right before ih => exact ih _ (Nat.succ.inj lengths)
  | @rel first left second right less =>
      have letters : first.val + 1 < second.val + 1 := Nat.succ_lt_succ less
      exact spellOn_lt (Nat.add_lt_add_left letters (total * base)) (Nat.succ.inj lengths)

theorem number_lt_of_shortlex {left right : List (Fin base)}
    (before : List.Shortlex (· < ·) left right) : number left < number right := by
  rcases List.shortlex_def.mp before with shorter | ⟨lengths, lex⟩
  · exact number_lt_of_length_lt shorter
  · exact spellOn_lt_of_lex 0 lengths lex

/-- Names by length and then alphabet are in the order of their numbers. -/
theorem number_lt_iff (left right : List (Fin base)) :
    number left < number right ↔ List.Shortlex (· < ·) left right := by
  refine ⟨?_, number_lt_of_shortlex⟩
  intro less
  have order := trichotomous_of (List.Shortlex fun first second : Fin base => first < second)
    left right
  rcases order with before | same | after
  · exact before
  · rw [same] at less
    exact absurd less (Nat.lt_irrefl _)
  · exact absurd (number_lt_of_shortlex after) (Nat.lt_asymm less)

end BijectiveNumeral

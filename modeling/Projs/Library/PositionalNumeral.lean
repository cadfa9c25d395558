import Mathlib.Data.Nat.Basic
import Mathlib.Tactic.Common

namespace PositionalNumeral

/-- Reading digits from the left multiplies the number read so far by the base. -/
def extend (base : Nat) (total : Nat) (digits : List Nat) : Nat :=
  digits.foldl (fun value digit => value * base + digit) total

/-- The value of a numeral starts from zero. -/
def value (base : Nat) (digits : List Nat) : Nat := extend base 0 digits

@[simp] theorem extend_nil (base total : Nat) : extend base total [] = total := rfl

@[simp] theorem extend_cons (base total digit : Nat) (rest : List Nat) :
    extend base total (digit :: rest) = extend base (total * base + digit) rest := rfl

/-- No digit makes the number smaller than what was read before it. -/
theorem le_extend {base : Nat} (positive : 0 < base) (total : Nat) (digits : List Nat) :
    total ≤ extend base total digits := by
  induction digits generalizing total with
  | nil => exact Nat.le_refl total
  | cons digit rest ih =>
      calc total ≤ total * base := Nat.le_mul_of_pos_right total positive
        _ ≤ total * base + digit := Nat.le_add_right _ _
        _ ≤ extend base (total * base + digit) rest := ih _

/-- A numeral with a positive first digit is positive. -/
theorem value_pos {base : Nat} (positive : 0 < base) {digit : Nat} (digits : List Nat)
    (first : 0 < digit) : 0 < value base (digit :: digits) := by
  have grows := le_extend positive (0 * base + digit) digits
  simp only [value, extend_cons]
  omega

end PositionalNumeral

import Mathlib.Data.Int.GCD
import Mathlib.Data.Nat.ModEq
import Mathlib.Data.Nat.Prime.Basic

namespace OddStride

/-- The place after a number of equal strides around a table. -/
def place (size start stride index : Nat) : Nat := (start + index * stride) % size

theorem place_lt {size : Nat} (positive : 0 < size) (start stride index : Nat) :
    place size start stride index < size :=
  Nat.mod_lt _ positive

theorem place_zero (size start stride : Nat) : place size start stride 0 = start % size := by
  rw [place, Nat.zero_mul, Nat.add_zero]

theorem place_succ (size start stride index : Nat) :
    (place size start stride index + stride) % size = place size start stride (index + 1) := by
  rw [place, place, Nat.mod_add_mod, Nat.add_assoc, Nat.succ_mul]

/-- An odd stride around a table whose size is a power of two reaches every place of the table
before it returns. -/
theorem exists_place_eq {power start stride target : Nat} (odd : stride % 2 = 1)
    (inside : target < 2 ^ power) :
    ∃ index, index < 2 ^ power ∧ place (2 ^ power) start stride index = target := by
  cases power with
  | zero =>
      rw [Nat.lt_one_iff.mp inside]
      exact ⟨0, Nat.one_pos, Nat.mod_one _⟩
  | succ power =>
      have coprime : stride.Coprime (2 ^ (power + 1)) :=
        (Nat.coprime_two_right.mpr (Nat.odd_iff.mpr odd)).pow_right (power + 1)
      obtain ⟨inverse, -, unit⟩ := Nat.exists_mul_mod_eq_one_of_coprime coprime
        (Nat.one_lt_two_pow (Nat.succ_ne_zero power))
      -- The distance from the start to the target, divided by the stride.
      let distance := target + (2 ^ (power + 1) - start % 2 ^ (power + 1))
      refine ⟨distance * inverse % 2 ^ (power + 1), Nat.mod_lt _ (Nat.two_pow_pos _), ?_⟩
      have far :
          distance * inverse % 2 ^ (power + 1) * stride ≡ distance [MOD 2 ^ (power + 1)] := by
        calc distance * inverse % 2 ^ (power + 1) * stride
            ≡ distance * inverse * stride [MOD 2 ^ (power + 1)] := (Nat.mod_modEq _ _).mul_right _
          _ = distance * (stride * inverse) := by rw [Nat.mul_assoc, Nat.mul_comm inverse]
          _ ≡ distance * 1 [MOD 2 ^ (power + 1)] := by
              apply Nat.ModEq.mul_left
              rw [Nat.ModEq, unit, Nat.mod_eq_of_lt (Nat.one_lt_two_pow (Nat.succ_ne_zero power))]
          _ = distance := Nat.mul_one distance
      have whole : start % 2 ^ (power + 1) + distance = target + 2 ^ (power + 1) := by
        have below := Nat.mod_lt start (Nat.two_pow_pos (power + 1))
        omega
      calc (start + distance * inverse % 2 ^ (power + 1) * stride) % 2 ^ (power + 1)
          = (start % 2 ^ (power + 1) + distance) % 2 ^ (power + 1) :=
            (Nat.mod_modEq start _).symm.add far
        _ = target := by rw [whole, Nat.add_mod_right, Nat.mod_eq_of_lt inside]

end OddStride

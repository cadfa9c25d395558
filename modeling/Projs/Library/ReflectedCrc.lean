import Mathlib.Logic.Function.Iterate

namespace ReflectedCrc

variable {width : Nat} (polynomial : BitVec width)

/-- One bit of the division by a reflected polynomial. -/
def bitStep (crc : BitVec width) : BitVec width :=
  (crc >>> 1) ^^^ (if crc.getLsbD 0 then polynomial else 0)

/-- A number of bits of the division. -/
def bitSteps (count : Nat) : BitVec width → BitVec width := (bitStep polynomial)^[count]

theorem bitSteps_succ (count : Nat) (crc : BitVec width) :
    bitSteps polynomial (count + 1) crc = bitSteps polynomial count (bitStep polynomial crc) :=
  Function.iterate_succ_apply _ _ _

/-- The division of a sum is the sum of the divisions. -/
theorem bitStep_xor (first second : BitVec width) :
    bitStep polynomial (first ^^^ second) =
      bitStep polynomial first ^^^ bitStep polynomial second := by
  rw [bitStep, bitStep, bitStep, BitVec.ushiftRight_xor_distrib, BitVec.getLsbD_xor]
  apply BitVec.eq_of_getLsbD_eq
  intro index inside
  simp only [BitVec.getLsbD_xor]
  cases first.getLsbD 0 <;> cases second.getLsbD 0 <;>
    cases (first >>> 1).getLsbD index <;> cases (second >>> 1).getLsbD index <;>
    cases polynomial.getLsbD index <;> simp_all

theorem bitSteps_xor (count : Nat) (first second : BitVec width) :
    bitSteps polynomial count (first ^^^ second) =
      bitSteps polynomial count first ^^^ bitSteps polynomial count second := by
  induction count generalizing first second with
  | zero => rfl
  | succ count inductionHypothesis =>
      rw [bitSteps_succ, bitSteps_succ, bitSteps_succ, bitStep_xor, inductionHypothesis]

/-- Zero bits only shift the rest. -/
theorem bitSteps_of_zero {count : Nat} {crc : BitVec width}
    (zero : ∀ index, index < count → crc.getLsbD index = false) :
    bitSteps polynomial count crc = crc >>> count := by
  induction count generalizing crc with
  | zero => exact (BitVec.ushiftRight_zero crc).symm
  | succ count inductionHypothesis =>
      have shifted : bitStep polynomial crc = crc >>> 1 := by
        rw [bitStep, zero 0 (Nat.zero_lt_succ count)]
        exact BitVec.xor_zero
      rw [bitSteps_succ, shifted, inductionHypothesis]
      · rw [← BitVec.shiftRight_add, Nat.add_comm]
      · intro index inside
        rw [BitVec.getLsbD_ushiftRight]
        exact zero (1 + index) (by omega)

/-- Several bits at once: the low bits are divided by themselves, and the rest is shifted. -/
theorem bitSteps_eq (count : Nat) (crc : BitVec width) :
    bitSteps polynomial count crc =
      bitSteps polynomial count ((crc.setWidth count).setWidth width) ^^^ (crc >>> count) := by
  have high : ∀ index, (crc ^^^ (crc.setWidth count).setWidth width).getLsbD index =
      (decide (count ≤ index) && crc.getLsbD index) := by
    intro index
    rw [BitVec.getLsbD_xor, BitVec.getLsbD_setWidth, BitVec.getLsbD_setWidth]
    by_cases inside : index < width
    · by_cases low : index < count
      · simp [inside, low, Nat.not_le.mpr low]
      · simp [low, Nat.not_lt.mp low]
    · simp [inside, BitVec.getLsbD_of_ge crc index (Nat.not_lt.mp inside)]
  have shifted : (crc ^^^ (crc.setWidth count).setWidth width) >>> count = crc >>> count := by
    apply BitVec.eq_of_getLsbD_eq
    intro index _
    rw [BitVec.getLsbD_ushiftRight, BitVec.getLsbD_ushiftRight, high]
    simp
  have rest : bitSteps polynomial count (crc ^^^ (crc.setWidth count).setWidth width) =
      crc >>> count := by
    rw [bitSteps_of_zero, shifted]
    intro index inside
    rw [high]
    simp [Nat.not_le.mpr inside]
  rw [← rest, ← bitSteps_xor, BitVec.xor_comm crc, ← BitVec.xor_assoc, BitVec.xor_self,
    BitVec.zero_xor]

end ReflectedCrc

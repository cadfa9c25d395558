import Mathlib.Data.Nat.Log
import Projs.Construction.Asm.ExprTree

namespace Projs.Asm

/-- The bits from one place to twice that place are those of the quotient. -/
theorem and_mask (value width : Nat) :
    value &&& ((2 ^ width - 1) <<< width) = ((value >>> width) % 2 ^ width) <<< width := by
  apply Nat.eq_of_testBit_eq
  intro index
  rw [Nat.testBit_and, Nat.testBit_shiftLeft, Nat.testBit_shiftLeft, Nat.testBit_two_pow_sub_one,
    Nat.testBit_mod_two_pow, Nat.testBit_shiftRight]
  by_cases high : width ≤ index
  · rw [show width + (index - width) = index by omega]
    simp only [high, decide_true, Bool.true_and]
    exact Bool.and_comm _ _
  · simp [high]

theorem mask_toNat {width : Nat} (fits : 2 * width ≤ 32) :
    ((((1 : BitVec 32) <<< width) - 1) <<< width).toNat = (2 ^ width - 1) <<< width := by
  have positive : 0 < 2 ^ width := Nat.two_pow_pos width
  have small : 2 ^ width < 2 ^ 32 := Nat.pow_lt_pow_right (by decide) (by omega)
  have one : ((1 : BitVec 32) <<< width).toNat = 2 ^ width := by
    rw [BitVec.toNat_shiftLeft, Nat.shiftLeft_eq]
    exact (congrArg (· % 2 ^ 32) (Nat.one_mul _)).trans (Nat.mod_eq_of_lt small)
  have ones : (((1 : BitVec 32) <<< width) - 1).toNat = 2 ^ width - 1 := by
    rw [BitVec.toNat_sub_of_le, one]
    · rfl
    · rw [BitVec.le_def, one]
      exact positive
  rw [BitVec.toNat_shiftLeft, ones]
  apply Nat.mod_eq_of_lt
  rw [Nat.shiftLeft_eq]
  calc (2 ^ width - 1) * 2 ^ width < 2 ^ width * 2 ^ width :=
        Nat.mul_lt_mul_of_pos_right (by omega) positive
    _ = 2 ^ (width + width) := (Nat.pow_add _ _ _).symm
    _ ≤ 2 ^ 32 := Nat.pow_le_pow_right (by decide) (by omega)

/-- A step of the logarithm takes the upper half of the bits if there are any. -/
theorem roundHalf_spec (width : Nat) (fits : 2 * width ≤ 32) {value : BitVec 32 × Nat}
    (small : value.1.toNat < 2 ^ (2 * width)) :
    (roundHalf width value).1.toNat < 2 ^ width ∧
      (roundHalf width value).2 + Nat.log 2 (roundHalf width value).1.toNat =
        value.2 + Nat.log 2 value.1.toNat := by
  have half : value.1.toNat >>> width < 2 ^ width := by
    rw [Nat.shiftRight_eq_div_pow]
    apply Nat.div_lt_of_lt_mul
    rwa [← Nat.pow_add, ← Nat.two_mul]
  have masked : (value.1 &&& ((((1 : BitVec 32) <<< width) - 1) <<< width)).toNat =
      (value.1.toNat >>> width) <<< width := by
    rw [BitVec.toNat_and, mask_toNat fits, and_mask, Nat.mod_eq_of_lt half]
  rw [roundHalf]
  split
  · next high =>
      have large : 2 ^ width ≤ value.1.toNat := by
        by_contra below
        apply high
        apply BitVec.eq_of_toNat_eq
        rw [masked, Nat.shiftRight_eq_div_pow, Nat.div_eq_of_lt (by omega)]
        exact Nat.zero_shiftLeft width
      have log : width ≤ Nat.log 2 value.1.toNat :=
        Nat.le_log_of_pow_le (by decide) large
      refine ⟨half, ?_⟩
      rw [BitVec.toNat_ushiftRight, Nat.shiftRight_eq_div_pow, Nat.log_div_base_pow]
      omega
  · next low =>
      refine ⟨?_, rfl⟩
      have zero := congrArg BitVec.toNat (not_not.1 low)
      rw [masked, Nat.shiftLeft_eq] at zero
      have none : value.1.toNat >>> width = 0 :=
        (Nat.mul_eq_zero.1 zero).resolve_right (Nat.two_pow_pos width).ne'
      rw [Nat.shiftRight_eq_div_pow] at none
      exact (Nat.div_eq_zero_iff.1 none).resolve_left (Nat.two_pow_pos width).ne'

theorem ilog2of64_eq (value : BitVec 64) : ilog2of64 value = Nat.log 2 value.toNat := by
  have rounds : ∀ start : BitVec 32 × Nat,
      (roundHalf 1 (roundHalf 2 (roundHalf 4 (roundHalf 8 (roundHalf 16 start))))).2 =
        start.2 + Nat.log 2 start.1.toNat := by
    intro start
    have first := roundHalf_spec 16 (by decide) start.1.isLt
    have second := roundHalf_spec 8 (by decide) first.1
    have third := roundHalf_spec 4 (by decide) second.1
    have fourth := roundHalf_spec 2 (by decide) third.1
    have fifth := roundHalf_spec 1 (by decide) fourth.1
    have none := Nat.log_of_lt (b := 2) fifth.1
    omega
  have upper : ((value >>> 32).setWidth 32).toNat = value.toNat / 2 ^ 32 := by
    rw [BitVec.toNat_setWidth, BitVec.toNat_ushiftRight, Nat.shiftRight_eq_div_pow]
    exact Nat.mod_eq_of_lt (Nat.div_lt_of_lt_mul value.isLt)
  rw [ilog2of64, rounds]
  split
  · next high =>
      have large : 2 ^ 32 ≤ value.toNat := by
        by_contra below
        apply high
        apply BitVec.eq_of_toNat_eq
        rw [upper, Nat.div_eq_of_lt (by omega)]
        rfl
      have log : 32 ≤ Nat.log 2 value.toNat := Nat.le_log_of_pow_le (by decide) large
      rw [upper, Nat.log_div_base_pow]
      omega
  · next low =>
      have zero := congrArg BitVec.toNat (not_not.1 low)
      rw [upper] at zero
      have small : value.toNat < 2 ^ 32 :=
        (Nat.div_eq_zero_iff.1 zero).resolve_left (by decide)
      rw [BitVec.toNat_setWidth, Nat.mod_eq_of_lt small, Nat.zero_add]

theorem isPower2_iff (value : BitVec 64) :
    isPower2 value = true ↔ 2 ^ Nat.log 2 value.toNat = value.toNat := by
  rw [isPower2, Bool.and_eq_true, decide_eq_true_iff, decide_eq_true_iff]
  by_cases zero : value = 0
  · rw [zero]
    exact iff_of_false (fun both => both.1 rfl) (by decide)
  · have positive : value.toNat ≠ 0 := fun none => zero (BitVec.eq_of_toNat_eq none)
    have less : (value - 1).toNat = value.toNat - 1 := by
      apply BitVec.toNat_sub_of_le
      rw [BitVec.le_def]
      exact Nat.one_le_iff_ne_zero.2 positive
    have bits : value &&& (value - 1) = 0 ↔ value.toNat &&& (value.toNat - 1) = 0 := by
      rw [← less, ← BitVec.toNat_and]
      exact ⟨fun none => by rw [none]; rfl, fun none => BitVec.eq_of_toNat_eq none⟩
    rw [bits, Nat.and_sub_one_eq_zero_iff_isPowerOfTwo positive]
    constructor
    · rintro ⟨-, exponent, power⟩
      rw [power, Nat.log_pow (by decide)]
    · exact fun power => ⟨zero, _, power.symm⟩

theorem ilog2c_eq {value : Nat} (large : 2 ≤ value) :
    Nat.log 2 (value - 1) + 1 = Nat.clog 2 value := by
  have above := Nat.lt_pow_succ_log_self (by decide : 1 < 2) (value - 1)
  have below := Nat.pow_log_le_self 2 (by omega : value - 1 ≠ 0)
  apply Nat.le_antisymm
  · by_contra less
    have small : value ≤ 2 ^ Nat.log 2 (value - 1) :=
      (Nat.clog_le_iff_le_pow (by decide)).1 (by omega)
    omega
  · exact (Nat.clog_le_iff_le_pow (by decide)).2 (by omega)

/-- The functions compute logarithms, and only `ilog2e` reports another argument. -/
theorem evalIfunc_eq (state : EvalState) (value : BitVec 64) (func : IFunc) :
    match func.meaning value with
    | some result => ∃ warnings, evalIfunc state value func = (result, { state with warnings })
    | none => (evalIfunc state value func).2.errors ≠ state.errors := by
  cases func with
  | ilog2e =>
      rw [IFunc.meaning]
      split_ifs with power
      · exact ⟨state.warnings, by
          simp only [evalIfunc, (isPower2_iff value).2 power, if_true, ilog2of64_eq]⟩
      · rw [evalIfunc, if_neg fun is => power ((isPower2_iff value).1 is)]
        simp [nasmError]
  | ilog2w =>
      rw [IFunc.meaning]
      by_cases power : isPower2 value = true
      · exact ⟨state.warnings, by simp only [evalIfunc, power, if_true, ilog2of64_eq]⟩
      · exact ⟨_, by simp only [evalIfunc, if_neg power, ilog2of64_eq, nasmWarning]; rfl⟩
  | ilog2f => exact ⟨state.warnings, by simp only [evalIfunc, ilog2of64_eq]⟩
  | ilog2c =>
      refine ⟨state.warnings, ?_⟩
      rw [evalIfunc]
      congr 1
      split_ifs with small
      · rw [Nat.clog_of_right_le_one]
        · rfl
        · exact Nat.le_of_lt_succ small
      · have large : 2 ≤ value.toNat := Nat.le_of_not_lt small
        have less : (value - 1).toNat = value.toNat - 1 :=
          BitVec.toNat_sub_of_le (show 1 ≤ value.toNat by omega)
        rw [ilog2of64_eq, less, ilog2c_eq large]

end Projs.Asm

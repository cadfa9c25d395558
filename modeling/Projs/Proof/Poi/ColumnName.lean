import Projs.Library.BijectiveNumeral
import Projs.Proof.Poi.CellReference

namespace Projs.Poi
open Java PositionalNumeral

theorem letters_pos : 0 < 26 := by decide

/-- Columns are named A to Z, then AA to ZZ, and so on. -/
def columnName (number : Nat) : List (Fin 26) := BijectiveNumeral.name letters_pos number

example : [1, 26, 27, 28, 702, 703].map columnName =
    [[0], [25], [0, 0], [0, 1], [25, 25], [0, 0, 0]] := by simp [columnName]

/-- The second loop of `covertRowIdtoInt` with a check of every int operation. -/
def convertChecked (result : Int) : JavaString → Option Int
  | [] => some result
  | c :: rest => do
      let product ← inInt (result * 26)
      let offset ← inInt ((c.toNat : Int) - 65)
      let sum ← inInt (product + offset)
      let next ← inInt (sum + 1)
      convertChecked next rest

theorem convertChecked_cons (result : Int) (c : JavaChar) (rest : JavaString) :
    convertChecked result (c :: rest) =
      (inInt (result * 26)).bind fun product =>
        (inInt ((c.toNat : Int) - 65)).bind fun offset =>
          (inInt (product + offset)).bind fun sum =>
            (inInt (sum + 1)).bind fun next => convertChecked next rest := rfl

theorem eq_of_inInt {value checked : Int} (inside : inInt value = some checked) :
    checked = value ∧ wrapInt value = value := by
  unfold inInt at inside
  split at inside
  · next range => exact ⟨(Option.some.inj inside).symm, wrapInt_of_range range.1 range.2⟩
  · cases inside

/-- The loop computes what the checked loop does, wherever that has a result. -/
theorem convertColumn_of_checked {result number : Int} {text : JavaString}
    (checked : convertChecked result text = some number) : convertColumn result text = number := by
  induction text generalizing result with
  | nil => exact Option.some.inj checked
  | cons c rest ih =>
      simp only [convertChecked_cons, Option.bind_eq_some_iff] at checked
      obtain ⟨product, first, offset, second, sum, third, next, fourth, later⟩ := checked
      obtain ⟨rfl, _⟩ := eq_of_inInt first
      obtain ⟨rfl, _⟩ := eq_of_inInt second
      obtain ⟨rfl, _⟩ := eq_of_inInt third
      obtain ⟨rfl, exact⟩ := eq_of_inInt fourth
      rw [convertColumn, exact]
      exact ih later

/-- No operation overflows on a letter while the number behind it fits an int. -/
theorem convertChecked_letter {total : Nat} {letter : Fin 26} (rest : JavaString)
    (fits : total * 26 + (letter.val + 1) < 2 ^ 31) :
    convertChecked total (letterChar letter :: rest) =
      convertChecked ((total * 26 + (letter.val + 1) : Nat) : Int) rest := by
  have product : inInt ((total : Int) * 26) = some ((total : Int) * 26) :=
    inInt_of_range (by omega) (by omega)
  have code : inInt (((letterChar letter).toNat : Int) - 65) = some (letter.val : Int) := by
    have difference : ((letterChar letter).toNat : Int) - 65 = letter.val := by
      rw [letterChar_toNat]
      omega
    rw [difference]
    exact inInt_of_range (by omega) (by omega)
  have sum : inInt ((total : Int) * 26 + letter.val) = some ((total : Int) * 26 + letter.val) :=
    inInt_of_range (by omega) (by omega)
  have next : inInt ((total : Int) * 26 + letter.val + 1) =
      some ((total * 26 + (letter.val + 1) : Nat) : Int) := by
    rw [inInt_of_range (by omega) (by omega)]
    congr 1
  rw [convertChecked_cons, product, Option.bind_some, code, Option.bind_some, sum,
    Option.bind_some, next, Option.bind_some]

/-- No operation of the loop overflows while the final number fits an int. -/
theorem convertChecked_letters (total : Nat) (letters : List (Fin 26))
    (fits : extend 26 total (letters.map fun letter => letter.val + 1) < 2 ^ 31) :
    convertChecked total (lettersText letters) =
      some (extend 26 total (letters.map fun letter => letter.val + 1) : Int) := by
  induction letters generalizing total with
  | nil => rfl
  | cons letter letters ih =>
      have bounded : total * 26 + (letter.val + 1) < 2 ^ 31 :=
        lt_of_le_of_lt (le_extend (by decide) _ _) fits
      rw [lettersText, List.map_cons, convertChecked_letter _ bounded]
      exact ih _ fits

/-- The id of a cell is the name of its column and the digits of its row. -/
def cellId (number : Nat) (digits : List (Fin 10)) : JavaString :=
  lettersText (columnName number) ++ digitsText digits

theorem columnNumber_columnName (number : Nat) : columnNumber (columnName number) = number :=
  BijectiveNumeral.number_name letters_pos number

/-- A column number with row digits makes a reference. -/
def referenceOf (number : Nat) (digits : List (Fin 10)) (positive : 1 ≤ number)
    (fits : number < 2 ^ 31) (written : digits ≠ []) : CellReference where
  letters := columnName number
  digits := digits
  named := by
    intro empty
    have same := columnNumber_columnName number
    rw [empty] at same
    exact absurd same.symm (Nat.ne_of_gt positive)
  numbered := written
  fits := by rwa [columnNumber_columnName]

/-- The column of a cell is read back from its id, and no int operation of the loop overflows. -/
theorem covertRowIdtoInt_cellId {number : Nat} {digits : List (Fin 10)} (positive : 1 ≤ number)
    (fits : number < 2 ^ 31) (written : digits ≠ []) :
    covertRowIdtoInt (cellId number digits) = number ∧
      convertChecked 0 (extractColumn [] [] (cellId number digits)) = some (number : Int) := by
  have whole := columnNumber_columnName number
  have extracted : extractColumn [] [] (cellId number digits) = lettersText (columnName number) :=
    extractColumn_reference (referenceOf number digits positive fits written)
  have checked : convertChecked 0 (extractColumn [] [] (cellId number digits)) =
      some (number : Int) := by
    rw [extracted]
    refine (convertChecked_letters 0 (columnName number) (whole.trans_lt fits)).trans ?_
    exact congrArg (fun value : Nat => some (value : Int)) whole
  exact ⟨convertColumn_of_checked checked, checked⟩

theorem covertRowIdtoInt_eq_iff (left right : CellReference) :
    covertRowIdtoInt left.text = covertRowIdtoInt right.text ↔ left.letters = right.letters := by
  rw [covertRowIdtoInt_reference, covertRowIdtoInt_reference, Int.natCast_inj]
  exact BijectiveNumeral.number_inj letters_pos

theorem covertRowIdtoInt_lt_iff (left right : CellReference) :
    covertRowIdtoInt left.text < covertRowIdtoInt right.text ↔
      List.Shortlex (· < ·) left.letters right.letters := by
  rw [covertRowIdtoInt_reference, covertRowIdtoInt_reference, Int.ofNat_lt]
  exact BijectiveNumeral.number_lt_iff left.letters right.letters

/-- The conversion inverts the naming of columns without overflow; so it tells references apart by
their letters alone, and puts them in the order of the length and then of the alphabet. -/
theorem covertRowIdtoInt_inverts :
    (∀ (number : Nat) (digits : List (Fin 10)), 1 ≤ number → number ≤ 2 ^ 31 - 1 → digits ≠ [] →
      covertRowIdtoInt (cellId number digits) = number ∧
        convertChecked 0 (extractColumn [] [] (cellId number digits)) = some (number : Int)) ∧
      ∀ left right : CellReference,
        (covertRowIdtoInt left.text = covertRowIdtoInt right.text ↔ left.letters = right.letters) ∧
          (covertRowIdtoInt left.text < covertRowIdtoInt right.text ↔
            List.Shortlex (· < ·) left.letters right.letters) := by
  constructor
  · intro number digits positive fits written
    exact covertRowIdtoInt_cellId positive (by omega) written
  · intro left right
    exact ⟨covertRowIdtoInt_eq_iff left right, covertRowIdtoInt_lt_iff left right⟩

/-- The column AB is the twenty-eighth, as the source's comment says. -/
theorem covertRowIdtoInt_inverts_AB7 : covertRowIdtoInt (cellId 28 [7]) = 28 :=
  (covertRowIdtoInt_inverts.1 28 [7] (by decide) (by decide) (by decide)).1

end Projs.Poi

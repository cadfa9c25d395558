import Projs.Construction.Poi.Worksheet

namespace Projs.Poi
open Java PositionalNumeral

theorem letterChar_toNat (letter : Fin 26) : (letterChar letter).toNat = 65 + letter.val := by
  revert letter
  decide

theorem isAlphabetic_letterChar (letter : Fin 26) : isAlphabetic (letterChar letter) = true := by
  revert letter
  decide

theorem isAlphabetic_digitChar (digit : Fin 10) : isAlphabetic (digitChar digit) = false := by
  revert digit
  decide

theorem digit_digitChar (value : Fin 10) : digit (digitChar value) = some value.val := by
  revert value
  decide

/-- A digit is no sign, so the parser reads it as part of the magnitude. -/
theorem digitChar_ne_sign (value : Fin 10) : digitChar value ≠ 0x2D ∧ digitChar value ≠ 0x2B := by
  revert value
  decide

/-- The first loop collects all letters before it meets a digit. -/
theorem extractColumn_letters (sb column : JavaString) (letters : List (Fin 26))
    (rest : JavaString) :
    extractColumn sb column (lettersText letters ++ rest) =
      extractColumn (sb ++ lettersText letters) column rest := by
  induction letters generalizing sb with
  | nil => simp [lettersText]
  | cons letter letters ih =>
      have next := ih (sb ++ [letterChar letter])
      simp only [lettersText, List.map_cons, List.cons_append, extractColumn,
        isAlphabetic_letterChar, if_true] at next ⊢
      simpa [List.append_assoc] using next

/-- Digits change nothing once the letters are collected. -/
theorem extractColumn_digits (sb : JavaString) (digits : List (Fin 10)) :
    extractColumn sb sb (digitsText digits) = sb := by
  induction digits with
  | nil => rfl
  | cons digit digits ih =>
      simpa only [digitsText, List.map_cons, extractColumn, isAlphabetic_digitChar,
        Bool.false_eq_true, if_false] using ih

/-- The first loop extracts exactly the column name of a reference. -/
theorem extractColumn_reference (reference : CellReference) :
    extractColumn [] [] reference.text = lettersText reference.letters := by
  obtain ⟨digit, digits, same⟩ := List.exists_cons_of_ne_nil reference.numbered
  rw [CellReference.text, extractColumn_letters, same]
  have first : extractColumn ([] ++ lettersText reference.letters) []
      (digitsText (digit :: digits)) =
      extractColumn (lettersText reference.letters) (lettersText reference.letters)
        (digitsText digits) := by
    simp [digitsText, extractColumn, isAlphabetic_digitChar]
  rw [first, extractColumn_digits]

/-- The second loop computes the column number while the final number fits an int. -/
theorem convertColumn_letters (total : Nat) (letters : List (Fin 26))
    (fits : extend 26 total (letters.map fun letter => letter.val + 1) < 2 ^ 31) :
    convertColumn total (lettersText letters) =
      extend 26 total (letters.map fun letter => letter.val + 1) := by
  induction letters generalizing total with
  | nil => rfl
  | cons letter letters ih =>
      have bounded : total * 26 + (letter.val + 1) < 2 ^ 31 :=
        lt_of_le_of_lt (le_extend (by decide) _ _) fits
      have exact : wrapInt ((total : Int) * 26 + (((letterChar letter).toNat : Int) - 65) + 1) =
          ((total * 26 + (letter.val + 1) : Nat) : Int) := by
        rw [letterChar_toNat, wrapInt_of_range (by omega) (by omega)]
        omega
      change convertColumn (wrapInt _) (lettersText letters) = _
      rw [exact]
      exact ih _ fits

/-- A reference has the column number that its letters spell. -/
theorem covertRowIdtoInt_reference (reference : CellReference) :
    covertRowIdtoInt reference.text = reference.column := by
  rw [covertRowIdtoInt, extractColumn_reference]
  exact convertColumn_letters 0 reference.letters reference.fits

theorem CellReference.column_pos (reference : CellReference) : 0 < reference.column := by
  obtain ⟨letter, letters, same⟩ := List.exists_cons_of_ne_nil reference.named
  simp only [CellReference.column, columnNumber, same, List.map_cons]
  exact value_pos (by decide) _ (Nat.succ_pos _)

/-- Only a reference to the first column can be equal to the source's literal. -/
theorem CellReference.column_of_text_A1 (reference : CellReference)
    (same : reference.text = literal "A1") : reference.column = 1 := by
  have converted := covertRowIdtoInt_reference reference
  rw [same, show covertRowIdtoInt (literal "A1") = 1 by decide] at converted
  omega

theorem readDigits_decimal (total : Nat) (digits : List (Fin 10)) :
    readDigits total (digitsText digits) = some (extend 10 total (digits.map Fin.val)) := by
  induction digits generalizing total with
  | nil => rfl
  | cons value digits ih =>
      simp only [digitsText, List.map_cons, readDigits, digit_digitChar] at ih ⊢
      exact ih _

theorem inInt_of_range {value : Int} (low : -2 ^ 31 ≤ value) (high : value < 2 ^ 31) :
    inInt value = some value := if_pos ⟨low, high⟩

/-- Decimal digits parse to their number when it fits an int. -/
theorem parseInt_digitsText (digits : List (Fin 10)) (written : digits ≠ [])
    (fits : decimalNumber digits < 2 ^ 31) :
    parseInt (digitsText digits) = some (decimalNumber digits : Int) := by
  obtain ⟨first, rest, same⟩ := List.exists_cons_of_ne_nil written
  have read : magnitude (digitsText digits) = some (decimalNumber digits) := by
    rw [magnitude, if_neg (by simp [digitsText, same]), readDigits_decimal]
    rfl
  have sign := digitChar_ne_sign first
  have head : digitsText digits = digitChar first :: digitsText rest := by
    rw [same]
    rfl
  rw [head] at read ⊢
  rw [parseInt, if_neg sign.1, if_neg sign.2, read, Option.bind_some]
  exact inInt_of_range (by omega) (by omega)

/-- A row number parses to itself. -/
theorem parseInt_rowNumber (row : RowNumber) : parseInt row.text = some (row.number : Int) := by
  apply parseInt_digitsText row.digits _ row.fits
  intro empty
  have positive := row.positive
  rw [empty] at positive
  exact absurd positive (by decide)

end Projs.Poi

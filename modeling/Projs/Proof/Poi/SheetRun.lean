import Projs.Proof.Poi.RowRun

namespace Projs.Poi
open Java LabelledMachine

theorem letterChar_ne_colon (letter : Fin 26) : letterChar letter ≠ 0x3A := by
  revert letter
  decide

theorem digitChar_ne_colon (digit : Fin 10) : digitChar digit ≠ 0x3A := by
  revert digit
  decide

/-- No cell reference contains the separator of two corners. -/
theorem CellReference.colon_notMem (reference : CellReference) :
    (0x3A : JavaChar) ∉ reference.text := by
  intro member
  rcases List.mem_append.mp member with name | number
  · obtain ⟨letter, _, same⟩ := List.mem_map.mp name
    exact letterChar_ne_colon letter same
  · obtain ⟨digit, _, same⟩ := List.mem_map.mp number
    exact digitChar_ne_colon digit same

theorem afterFirst_of_notMem {character : JavaChar} {text : JavaString}
    (absent : character ∉ text) : afterFirst character text = text := by
  rw [afterFirst, List.idxOf?_eq_none_iff.mpr absent]

theorem afterFirst_append {character : JavaChar} {first : JavaString} (second : JavaString)
    (absent : character ∉ first) :
    afterFirst character (first ++ [character] ++ second) = second := by
  have found : (first ++ [character] ++ second).idxOf? character = some first.length := by
    rw [List.idxOf?_eq_some_iff]
    refine ⟨by simp, by simp, ?_⟩
    intro index before
    rw [List.getElem_append_left (by simp; omega), List.getElem_append_left before]
    intro same
    exact absent (same ▸ List.getElem_mem before)
  rw [afterFirst, found]
  simp

/-- The last corner is what follows the separator, or the whole reference. -/
theorem DimensionElement.lastCorner (dimension : DimensionElement) :
    afterFirst 0x3A dimension.text = dimension.last.text := by
  cases corner : dimension.first with
  | none =>
      rw [DimensionElement.text, corner]
      exact afterFirst_of_notMem dimension.last.colon_notMem
  | some first =>
      rw [DimensionElement.text, corner]
      exact afterFirst_append dimension.last.text first.colon_notMem

/-- The dimension's own events set the row length and leave the rest of a fresh handler alone. -/
theorem run_dimension (sst : SharedStringsTable) (handler : Myhandler)
    (dimension : DimensionElement) :
    (reader sst).run handler dimension.events = .ok { handler.withText (some []) with
      dimension := some dimension.text
      longest := dimension.last.column } := by
  have started : (reader sst).step handler
      (.startElement .dimension { ref := some dimension.text }) =
        .ok { handler.withText (some []) with
          dimension := some dimension.text
          longest := dimension.last.column } := by
    change (handler.withText (some [])).startDimension { ref := some dimension.text } = _
    simp only [Myhandler.startDimension, dimension.lastCorner, covertRowIdtoInt_reference]
  rw [DimensionElement.events, run_cons_of_ok _ _ started, run_singleton]
  rfl

theorem Worksheet.width_lt (sheet : Worksheet) : sheet.width < 2 ^ 31 := by
  rw [Worksheet.width]
  cases sheet.dimension with
  | none => decide
  | some dimension => exact dimension.last.fits

/-- Before the first row, a fresh handler knows the width and holds no list. -/
theorem run_headEvents (sst : SharedStringsTable) (sheet : Worksheet) :
    ∃ handler, (reader sst).run {} sheet.headEvents = .ok handler ∧
      Between sheet.width handler ⟨[], none⟩ := by
  obtain ⟨text, before⟩ := run_fillers sst {} sheet.before
  rw [Worksheet.headEvents, run_append_of_ok _ _ before]
  cases corner : sheet.dimension with
  | none =>
      obtain ⟨later, after⟩ := run_fillers sst (Myhandler.withText {} text) sheet.trailing
      refine ⟨_, after, rfl, ?_, rfl, rfl, rfl⟩
      simp [Worksheet.width, corner, Myhandler.withText]
  | some dimension =>
      have read := run_dimension sst (Myhandler.withText {} text) dimension
      rw [Option.elim_some, run_append_of_ok _ _ read]
      obtain ⟨later, after⟩ := run_fillers sst _ sheet.trailing
      refine ⟨_, after, rfl, ?_, rfl, rfl, rfl⟩
      simp [Worksheet.width, corner, Myhandler.withText]

/-- Parsing a worksheet refines the abstract reading of its rows. -/
theorem parse_rows (sst : SharedStringsTable) (sheet : Worksheet) (rows : List RowElement) :
    Agree (Between sheet.width) (parse sst {} (sheet.headEvents ++ rows.flatMap RowElement.events))
      ((sheetReader sst sheet.width).run ⟨[], none⟩ rows) := by
  obtain ⟨handler, reached, between⟩ := run_headEvents sst sheet
  rw [parse, run_append_of_ok _ _ reached]
  exact (row_refines sst sheet.width_lt).run between rows

end Projs.Poi

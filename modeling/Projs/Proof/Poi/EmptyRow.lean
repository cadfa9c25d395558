import Projs.Proof.Poi.SheetContents

namespace Projs.Poi
open Java LabelledMachine

/-- Each row element gives one list as long as the width and as the row, besides the blank lists. -/
def ReadsEveryRow (sst : SharedStringsTable) (sheet : Worksheet) : Prop :=
  ∃ handler line, parse sst {} sheet.events = .ok handler ∧
    handler.container = arrange line none sheet.rows ∧
      ∀ row ∈ sheet.rows, (line row).length = max sheet.width row.lastColumn

/-- A row that builds a list has a cell. -/
theorem cells_ne_nil_of_build {sst : SharedStringsTable} {width : Nat} {row : RowElement}
    {list : List JavaString} (built : row.build sst width = .ok list) : row.cells ≠ [] := by
  intro empty
  simp only [RowElement.build, empty, run_nil, if_true] at built
  cases built

/-- Every row is read like any other exactly when no row element is without cells. -/
theorem readsEveryRow_iff (sst : SharedStringsTable) (sheet : Worksheet)
    (increasing : ∀ row ∈ sheet.rows, row.Increasing)
    (resolves : ∀ row ∈ sheet.rows, ∀ cell ∈ row.cells, cell.Resolves sst) :
    ReadsEveryRow sst sheet ↔ ∀ row ∈ sheet.rows, row.cells ≠ [] := by
  constructor
  · rintro ⟨handler, line, parsed, _, _⟩ row member
    exact cells_ne_nil_of_build ((parse_built parsed).1 row member)
  · intro filled
    obtain ⟨handler, parsed, _, arranged⟩ := parse_arrange sheet fun row member =>
      row.build_line sheet.width (filled row member) (increasing row member) (resolves row member)
    exact ⟨handler, _, parsed, arranged, fun row _ => row.line_length sst sheet.width⟩

theorem readsEveryRow_sampleSheet :
    ReadsEveryRow sampleTable sampleSheet ↔ ∀ row ∈ sampleSheet.rows, row.cells ≠ [] :=
  readsEveryRow_iff sampleTable sampleSheet (by decide) (by decide)

/-- The second row of this sheet only carries a style. -/
def emptyRowSheet : Worksheet where
  before := []
  dimension := none
  trailing := []
  rows := [rowAt 0 [cellAt 0 1 none (some [literal "x"])], rowAt 1 []]
  increasing := by decide

/-- The empty row stops the handler with a null pointer exception. -/
theorem emptyRowSheet_not_read :
    (∀ row ∈ emptyRowSheet.rows, row.Increasing) ∧
      (∀ row ∈ emptyRowSheet.rows, ∀ cell ∈ row.cells, cell.Resolves sampleTable) ∧
      parse sampleTable {} emptyRowSheet.events = .error .nullPointer ∧
      ¬ ReadsEveryRow sampleTable emptyRowSheet := by
  have stopped : parse sampleTable {} emptyRowSheet.events = .error .nullPointer := by decide
  refine ⟨by decide, by decide, stopped, ?_⟩
  rintro ⟨handler, line, parsed, _, _⟩
  rw [stopped] at parsed
  cases parsed

end Projs.Poi

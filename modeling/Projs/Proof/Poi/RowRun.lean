import Projs.Proof.Poi.CellRun

namespace Projs.Poi
open Java LabelledMachine

/-- The null reference stands for no row yet, and a row id for its number. -/
def LastRow : Option JavaString → Option Nat → Prop
  | none, previous => previous = none
  | some id, previous => ∃ row : RowNumber, id = row.text ∧ previous = some row.number

theorem LastRow.of_text {id : Option JavaString} {row : RowNumber} (same : id = some row.text) :
    LastRow id (some row.number) := by
  rw [same]
  exact ⟨row, rfl, rfl⟩

/-- Between two rows of a sheet, the handler holds the lists read so far. -/
structure Between (width : Nat) (handler : Myhandler) (layout : SheetLayout) : Prop where
  container : handler.container = layout.lists
  longest : handler.longest = width
  lastRowid : LastRow handler.lastRowid layout.previous
  hasV : handler.hasV = false
  lastCellid : handler.lastCellid = none

theorem Between.withText {width : Nat} {handler : Myhandler} {layout : SheetLayout}
    (between : Between width handler layout) (text : Option JavaString) :
    Between width (handler.withText text) layout :=
  ⟨between.container, between.longest, between.lastRowid, between.hasV, between.lastCellid⟩

/-- This handler has stored the lists before a row and started the row. -/
def Myhandler.rowOpened (handler : Myhandler) (lists : List (List JavaString))
    (number : RowNumber) : Myhandler :=
  { handler with
    container := lists
    lastRowid := some number.text
    currentRow := some [] }

/-- A row start adds an empty list for each missing row and opens an empty row. -/
theorem startRow_between {width : Nat} {handler : Myhandler} {layout : SheetLayout}
    (between : Between width handler layout) (number : RowNumber) :
    handler.startRow { r := some number.text } = .ok (handler.rowOpened
      (layout.lists ++ List.replicate (blanksBefore layout.previous number.number) []) number) := by
  have bound : number.number < 2 ^ 31 := number.fits
  have last := between.lastRowid
  cases rowid : handler.lastRowid with
  | none =>
      rw [rowid] at last
      have start : layout.previous = none := last
      simp only [Myhandler.startRow, rowid, between.container, start]
      rfl
  | some id =>
      rw [rowid] at last
      obtain ⟨upper, same, previous⟩ := last
      have below : upper.number < 2 ^ 31 := upper.fits
      have gap : wrapInt ((number.number : Int) - upper.number) =
          (number.number : Int) - upper.number := wrapInt_of_range (by omega) (by omega)
      have count : (if (number.number : Int) - upper.number > 1 then
          ((number.number : Int) - upper.number - 1).toNat else 0) =
          number.number - upper.number - 1 := by
        split <;> omega
      simp only [Myhandler.startRow, rowid, same, parseIntNullable, Option.bind_some,
        parseInt_rowNumber, bind, Except.bind, pure, Except.pure, gap, count, previous,
        blanksBefore, Option.elim_some, between.container]
      rfl

/-- The start of a row and the content before its first cell open a row in progress. -/
theorem run_startEvents (sst : SharedStringsTable) {width : Nat} {handler : Myhandler}
    {layout : SheetLayout} (between : Between width handler layout) (row : RowElement) :
    ∃ next, (reader sst).run handler row.startEvents = .ok next ∧
      Inside width (layout.lists ++
        List.replicate (blanksBefore layout.previous row.number.number) []) row.number next
        ⟨[], 0⟩ := by
  have started := startRow_between (between.withText (some [])) row.number
  have opened : Inside width (layout.lists ++
      List.replicate (blanksBefore layout.previous row.number.number) []) row.number
      ((handler.withText (some [])).rowOpened _ row.number) ⟨[], 0⟩ :=
    ⟨rfl, between.longest, rfl, between.hasV, rfl, LastCell.of_none between.lastCellid⟩
  obtain ⟨next, filled, inside⟩ := opened.fillers sst row.before
  exact ⟨next, (run_cons_of_ok _ _ started).trans filled, inside⟩

theorem reader_endRow (sst : SharedStringsTable) (handler : Myhandler) :
    (reader sst).run handler [.endElement .row] = handler.endRow := run_singleton _ _ _

/-- A row end needs a last cell; it pads the row to the width and stores it. -/
theorem endRow_inside {width : Nat} {lists : List (List JavaString)} {number : RowNumber}
    {handler : Myhandler} {layout : RowLayout} (inside : Inside width lists number handler layout)
    (fits : width < 2 ^ 31) :
    Agree (Between width) handler.endRow
      (if layout.last = 0 then .error .nullPointer
      else .ok ⟨lists ++ [layout.padded width], some number.number⟩) := by
  have last := inside.lastCellid
  cases cellid : handler.lastCellid with
  | none =>
      rw [cellid] at last
      rw [if_pos (show layout.last = 0 from last)]
      simp only [Myhandler.endRow, cellid, covertNullable]
      exact .error _
  | some id =>
      rw [cellid] at last
      obtain ⟨reference, same, column⟩ := last
      have positive := reference.column_pos
      rw [if_neg (by omega)]
      by_cases short : layout.last < width
      · have less : (reference.column : Int) < handler.longest := by rw [inside.longest]; omega
        have pad : wrapInt (handler.longest -
            min (layout.entries.length : Int) (reference.column : Int)) =
            (width : Int) - min (layout.entries.length : Int) (reference.column : Int) := by
          rw [inside.longest]
          exact wrapInt_of_range (by omega) (by omega)
        have count : ((width : Int) - min (layout.entries.length : Int)
            (reference.column : Int)).toNat = width - min layout.entries.length layout.last := by
          omega
        simp only [Myhandler.endRow, cellid, covertNullable, same, covertRowIdtoInt_reference,
          bind, Except.bind, less, if_true, inside.currentRow, pad]
        rw [addToRow_some _ _ _ _ inside.currentRow, count]
        simp only [pure, Except.pure, inside.container]
        rw [RowLayout.padded, if_pos short]
        exact .ok ⟨rfl, inside.longest, LastRow.of_text inside.lastRowid, inside.hasV, rfl⟩
      · have enough : ¬ (reference.column : Int) < handler.longest := by
          rw [inside.longest]; omega
        simp only [Myhandler.endRow, cellid, covertNullable, same, covertRowIdtoInt_reference,
          bind, Except.bind, enough, if_false, inside.currentRow, pure, Except.pure,
          inside.container]
        rw [RowLayout.padded, if_neg short]
        exact .ok ⟨rfl, inside.longest, LastRow.of_text inside.lastRowid, inside.hasV, rfl⟩

/-- One abstract step places what its cell contributes. -/
theorem rowReader_step_ok_iff {sst : SharedStringsTable} {layout next : RowLayout}
    {cell : CellElement} : (rowReader sst).step layout cell = .ok next ↔
      ∃ added, cell.contents sst = .ok added ∧ layout.place cell.column added = next := by
  simp only [rowReader]
  cases cell.contents sst with
  | ok added => simp
  | error fault => simp

/-- After a sequence of cells, the row in progress ends at the column of the last one. -/
theorem rowReader_last {sst : SharedStringsTable} {layout final : RowLayout}
    {cells : List CellElement} (read : (rowReader sst).run layout cells = .ok final) :
    final.last = columnAfter layout.last cells := by
  induction cells generalizing layout with
  | nil =>
      cases read
      rfl
  | cons cell rest ih =>
      obtain ⟨next, stepped, later⟩ := (run_cons_ok_iff (rowReader sst)).mp read
      obtain ⟨added, _, placed⟩ := rowReader_step_ok_iff.mp stepped
      rw [ih later, ← placed]
      rfl

theorem CellElement.column_pos (cell : CellElement) : 0 < cell.column := cell.reference.column_pos

theorem columnAfter_pos {column : Nat} (cells : List CellElement) (positive : 0 < column) :
    0 < columnAfter column cells := by
  induction cells generalizing column with
  | nil => exact positive
  | cons cell rest ih => exact ih cell.column_pos

/-- Only a row without cells ends without a last column. -/
theorem columnAfter_eq_zero_iff (cells : List CellElement) :
    columnAfter 0 cells = 0 ↔ cells = [] := by
  cases cells with
  | nil => simp [columnAfter]
  | cons cell rest =>
      have positive := columnAfter_pos rest cell.column_pos
      simp only [columnAfter, reduceCtorEq, iff_false]
      omega

/-- The handler's events for one row, up to its end, refine the abstract step on the sheet. -/
theorem row_ownEvents (sst : SharedStringsTable) {width : Nat} (fits : width < 2 ^ 31)
    {handler : Myhandler} {layout : SheetLayout} (between : Between width handler layout)
    (row : RowElement) :
    Agree (Between width) ((reader sst).run handler row.ownEvents)
      ((sheetReader sst width).step layout row) := by
  obtain ⟨opened, started, inside⟩ := run_startEvents sst between row
  have cells := (cell_refines sst width _ row.number).run inside row.cells
  rw [RowElement.ownEvents, run_append_of_ok _ _ started]
  simp only [sheetReader, RowElement.build]
  cases read : (rowReader sst).run ⟨[], 0⟩ row.cells with
  | error fault =>
      rw [read] at cells
      rw [run_append_of_error _ _ cells.of_error]
      exact .error fault
  | ok final =>
      rw [read] at cells
      obtain ⟨middle, reached, held⟩ := cells.of_ok
      have ended := endRow_inside held fits
      rw [rowReader_last read] at ended
      rw [run_append_of_ok _ _ reached]
      by_cases empty : row.cells = []
      · rw [if_pos ((columnAfter_eq_zero_iff row.cells).mpr empty)] at ended
        rw [reader_endRow]
        simpa only [empty, if_true] using ended
      · rw [if_neg (fun absent => empty ((columnAfter_eq_zero_iff row.cells).mp absent))] at ended
        rw [reader_endRow]
        simpa only [empty, if_false] using ended

/-- The handler's events for one row refine the abstract step on the sheet. -/
theorem row_refines (sst : SharedStringsTable) {width : Nat} (fits : width < 2 ^ 31) :
    (reader sst).Refines (sheetReader sst width) (Between width) RowElement.events := by
  intro handler layout row between
  have own := row_ownEvents sst fits between row
  rw [RowElement.events]
  cases stepped : (sheetReader sst width).step layout row with
  | error fault =>
      rw [stepped] at own
      rw [run_append_of_error _ _ own.of_error]
      exact .error fault
  | ok next =>
      rw [stepped] at own
      obtain ⟨middle, reached, held⟩ := own.of_ok
      obtain ⟨text, filled⟩ := run_fillers sst middle row.trailing
      rw [run_append_of_ok _ _ reached, filled]
      exact .ok (held.withText text)

end Projs.Poi

import Projs.Proof.Poi.RowContents
import Projs.Proof.Poi.SheetRun

namespace Projs.Poi
open Java LabelledMachine

theorem sheetReader_step_of_build {sst : SharedStringsTable} {width : Nat} {row : RowElement}
    {list : List JavaString} (layout : SheetLayout) (built : row.build sst width = .ok list) :
    (sheetReader sst width).step layout row = .ok ⟨layout.lists ++
      List.replicate (blanksBefore layout.previous row.number.number) [] ++ [list],
      some row.number.number⟩ := by
  simp only [sheetReader, built]

theorem build_of_sheetReader_step {sst : SharedStringsTable} {width : Nat} {row : RowElement}
    {layout next : SheetLayout} (stepped : (sheetReader sst width).step layout row = .ok next) :
    ∃ list, row.build sst width = .ok list := by
  simp only [sheetReader] at stepped
  cases built : row.build sst width with
  | ok list => exact ⟨list, rfl⟩
  | error fault =>
      rw [built] at stepped
      cases stepped

/-- When every row builds its list, the sheet arranges these lists. -/
theorem sheetReader_arrange {sst : SharedStringsTable} {width : Nat}
    {line : RowElement → List JavaString} {rows : List RowElement} (layout : SheetLayout)
    (builds : ∀ row ∈ rows, row.build sst width = .ok (line row)) :
    ∃ previous, (sheetReader sst width).run layout rows =
      .ok ⟨layout.lists ++ arrange line layout.previous rows, previous⟩ := by
  induction rows generalizing layout with
  | nil => exact ⟨layout.previous, by simp [arrange]⟩
  | cons row rest ih =>
      have stepped := sheetReader_step_of_build layout (builds row List.mem_cons_self)
      obtain ⟨previous, read⟩ := ih ⟨layout.lists ++
        List.replicate (blanksBefore layout.previous row.number.number) [] ++ [line row],
        some row.number.number⟩ (fun other member => builds other (List.mem_cons_of_mem _ member))
      refine ⟨previous, ?_⟩
      rw [run_cons_of_ok _ _ stepped, read]
      simp [arrange, List.append_assoc]

/-- A sheet that is read to its end has built a list for each of its rows. -/
theorem sheetReader_builds {sst : SharedStringsTable} {width : Nat} {rows : List RowElement}
    {layout final : SheetLayout} (read : (sheetReader sst width).run layout rows = .ok final) :
    ∀ row ∈ rows, ∃ list, row.build sst width = .ok list := by
  induction rows generalizing layout with
  | nil => simp
  | cons row rest ih =>
      obtain ⟨next, stepped, later⟩ := (run_cons_ok_iff (sheetReader sst width)).mp read
      intro other member
      rcases List.mem_cons.mp member with rfl | behind
      · exact build_of_sheetReader_step stepped
      · exact ih later other behind

/-- When every row builds its list, reading these rows succeeds and arranges the lists. -/
theorem parse_rows_arrange {sst : SharedStringsTable} (sheet : Worksheet)
    {line : RowElement → List JavaString} {rows : List RowElement}
    (builds : ∀ row ∈ rows, row.build sst sheet.width = .ok (line row)) :
    ∃ handler, parse sst {} (sheet.headEvents ++ rows.flatMap RowElement.events) = .ok handler ∧
      handler.longest = sheet.width ∧ handler.container = arrange line none rows := by
  obtain ⟨previous, read⟩ := sheetReader_arrange ⟨[], none⟩ builds
  have agree := parse_rows sst sheet rows
  rw [read] at agree
  obtain ⟨handler, parsed, between⟩ := agree.of_ok
  exact ⟨handler, parsed, between.longest, between.container⟩

/-- When every row builds its list, the parse succeeds and the container arranges the lists. -/
theorem parse_arrange {sst : SharedStringsTable} (sheet : Worksheet)
    {line : RowElement → List JavaString}
    (builds : ∀ row ∈ sheet.rows, row.build sst sheet.width = .ok (line row)) :
    ∃ handler, parse sst {} sheet.events = .ok handler ∧ handler.longest = sheet.width ∧
      handler.container = arrange line none sheet.rows := parse_rows_arrange sheet builds

/-- A row's list, or the empty list when the row stops the handler. -/
def RowElement.built (sst : SharedStringsTable) (width : Nat) (row : RowElement) :
    List JavaString :=
  match row.build sst width with
  | .ok list => list
  | .error _ => []

/-- A successful parse has built each row, and its container arranges what was built. -/
theorem parse_built {sst : SharedStringsTable} {sheet : Worksheet} {rows : List RowElement}
    {handler : Myhandler}
    (parsed : parse sst {} (sheet.headEvents ++ rows.flatMap RowElement.events) = .ok handler) :
    (∀ row ∈ rows, row.build sst sheet.width = .ok (row.built sst sheet.width)) ∧
      handler.container = arrange (RowElement.built sst sheet.width) none rows := by
  have agree := parse_rows sst sheet rows
  rw [parsed] at agree
  obtain ⟨final, read, between⟩ := agree.ok_of_ok
  have builds : ∀ row ∈ rows, row.build sst sheet.width = .ok (row.built sst sheet.width) := by
    intro row member
    obtain ⟨list, built⟩ := sheetReader_builds read row member
    simp only [RowElement.built, built]
  obtain ⟨previous, arranged⟩ := sheetReader_arrange ⟨[], none⟩ builds
  rw [arranged] at read
  cases read
  exact ⟨builds, between.container⟩

/-- Reading a sheet of resolved cells loses, moves and invents nothing: the parse succeeds, each
row has one entry for each column, and each missing row has one empty list. -/
theorem parse_contents (sst : SharedStringsTable) (sheet : Worksheet)
    (filled : ∀ row ∈ sheet.rows, row.cells ≠ [])
    (increasing : ∀ row ∈ sheet.rows, row.Increasing)
    (resolves : ∀ row ∈ sheet.rows, ∀ cell ∈ row.cells, cell.Resolves sst) :
    ∃ handler, parse sst {} sheet.events = .ok handler ∧
      handler.container = arrange (RowElement.line sst sheet.width) none sheet.rows := by
  obtain ⟨handler, parsed, _, arranged⟩ := parse_arrange sheet fun row member =>
    row.build_line sheet.width (filled row member) (increasing row member) (resolves row member)
  exact ⟨handler, parsed, arranged⟩

/-- This cell has a letter, where A is zero, and a digit as its reference. -/
def cellAt (letter digit : Nat) (type : Option JavaString) (v : Option (List JavaString)) :
    CellElement where
  reference := {
    letters := [Fin.ofNat 26 letter]
    digits := [Fin.ofNat 10 digit]
    named := List.cons_ne_nil _ _
    numbered := List.cons_ne_nil _ _
    fits := by
      generalize Fin.ofNat 26 letter = only
      revert only
      decide }
  type := type
  before := []
  v := v
  after := []
  trailing := []

/-- This row has a number of rows above it, and the cells it is given. -/
def rowAt (above : Nat) (cells : List CellElement) : RowElement where
  number := {
    digits := [(Fin.ofNat 9 above).succ]
    positive := by
      generalize Fin.ofNat 9 above = only
      revert only
      decide
    fits := by
      generalize Fin.ofNat 9 above = only
      revert only
      decide }
  before := []
  cells := cells
  trailing := []

/-- This sheet has a dimension, a missing row, a missing cell, a shared string and a cut text. -/
def sampleSheet : Worksheet where
  before := []
  dimension := some ⟨none, (cellAt 2 3 none none).reference⟩
  trailing := []
  rows := [
    rowAt 0 [cellAt 0 1 none (some [literal "x", literal "y"]),
      cellAt 2 1 (some (literal "s")) (some [literal "0"])],
    rowAt 2 [cellAt 1 3 none none]]
  increasing := by decide

def sampleTable : SharedStringsTable := fun idx => if idx = 0 then some (literal "shared") else none

/-- The small sheet meets the conditions, and its three lists are read as expected. -/
theorem parse_contents_sampleSheet :
    ∃ handler, parse sampleTable {} sampleSheet.events = .ok handler ∧
      handler.container = arrange (RowElement.line sampleTable sampleSheet.width) none
        sampleSheet.rows :=
  parse_contents sampleTable sampleSheet (by decide) (by decide) (by decide)

example : (parse sampleTable {} sampleSheet.events).toOption.map Myhandler.container =
    some [[literal "xy", [], literal "shared"], [], [[], [], []]] := by decide

end Projs.Poi

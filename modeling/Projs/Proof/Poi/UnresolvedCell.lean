import Projs.Proof.Poi.SheetContents

namespace Projs.Poi
open Java LabelledMachine

/-- These events of a row end with the end of one of its cells. -/
def RowElement.eventsThrough (row : RowElement) (before : List CellElement) (cell : CellElement) :
    List Event :=
  row.startEvents ++ (before.flatMap CellElement.events ++ cell.ownEvents)

/-- Right after the end of a cell, the row in progress is as long as the cell's column number. -/
def AlignedThrough (sst : SharedStringsTable) (handler : Myhandler) (row : RowElement)
    (before : List CellElement) (cell : CellElement) : Prop :=
  ∃ inside entries id, parse sst handler (row.eventsThrough before cell) = .ok inside ∧
    inside.currentRow = some entries ∧ inside.lastCellid = some id ∧
    (entries.length : Int) = covertRowIdtoInt id

/-- The handler reads a row to its end, is aligned right after each cell, and stores a list with
every resolved text at its own column. -/
structure KeepsColumns (sst : SharedStringsTable) (handler : Myhandler) (row : RowElement) :
    Prop where
  aligned : ∀ before cell after, row.cells = before ++ cell :: after →
    AlignedThrough sst handler row before cell
  stored : ∃ next list, parse sst handler row.ownEvents = .ok next ∧
    next.container.getLast? = some list ∧ (list.length : Int) = max handler.longest row.lastColumn ∧
    ∀ cell ∈ row.cells, cell.Resolves sst → list[cell.column - 1]? = some (cell.text sst)

/-- Reading up to the end of a cell refines the abstract reading of the cells so far. -/
theorem parse_eventsThrough_row (sst : SharedStringsTable) {width : Nat} {handler : Myhandler}
    {layout : SheetLayout} (between : Between width handler layout) (row : RowElement)
    (before : List CellElement) (cell : CellElement) :
    Agree (Inside width (layout.lists ++
        List.replicate (blanksBefore layout.previous row.number.number) []) row.number)
      (parse sst handler (row.eventsThrough before cell))
      ((rowReader sst).run ⟨[], 0⟩ (before ++ [cell])) := by
  obtain ⟨opened, started, inside⟩ := run_startEvents sst between row
  have cells := (cell_refines sst width _ row.number).run inside before
  rw [parse, RowElement.eventsThrough, run_append_of_ok _ _ started]
  cases read : (rowReader sst).run ⟨[], 0⟩ before with
  | error fault =>
      rw [read] at cells
      rw [run_append_of_error _ _ cells.of_error, run_append_of_error _ _ read]
      exact .error fault
  | ok middle =>
      rw [read] at cells
      obtain ⟨reached, same, held⟩ := cells.of_ok
      rw [run_append_of_ok _ _ same, run_append_of_ok _ _ read, run_singleton]
      exact cell_ownEvents sst held cell

/-- The handler is aligned right after a cell when the cells so far fill their columns. -/
theorem alignedThrough_iff {sst : SharedStringsTable} {width : Nat} {handler : Myhandler}
    {layout : SheetLayout} (between : Between width handler layout) (row : RowElement)
    (before : List CellElement) (cell : CellElement) :
    AlignedThrough sst handler row before cell ↔
      ∃ final, (rowReader sst).run ⟨[], 0⟩ (before ++ [cell]) = .ok final ∧
        final.entries.length = final.last := by
  have agree := parse_eventsThrough_row sst between row before cell
  constructor
  · intro aligned
    obtain ⟨inside, entries, id, parsed, current, last, length⟩ := aligned
    rw [parsed] at agree
    obtain ⟨final, read, held⟩ := agree.ok_of_ok
    refine ⟨final, read, ?_⟩
    have cellid := held.lastCellid
    rw [last] at cellid
    obtain ⟨reference, same, column⟩ := cellid
    rw [same, covertRowIdtoInt_reference] at length
    have filled := held.currentRow
    rw [current, Option.some.injEq] at filled
    rw [← filled, ← column]
    exact_mod_cast length
  · intro filled
    obtain ⟨final, read, length⟩ := filled
    rw [read] at agree
    obtain ⟨inside, parsed, held⟩ := agree.of_ok
    have cellid := held.lastCellid
    have column : final.last = columnAfter 0 (before ++ [cell]) := rowReader_last read
    have positive : columnAfter 0 (before ++ [cell]) ≠ 0 := by
      rw [ne_eq, columnAfter_eq_zero_iff]
      simp
    cases last : inside.lastCellid with
    | none =>
        rw [last] at cellid
        exact absurd (column.symm.trans cellid) positive
    | some id =>
        rw [last] at cellid
        obtain ⟨reference, same, placed⟩ := cellid
        refine ⟨inside, final.entries, id, parsed, held.currentRow, last, ?_⟩
        rw [same, covertRowIdtoInt_reference, length, placed]

/-- In increasing columns, the entry of a cell's column is the cell's text. -/
theorem entryAt_of_mem {sst : SharedStringsTable} {cells : List CellElement}
    (increasing : cells.Pairwise fun left right => left.column < right.column)
    {cell : CellElement} (member : cell ∈ cells) :
    entryAt sst cells cell.column = cell.text sst := by
  induction cells with
  | nil => cases member
  | cons head rest ih =>
      obtain ⟨later, tail⟩ := List.pairwise_cons.mp increasing
      rcases List.mem_cons.mp member with rfl | behind
      · exact entryAt_cons_self sst cell rest
      · have after := later cell behind
        rw [entryAt_cons_of_ne sst head rest (by omega)]
        exact ih tail behind

/-- The line of a row holds each cell's text at the cell's column. -/
theorem RowElement.line_getElem (sst : SharedStringsTable) (width : Nat) {row : RowElement}
    (increasing : row.Increasing) {cell : CellElement} (member : cell ∈ row.cells) :
    (row.line sst width)[cell.column - 1]? = some (cell.text sst) := by
  have positive := cell.column_pos
  have inside : cell.column ≤ row.lastColumn :=
    (columnAfter_ge increasing fun other _ => other.column_pos).2 cell member
  rw [RowElement.line, List.getElem?_map, List.getElem?_range (by omega), Option.map_some,
    show cell.column - 1 + 1 = cell.column by omega, entryAt_of_mem increasing member]

/-- A cell behind filled columns fills the columns up to its own only with a text to add. -/
theorem resolves_of_filled {sst : SharedStringsTable} {cell : CellElement}
    {layout next : RowLayout} (filled : layout.entries.length = layout.last)
    (above : layout.last < cell.column) (stepped : (rowReader sst).step layout cell = .ok next)
    (length : next.entries.length = next.last) : cell.Resolves sst := by
  obtain ⟨added, contents, placed⟩ := rowReader_step_ok_iff.mp stepped
  subst placed
  by_contra broken
  rcases CellElement.contents_of_not_resolves broken with nothing | stopped
  · rw [nothing] at contents
    cases contents
    rw [RowLayout.place_length, RowLayout.place_last, List.length_nil] at length
    omega
  · rw [stopped] at contents
    cases contents

/-- When every cell of a row leaves filled columns behind, every cell resolves. -/
theorem resolves_of_aligned {sst : SharedStringsTable} {row : RowElement}
    (increasing : row.Increasing)
    (filled : ∀ before cell after, row.cells = before ++ cell :: after →
      ∃ final, (rowReader sst).run ⟨[], 0⟩ (before ++ [cell]) = .ok final ∧
        final.entries.length = final.last) :
    ∀ cell ∈ row.cells, cell.Resolves sst := by
  intro cell member
  obtain ⟨before, after, split⟩ := List.append_of_mem member
  have start : ∃ layout, (rowReader sst).run ⟨[], 0⟩ before = .ok layout ∧
      layout.entries.length = layout.last := by
    rcases List.eq_nil_or_concat before with rfl | ⟨first, last, rfl⟩
    · exact ⟨⟨[], 0⟩, rfl, rfl⟩
    · rw [List.concat_eq_append] at split ⊢
      exact filled first last (cell :: after) (by simpa using split)
  obtain ⟨layout, read, aligned⟩ := start
  obtain ⟨final, reached, length⟩ := filled before cell after split
  rw [run_append_of_ok _ _ read, run_singleton] at reached
  have above : layout.last < cell.column := by
    have column : layout.last = columnAfter 0 before := rowReader_last read
    have positive := cell.column_pos
    have bound : columnAfter 0 before ≤ cell.column - 1 := by
      apply columnAfter_le (Nat.zero_le _)
      intro other earlier
      have order := increasing
      rw [RowElement.Increasing, split, List.pairwise_append] at order
      have less := order.2.2 other earlier cell List.mem_cons_self
      omega
    omega
  exact resolves_of_filled aligned above reached length

/-- A row of resolved cells is read and stored at its own columns. -/
theorem stored_of_resolves {sst : SharedStringsTable} {width : Nat} {handler : Myhandler}
    {layout : SheetLayout} (fits : width < 2 ^ 31) (between : Between width handler layout)
    {row : RowElement} (filled : row.cells ≠ []) (increasing : row.Increasing)
    (resolves : ∀ cell ∈ row.cells, cell.Resolves sst) :
    ∃ next list, parse sst handler row.ownEvents = .ok next ∧
      next.container.getLast? = some list ∧
      (list.length : Int) = max handler.longest row.lastColumn ∧
      ∀ cell ∈ row.cells, cell.Resolves sst →
        list[cell.column - 1]? = some (cell.text sst) := by
  have built := row.build_line width filled increasing resolves
  have own := row_ownEvents sst fits between row
  rw [sheetReader_step_of_build layout built] at own
  obtain ⟨next, parsed, held⟩ := own.of_ok
  refine ⟨next, row.line sst width, parsed, ?_, ?_, ?_⟩
  · rw [held.container, List.getLast?_concat]
  · rw [row.line_length, between.longest]
    omega
  · intro cell member _
    exact row.line_getElem sst width increasing member

/-- A row in increasing columns keeps its columns exactly when every one of its cells resolves. -/
theorem keepsColumns_iff (sst : SharedStringsTable) (sheet : Worksheet) (before : List RowElement)
    (row : RowElement) (handler : Myhandler)
    (reached : parse sst {} (sheet.headEvents ++ before.flatMap RowElement.events) = .ok handler)
    (filled : row.cells ≠ []) (increasing : row.Increasing) :
    KeepsColumns sst handler row ↔ ∀ cell ∈ row.cells, cell.Resolves sst := by
  have agree := parse_rows sst sheet before
  rw [reached] at agree
  obtain ⟨layout, _, between⟩ := agree.ok_of_ok
  constructor
  · intro keeps
    apply resolves_of_aligned increasing
    intro first cell after split
    exact (alignedThrough_iff between row first cell).mp (keeps.aligned first cell after split)
  · intro resolves
    refine ⟨?_, stored_of_resolves sheet.width_lt between filled increasing resolves⟩
    intro first cell after split
    apply (alignedThrough_iff between row first cell).mpr
    have regroup : row.cells = first ++ [cell] ++ after := by simp [split]
    have order := increasing
    rw [RowElement.Increasing, regroup] at order
    have read := rowReader_line (show (RowLayout.mk [] 0).entries.length = 0 from rfl)
      (fun other _ => other.column_pos) (List.pairwise_append.mp order).1
      (fun other member => resolves other (regroup ▸ List.mem_append_left _ member))
    refine ⟨_, read, ?_⟩
    simp

/-- A shared string cell in column A stands before a text in column B. -/
def sharedRow (index : JavaString) : RowElement :=
  rowAt 0 [cellAt 0 1 (some (literal "s")) (some [index]),
    cellAt 1 1 none (some [literal "y"])]

theorem keepsColumns_sharedRow :
    ∃ handler, parse sampleTable {} (sampleSheet.headEvents ++
        sampleSheet.rows.flatMap RowElement.events) = .ok handler ∧
      (KeepsColumns sampleTable handler (sharedRow (literal "0")) ↔
        ∀ cell ∈ (sharedRow (literal "0")).cells, cell.Resolves sampleTable) := by
  have read : (parse sampleTable {} (sampleSheet.headEvents ++
      sampleSheet.rows.flatMap RowElement.events)).isOk = true := by decide
  obtain ⟨handler, parsed⟩ := exists_ok_of_isOk read
  exact ⟨handler, parsed, keepsColumns_iff sampleTable sampleSheet sampleSheet.rows _ handler parsed
    (by decide) (by decide)⟩

/-- An empty index moves the text of column B to column A, and an index past the table's end stops
the handler. -/
theorem sharedRow_not_keepsColumns :
    (sharedRow []).Increasing ∧ (sharedRow (literal "7")).Increasing ∧
      (parse sampleTable {} (sharedRow []).ownEvents).toOption.map Myhandler.container =
        some [[literal "y"]] ∧
      parse sampleTable {} (sharedRow (literal "7")).ownEvents = .error .indexOutOfBounds ∧
      ¬ KeepsColumns sampleTable {} (sharedRow []) ∧
      ¬ KeepsColumns sampleTable {} (sharedRow (literal "7")) := by
  have moved : (parse sampleTable {} (sharedRow []).ownEvents).toOption.map Myhandler.container =
      some [[literal "y"]] := by decide
  have stopped : parse sampleTable {} (sharedRow (literal "7")).ownEvents =
      .error .indexOutOfBounds := by decide
  refine ⟨by decide, by decide, moved, stopped, ?_, ?_⟩
  · intro keeps
    obtain ⟨next, list, parsed, last, length, _⟩ := keeps.stored
    rw [parsed] at moved
    have container : next.container = [[literal "y"]] := Option.some.inj moved
    rw [container] at last
    cases last
    exact absurd length (by decide)
  · intro keeps
    obtain ⟨next, list, parsed, _⟩ := keeps.stored
    rw [stopped] at parsed
    cases parsed

end Projs.Poi

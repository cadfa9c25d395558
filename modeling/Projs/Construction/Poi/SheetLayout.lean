/-
This file states what the handler reads from whole cells, rows and sheets, without its events.
-/

import Projs.Construction.Poi.Worksheet

namespace Projs.Poi
open Java LabelledMachine

/-- A cell adds its text to the row; a shared string index that is no number adds nothing. -/
def CellElement.contents (sst : SharedStringsTable) (cell : CellElement) :
    Except Throwable (List JavaString) :=
  match cell.v with
  | none => .ok [[]]
  | some chunks =>
      if cell.type = some (literal "s") then
        match parseInt chunks.flatten with
        | some idx =>
            match sst idx with
            | some text => .ok [text]
            | none => .error .indexOutOfBounds
        | none => .ok []
      else .ok [chunks.flatten]

/-- A row in progress holds its entries and the column of its last cell, or zero. -/
structure RowLayout where
  entries : List JavaString
  last : Nat
  deriving DecidableEq, Repr

/-- A cell follows empty entries for the columns that the row leaves out before it. -/
def RowLayout.place (layout : RowLayout) (column : Nat) (added : List JavaString) : RowLayout :=
  ⟨layout.entries ++ List.replicate (column - layout.last - 1) [] ++ added, column⟩

@[simp] theorem RowLayout.place_last (layout : RowLayout) (column : Nat)
    (added : List JavaString) : (layout.place column added).last = column := rfl

theorem RowLayout.place_length (layout : RowLayout) (column : Nat) (added : List JavaString) :
    (layout.place column added).entries.length =
      layout.entries.length + (column - layout.last - 1) + added.length := by
  simp [place, Nat.add_assoc]

/-- Each cell places what it contributes at its own column. -/
def rowReader (sst : SharedStringsTable) : Machine RowLayout CellElement Throwable where
  step layout cell :=
    match cell.contents sst with
    | .ok added => .ok (layout.place cell.column added)
    | .error fault => .error fault

/-- The end of a row adds entries when the last cell lies before the sheet's width. -/
def RowLayout.padded (width : Nat) (layout : RowLayout) : List JavaString :=
  if layout.last < width then
    layout.entries ++ List.replicate (width - min layout.entries.length layout.last) []
  else layout.entries

/-- The list of a row element; a row without cells has no last cell to measure. -/
def RowElement.build (sst : SharedStringsTable) (width : Nat) (row : RowElement) :
    Except Throwable (List JavaString) :=
  match (rowReader sst).run ⟨[], 0⟩ row.cells with
  | .ok layout => if row.cells = [] then .error .nullPointer else .ok (layout.padded width)
  | .error fault => .error fault

/-- A sheet in progress holds its lists and the number of its last row element. -/
structure SheetLayout where
  lists : List (List JavaString)
  previous : Option Nat
  deriving DecidableEq, Repr

/-- This is the number of rows that the sheet leaves out before a row. -/
def blanksBefore (previous : Option Nat) (number : Nat) : Nat :=
  previous.elim 0 fun upper => number - upper - 1

/-- Each row's list follows empty lists for the rows that the sheet leaves out before it. -/
def sheetReader (sst : SharedStringsTable) (width : Nat) :
    Machine SheetLayout RowElement Throwable where
  step layout row :=
    match row.build sst width with
    | .ok list =>
        .ok ⟨layout.lists ++ List.replicate (blanksBefore layout.previous row.number.number) [] ++
          [list], some row.number.number⟩
    | .error fault => .error fault

end Projs.Poi

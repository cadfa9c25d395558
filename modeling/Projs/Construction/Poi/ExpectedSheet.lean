/-
This file states which table a worksheet stands for, cell by cell and without any reading order.
-/

import Projs.Construction.Poi.SheetLayout

namespace Projs.Poi
open Java

/-- The value of a shared string cell is the text of an index. -/
def CellElement.indexText (cell : CellElement) : Option JavaString :=
  if cell.type = some (literal "s") then cell.v.map List.flatten else none

/-- A shared string index resolves when it is a number that the table has an entry for. -/
def CellElement.Resolves (sst : SharedStringsTable) (cell : CellElement) : Prop :=
  ∀ text ∈ cell.indexText, ((parseInt text).bind sst).isSome = true

instance (sst : SharedStringsTable) (cell : CellElement) : Decidable (cell.Resolves sst) :=
  inferInstanceAs (Decidable (∀ text ∈ cell.indexText, _))

/-- The text of a cell is its value, or the shared string at that index, or empty. -/
def CellElement.text (sst : SharedStringsTable) (cell : CellElement) : JavaString :=
  match cell.v with
  | none => []
  | some chunks =>
      if cell.type = some (literal "s") then ((parseInt chunks.flatten).bind sst).getD []
      else chunks.flatten

/-- The cells of a row are in increasing columns. -/
def RowElement.Increasing (row : RowElement) : Prop :=
  row.cells.Pairwise fun left right => left.column < right.column

instance (row : RowElement) : Decidable row.Increasing :=
  inferInstanceAs (Decidable (List.Pairwise _ _))

/-- The entry of a column is the text of the cell there, or empty without a cell. -/
def entryAt (sst : SharedStringsTable) (cells : List CellElement) (column : Nat) : JavaString :=
  ((cells.find? fun cell => cell.column == column).map (CellElement.text sst)).getD []

/-- The line of a row has one entry for each column up to the width and up to its last cell. -/
def RowElement.line (sst : SharedStringsTable) (width : Nat) (row : RowElement) :
    List JavaString :=
  (List.range (max width row.lastColumn)).map fun index => entryAt sst row.cells (index + 1)

/-- One list for each row follows one empty list for each missing row number before it. -/
def arrange (line : RowElement → List JavaString) (previous : Option Nat) :
    List RowElement → List (List JavaString)
  | [] => []
  | row :: rest =>
      List.replicate (blanksBefore previous row.number.number) [] ++
        line row :: arrange line (some row.number.number) rest

end Projs.Poi

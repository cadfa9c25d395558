/-
This file describes the worksheets that the parser reports to the handler.
-/

import Projs.Construction.Poi.Myhandler
import Projs.Library.PositionalNumeral

namespace Projs.Poi
open Java PositionalNumeral

/-- A column is named by letters, where A is one and Z is twenty-six. -/
def columnNumber (letters : List (Fin 26)) : Nat :=
  value 26 (letters.map fun letter => letter.val + 1)

def decimalNumber (digits : List (Fin 10)) : Nat := value 10 (digits.map Fin.val)

def letterChar (letter : Fin 26) : JavaChar := UInt16.ofNat (65 + letter.val)

def digitChar (digit : Fin 10) : JavaChar := UInt16.ofNat (48 + digit.val)

def lettersText (letters : List (Fin 26)) : JavaString := letters.map letterChar

def digitsText (digits : List (Fin 10)) : JavaString := digits.map digitChar

/-- A cell reference is a column name and the digits of a row; its column fits an int. -/
structure CellReference where
  letters : List (Fin 26)
  digits : List (Fin 10)
  named : letters ≠ []
  numbered : digits ≠ []
  fits : columnNumber letters < 2 ^ 31

def CellReference.column (reference : CellReference) : Nat := columnNumber reference.letters

def CellReference.text (reference : CellReference) : JavaString :=
  lettersText reference.letters ++ digitsText reference.digits

/-- A row number is a positive int written in decimal digits. -/
structure RowNumber where
  digits : List (Fin 10)
  positive : 0 < decimalNumber digits
  fits : decimalNumber digits < 2 ^ 31

def RowNumber.number (row : RowNumber) : Nat := decimalNumber row.digits

def RowNumber.text (row : RowNumber) : JavaString := digitsText row.digits

/-- Between the parts that count, a sheet holds other elements and text, in any order. -/
inductive Filler where
  | startElement (attributes : Attributes)
  | endElement
  | characters (ch : JavaString)

def Filler.event : Filler → Event
  | .startElement attributes => .startElement .other attributes
  | .endElement => .endElement .other
  | .characters ch => .characters ch

/-- A value reports its text in any number of pieces. -/
def valueEvents (chunks : List JavaString) : List Event :=
  .startElement .v {} :: (chunks.map Event.characters ++ [.endElement .v])

/-- A cell has at most one value, with other content before and after it. -/
structure CellElement where
  reference : CellReference
  type : Option JavaString
  before : List Filler
  v : Option (List JavaString)
  after : List Filler
  /-- This content follows the cell. -/
  trailing : List Filler

def CellElement.column (cell : CellElement) : Nat := cell.reference.column

/-- Behind a sequence of cells, the column is that of the last one. -/
def columnAfter (column : Nat) : List CellElement → Nat
  | [] => column
  | cell :: rest => columnAfter cell.column rest

/-- These events end with the end of the cell. -/
def CellElement.ownEvents (cell : CellElement) : List Event :=
  .startElement .c { r := some cell.reference.text, t := cell.type } ::
    (cell.before.map Filler.event ++ (cell.v.elim [] valueEvents ++
      (cell.after.map Filler.event ++ [.endElement .c])))

def CellElement.events (cell : CellElement) : List Event :=
  cell.ownEvents ++ cell.trailing.map Filler.event

/-- A row element holds cells in document order. -/
structure RowElement where
  number : RowNumber
  before : List Filler
  cells : List CellElement
  trailing : List Filler

/-- This is the column of the last cell in document order, or zero for a row without cells. -/
def RowElement.lastColumn (row : RowElement) : Nat := columnAfter 0 row.cells

def RowElement.startEvents (row : RowElement) : List Event :=
  .startElement .row { r := some row.number.text } :: row.before.map Filler.event

/-- These events end with the end of the row. -/
def RowElement.ownEvents (row : RowElement) : List Event :=
  row.startEvents ++ (row.cells.flatMap CellElement.events ++ [.endElement .row])

def RowElement.events (row : RowElement) : List Event :=
  row.ownEvents ++ row.trailing.map Filler.event

/-- A dimension reference names one corner or two. -/
structure DimensionElement where
  first : Option CellReference
  last : CellReference

def DimensionElement.text (dimension : DimensionElement) : JavaString :=
  dimension.first.elim [] (fun corner => corner.text ++ [0x3A]) ++ dimension.last.text

def DimensionElement.events (dimension : DimensionElement) : List Event :=
  [.startElement .dimension { ref := some dimension.text }, .endElement .dimension]

/-- A worksheet has an optional dimension and rows with strictly increasing numbers. -/
structure Worksheet where
  before : List Filler
  dimension : Option DimensionElement
  trailing : List Filler
  rows : List RowElement
  increasing : rows.Pairwise fun upper lower => upper.number.number < lower.number.number

/-- These events precede the first row. -/
def Worksheet.headEvents (sheet : Worksheet) : List Event :=
  sheet.before.map Filler.event ++ (sheet.dimension.elim [] DimensionElement.events ++
    sheet.trailing.map Filler.event)

def Worksheet.events (sheet : Worksheet) : List Event :=
  sheet.headEvents ++ sheet.rows.flatMap RowElement.events

/-- The width is the column of the dimension's last corner, or zero. -/
def Worksheet.width (sheet : Worksheet) : Nat :=
  sheet.dimension.elim 0 fun dimension => dimension.last.column

end Projs.Poi

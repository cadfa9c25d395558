/-
This file embeds the event handler of `Excel.java`, which reads one worksheet into lists of texts.
-/

import Projs.Construction.Java.Lang
import Projs.Library.LabelledMachine

namespace Projs.Poi
open Java LabelledMachine

/-- The handler knows four element names; every other name is `other`. -/
inductive QName where
  | dimension
  | row
  | c
  | v
  | other
  deriving DecidableEq, Repr

/-- These are the attributes that the handler asks for, with `none` for a missing one. -/
structure Attributes where
  ref : Option JavaString := none
  r : Option JavaString := none
  t : Option JavaString := none
  deriving DecidableEq, Repr

/-- The parser reports a worksheet by these three callbacks. -/
inductive Event where
  | startElement (qName : QName) (attributes : Attributes)
  | endElement (qName : QName)
  | characters (ch : JavaString)
  deriving DecidableEq, Repr

/-- These exceptions can leave the handler. -/
inductive Throwable where
  | nullPointer
  | numberFormat
  | indexOutOfBounds
  deriving DecidableEq, Repr

/-- `getEntryAt` followed by the rich text's `toString`: `none` is the exception for a bad index. -/
abbrev SharedStringsTable := Int → Option JavaString

/-- These are the handler's fields, and the lines that it prints; `none` is the null reference. -/
structure Myhandler where
  container : List (List JavaString) := []
  lastContents : Option JavaString := none
  dimension : Option JavaString := none
  longest : Int := 0
  lastCellid : Option JavaString := none
  lastRowid : Option JavaString := none
  hasV : Bool := false
  currentRow : Option (List JavaString) := none
  isSSTIndex : Bool := false
  printed : List JavaString := []
  deriving DecidableEq, Repr

/-- `Character.isAlphabetic` on the ASCII characters that a cell reference is made of. -/
def isAlphabetic (character : JavaChar) : Bool :=
  (0x41 ≤ character && character ≤ 0x5A) || (0x61 ≤ character && character ≤ 0x7A)

/-- The first loop of `covertRowIdtoInt` keeps the letters read before the last other character. -/
def extractColumn (sb column : JavaString) : JavaString → JavaString
  | [] => column
  | c :: rest =>
      if isAlphabetic c then extractColumn (sb ++ [c]) column rest else extractColumn sb sb rest

/-- The second loop of `covertRowIdtoInt` adds one letter to the column number. -/
def convertColumn (result : Int) : JavaString → Int
  | [] => result
  | c :: rest => convertColumn (wrapInt (result * 26 + ((c.toNat : Int) - 65) + 1)) rest

/-- This is the column number of a cell id, as in `AB7` for column 28. -/
def covertRowIdtoInt (cellId : JavaString) : Int :=
  convertColumn 0 (extractColumn [] [] cellId)

/-- The static call dereferences its argument. -/
def covertNullable : Option JavaString → Except Throwable Int
  | some cellId => .ok (covertRowIdtoInt cellId)
  | none => .error .nullPointer

/-- `Integer.parseInt` rejects the null reference as it rejects any text that is no number. -/
def parseIntNullable (text : Option JavaString) : Except Throwable Int :=
  match text.bind parseInt with
  | some value => .ok value
  | none => .error .numberFormat

/-- A loop of `count` rounds adds one text to the current row in each round. -/
def Myhandler.addToRow (handler : Myhandler) (count : Int) (text : JavaString) :
    Except Throwable Myhandler :=
  if count ≤ 0 then .ok handler
  else
    match handler.currentRow with
    | some row => .ok { handler with currentRow := some (row ++ List.replicate count.toNat text) }
    | none => .error .nullPointer

/-- A dimension start sets the row length from the last corner of the reference. -/
def Myhandler.startDimension (handler : Myhandler) (attributes : Attributes) :
    Except Throwable Myhandler :=
  match attributes.ref with
  | some ref =>
      .ok { handler with
        dimension := some ref
        longest := covertRowIdtoInt (afterFirst 0x3A ref) }
  | none => .error .nullPointer

/-- A row start adds one empty list for each row number that the sheet leaves out. -/
def Myhandler.startRow (handler : Myhandler) (attributes : Attributes) :
    Except Throwable Myhandler := do
  let blanks ← match handler.lastRowid with
    | some lastRowid => do
        let rowNum ← parseIntNullable attributes.r
        let last ← parseIntNullable (some lastRowid)
        let gap := wrapInt (rowNum - last)
        pure (if gap > 1 then (gap - 1).toNat else 0)
    | none => pure 0
  pure { handler with
    container := handler.container ++ List.replicate blanks []
    lastRowid := attributes.r
    currentRow := some [] }

/-- A cell start adds one empty text for each column that the row leaves out before it. -/
def Myhandler.startCell (handler : Myhandler) (attributes : Attributes) :
    Except Throwable Myhandler := do
  let filled ← match handler.lastCellid with
    | some lastCellid => do
        let column ← covertNullable attributes.r
        let gap := wrapInt (column - covertRowIdtoInt lastCellid)
        handler.addToRow (wrapInt (gap - 1)) []
    | none =>
        if attributes.r = some (literal "A1") then pure handler
        else do
          let column ← covertNullable attributes.r
          handler.addToRow (wrapInt (column - 1)) []
  pure { filled with
    lastCellid := attributes.r
    isSSTIndex := decide (attributes.t = some (literal "s")) }

/-- Every start of an element empties the text read so far. -/
def Myhandler.startElement (handler : Myhandler) (qName : QName) (attributes : Attributes) :
    Except Throwable Myhandler :=
  let handler := { handler with lastContents := some [] }
  match qName with
  | .dimension => handler.startDimension attributes
  | .row => handler.startRow attributes
  | .c => handler.startCell attributes
  | .v | .other => .ok handler

/-- A row end pads the current row and stores it. -/
def Myhandler.endRow (handler : Myhandler) : Except Throwable Myhandler := do
  let column ← covertNullable handler.lastCellid
  let padded ←
    if column < handler.longest then
      match handler.currentRow with
      | some row =>
          handler.addToRow (wrapInt (handler.longest - min (row.length : Int) column)) []
      | none => .error .nullPointer
    else pure handler
  -- The stored list and `currentRow` are one object: only a `c` or `v` behind the row end could
  -- still change it, and the parser reports those inside a row, whose start makes a new list.
  -- For the same reason the list exists here.
  match padded.currentRow with
  | some row => pure { padded with container := padded.container ++ [row], lastCellid := none }
  | none => .error .nullPointer

/-- A cell end adds one empty text when the cell had no value. -/
def Myhandler.endCell (handler : Myhandler) : Except Throwable Myhandler := do
  let filled ← if handler.hasV then pure handler else handler.addToRow 1 []
  pure { filled with hasV := false }

/-- A value end adds the text, or the shared string that the text is the index of. -/
def Myhandler.endValue (sst : SharedStringsTable) (handler : Myhandler) :
    Except Throwable Myhandler :=
  let handler := { handler with hasV := true }
  match handler.lastContents with
  | some contents =>
      if handler.isSSTIndex then
        match parseInt contents with
        | some idx =>
            match sst idx with
            | some text => { handler with lastContents := some text }.addToRow 1 text
            | none => .error .indexOutOfBounds
        | none => .ok { handler with printed := handler.printed ++ [contents] }
      else handler.addToRow 1 contents
  -- The start of the value has set the text, so it is never null here.
  | none => .error .nullPointer

/-- An end of an element acts on the row, on the cell or on the value. -/
def Myhandler.endElement (sst : SharedStringsTable) (handler : Myhandler) (qName : QName) :
    Except Throwable Myhandler :=
  match qName with
  | .row => handler.endRow
  | .c => handler.endCell
  | .v => handler.endValue sst
  | .dimension | .other => .ok handler

/-- Text is appended to the text read so far. -/
def Myhandler.characters (handler : Myhandler) (ch : JavaString) : Myhandler :=
  { handler with lastContents := some (handler.lastContents.getD (literal "null") ++ ch) }

/-- The parser feeds its events to the handler and stops at the first exception. -/
def reader (sst : SharedStringsTable) : Machine Myhandler Event Throwable where
  step handler
    | .startElement qName attributes => handler.startElement qName attributes
    | .endElement qName => handler.endElement sst qName
    | .characters ch => .ok (handler.characters ch)

/-- Parsing runs the handler over the events of one worksheet. -/
def parse (sst : SharedStringsTable) (handler : Myhandler) (events : List Event) :
    Except Throwable Myhandler := (reader sst).run handler events

end Projs.Poi

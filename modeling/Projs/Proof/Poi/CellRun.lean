import Projs.Construction.Poi.SheetLayout
import Projs.Proof.Poi.CellReference

namespace Projs.Poi
open Java LabelledMachine

/-- The null reference stands for column zero, and a cell id for the column of its reference. -/
def LastCell : Option JavaString → Nat → Prop
  | none, last => last = 0
  | some id, last => ∃ reference : CellReference, id = reference.text ∧ reference.column = last

theorem LastCell.of_none {id : Option JavaString} (absent : id = none) : LastCell id 0 := by
  rw [absent]
  exact rfl

/-- Between two cells of a row, the handler holds the row in progress. -/
structure Inside (width : Nat) (lists : List (List JavaString)) (number : RowNumber)
    (handler : Myhandler) (layout : RowLayout) : Prop where
  container : handler.container = lists
  longest : handler.longest = width
  lastRowid : handler.lastRowid = some number.text
  hasV : handler.hasV = false
  currentRow : handler.currentRow = some layout.entries
  lastCellid : LastCell handler.lastCellid layout.last

/-- This handler has read another text in its current element. -/
def Myhandler.withText (handler : Myhandler) (text : Option JavaString) : Myhandler :=
  { handler with lastContents := text }

@[simp] theorem withText_withText (handler : Myhandler) (first second : Option JavaString) :
    (handler.withText first).withText second = handler.withText second := rfl

theorem Inside.withText {width : Nat} {lists : List (List JavaString)} {number : RowNumber}
    {handler : Myhandler} {layout : RowLayout} (inside : Inside width lists number handler layout)
    (text : Option JavaString) : Inside width lists number (handler.withText text) layout :=
  ⟨inside.container, inside.longest, inside.lastRowid, inside.hasV, inside.currentRow,
    inside.lastCellid⟩

/-- Other elements and text change only the text read so far. -/
theorem run_fillers (sst : SharedStringsTable) (handler : Myhandler) (fillers : List Filler) :
    ∃ text, (reader sst).run handler (fillers.map Filler.event) = .ok (handler.withText text) := by
  induction fillers generalizing handler with
  | nil => exact ⟨handler.lastContents, rfl⟩
  | cons filler rest ih =>
      cases filler with
      | startElement attributes => exact ih (handler.withText (some []))
      | endElement => exact ih handler
      | characters ch => exact ih (handler.characters ch)

/-- The pieces of a text are read as one text. -/
theorem run_characters (sst : SharedStringsTable) (handler : Myhandler) (text : JavaString)
    (chunks : List JavaString) :
    (reader sst).run (handler.withText (some text)) (chunks.map Event.characters) =
      .ok (handler.withText (some (text ++ chunks.flatten))) := by
  induction chunks generalizing text with
  | nil => simp
  | cons chunk rest ih =>
      have next := ih (text ++ chunk)
      rw [List.append_assoc] at next
      rw [List.map_cons, List.flatten_cons, run_cons_of_ok _ _ rfl]
      exact next

/-- A value hands its whole text to the end of the value, however the text is cut. -/
theorem run_value (sst : SharedStringsTable) (handler : Myhandler) (chunks : List JavaString) :
    (reader sst).run handler (valueEvents chunks) =
      (handler.withText (some chunks.flatten)).endValue sst := by
  have opened : (reader sst).run handler (valueEvents chunks) =
      (reader sst).run (handler.withText (some []))
        (chunks.map Event.characters ++ [.endElement .v]) := rfl
  rw [opened, run_append_of_ok _ _ (run_characters sst handler [] chunks), List.nil_append,
    run_singleton]
  rfl

/-- Adding to an existing row appends the texts. -/
theorem addToRow_some (handler : Myhandler) (count : Int) (text : JavaString)
    (row : List JavaString) (present : handler.currentRow = some row) :
    handler.addToRow count text =
      .ok { handler with currentRow := some (row ++ List.replicate count.toNat text) } := by
  by_cases idle : count ≤ 0
  · rw [Myhandler.addToRow, if_pos idle, Int.toNat_of_nonpos idle, List.replicate_zero,
      List.append_nil, ← present]
  · rw [Myhandler.addToRow, if_neg idle, present]

/-- This handler has filled its row up to a cell and started the cell. -/
def Myhandler.opened (handler : Myhandler) (row : List JavaString) (cell : CellElement) :
    Myhandler :=
  { handler with
    currentRow := some row
    lastCellid := some cell.reference.text
    isSSTIndex := decide (cell.type = some (literal "s")) }

/-- A cell start fills the columns between the last cell and the new one. -/
theorem startCell_inside {width : Nat} {lists : List (List JavaString)} {number : RowNumber}
    {handler : Myhandler} {layout : RowLayout} (inside : Inside width lists number handler layout)
    (cell : CellElement) :
    handler.startCell { r := some cell.reference.text, t := cell.type } =
      .ok (handler.opened
        (layout.entries ++ List.replicate (cell.column - layout.last - 1) []) cell) := by
  have bound : cell.column < 2 ^ 31 := cell.reference.fits
  have positive : 0 < cell.column := cell.reference.column_pos
  have converted : covertRowIdtoInt cell.reference.text = cell.column :=
    covertRowIdtoInt_reference cell.reference
  have last := inside.lastCellid
  cases cellid : handler.lastCellid with
  | none =>
      rw [cellid] at last
      have start : layout.last = 0 := last
      have exact : wrapInt ((cell.column : Int) - 1) = (cell.column : Int) - 1 :=
        wrapInt_of_range (by omega) (by omega)
      by_cases first : cell.reference.text = literal "A1"
      · have one : cell.column = 1 := cell.reference.column_of_text_A1 first
        have idle : cell.column - layout.last - 1 = 0 := by omega
        simp only [Myhandler.startCell, cellid, if_pos (congrArg some first)]
        rw [idle, List.replicate_zero, List.append_nil, Myhandler.opened, ← inside.currentRow]
        rfl
      · have count : ((cell.column : Int) - 1).toNat = cell.column - layout.last - 1 := by
          omega
        simp only [Myhandler.startCell, cellid, Option.some.injEq, first, if_false, covertNullable,
          converted, bind, Except.bind, exact]
        rw [addToRow_some handler _ _ _ inside.currentRow, count]
        rfl
  | some id =>
      rw [cellid] at last
      obtain ⟨previous, same, column⟩ := last
      have below : previous.column < 2 ^ 31 := previous.fits
      have above := previous.column_pos
      have gap : wrapInt ((cell.column : Int) - previous.column) =
          (cell.column : Int) - previous.column := wrapInt_of_range (by omega) (by omega)
      have exact : wrapInt ((cell.column : Int) - previous.column - 1) =
          (cell.column : Int) - previous.column - 1 := wrapInt_of_range (by omega) (by omega)
      have count : ((cell.column : Int) - previous.column - 1).toNat =
          cell.column - layout.last - 1 := by omega
      simp only [Myhandler.startCell, cellid, covertNullable, same, converted,
        covertRowIdtoInt_reference previous,
        bind, Except.bind, gap, exact]
      rw [addToRow_some handler _ _ _ inside.currentRow, count]
      rfl

/-- A step adds texts to the row; only the row, the value flag and the scratch fields change. -/
def Adds (handler : Myhandler) (row : List JavaString) (hasV : Bool) (next : Myhandler)
    (added : List JavaString) : Prop :=
  ∃ text printed, next = { handler with
    lastContents := text
    hasV := hasV
    currentRow := some (row ++ added)
    printed := printed }

/-- The end of a value adds what the cell contributes, or stops with the cell's exception. -/
theorem endValue_adds (sst : SharedStringsTable) (handler : Myhandler) (cell : CellElement)
    (row chunks : List JavaString) (value : cell.v = some chunks)
    (text : handler.lastContents = some chunks.flatten) (current : handler.currentRow = some row)
    (shared : handler.isSSTIndex = decide (cell.type = some (literal "s"))) :
    Agree (Adds handler row true) (handler.endValue sst) (cell.contents sst) := by
  by_cases index : cell.type = some (literal "s")
  · have flag : handler.isSSTIndex = true := by simp [shared, index]
    simp only [Myhandler.endValue, CellElement.contents, value, text, index, flag, if_true]
    cases parsed : parseInt chunks.flatten with
    | none =>
        refine .ok ⟨handler.lastContents, handler.printed ++ [chunks.flatten], ?_⟩
        simp [current, text, flag]
    | some idx =>
        dsimp only
        cases found : sst idx with
        | none => exact .error _
        | some entry =>
            dsimp only
            rw [addToRow_some _ 1 entry row (by exact current), ← flag]
            exact .ok ⟨some entry, handler.printed, rfl⟩
  · have flag : handler.isSSTIndex = false := by simp [shared, index]
    simp only [Myhandler.endValue, CellElement.contents, value, text, index, flag, if_false,
      Bool.false_eq_true]
    rw [addToRow_some _ 1 chunks.flatten row (by exact current), ← flag]
    exact .ok ⟨some chunks.flatten, handler.printed, rfl⟩

theorem reader_endCell (sst : SharedStringsTable) (handler : Myhandler) :
    (reader sst).run handler [.endElement .c] = handler.endCell := run_singleton _ _ _

/-- The end of a cell adds an empty text exactly when the cell had no value. -/
theorem endCell_adds (handler : Myhandler) (row : List JavaString)
    (current : handler.currentRow = some row) :
    handler.endCell = .ok { handler with
      hasV := false
      currentRow := some (row ++ if handler.hasV then [] else [[]]) } := by
  cases flag : handler.hasV with
  | true => simp [Myhandler.endCell, flag, current, pure, Except.pure, bind, Except.bind]
  | false =>
      simp only [Myhandler.endCell, flag, Bool.false_eq_true, if_false]
      rw [addToRow_some handler 1 [] row current]
      rfl

/-- The events behind a cell's start add what the cell contributes. -/
theorem run_cell_body (sst : SharedStringsTable) (handler : Myhandler) (cell : CellElement)
    (row : List JavaString) (current : handler.currentRow = some row)
    (fresh : handler.hasV = false)
    (shared : handler.isSSTIndex = decide (cell.type = some (literal "s"))) :
    Agree (Adds handler row false)
      ((reader sst).run handler (cell.before.map Filler.event ++ (cell.v.elim [] valueEvents ++
        (cell.after.map Filler.event ++ [.endElement .c])))) (cell.contents sst) := by
  obtain ⟨text, before⟩ := run_fillers sst handler cell.before
  rw [run_append_of_ok _ _ before]
  cases value : cell.v with
  | none =>
      obtain ⟨later, after⟩ := run_fillers sst (handler.withText text) cell.after
      have closed := endCell_adds (handler.withText later) row current
      rw [show (handler.withText later).hasV = false from fresh] at closed
      rw [Option.elim_none, List.nil_append, run_append_of_ok _ _ after, withText_withText,
        reader_endCell, closed, CellElement.contents, value]
      exact .ok ⟨later, handler.printed, rfl⟩
  | some chunks =>
      have read := run_value sst (handler.withText text) chunks
      have ended := endValue_adds sst (handler.withText (some chunks.flatten)) cell row
        chunks value rfl current shared
      rw [Option.elim_some]
      cases contents : cell.contents sst with
      | error fault =>
          rw [contents] at ended
          rw [run_append_of_error _ _ (read.trans ended.of_error)]
          exact .error fault
      | ok added =>
          rw [contents] at ended
          obtain ⟨next, reached, middle, printed, same⟩ := ended.of_ok
          obtain ⟨later, after⟩ := run_fillers sst next cell.after
          subst same
          rw [run_append_of_ok _ _ (read.trans reached), run_append_of_ok _ _ after,
            reader_endCell, endCell_adds _ (row ++ added) rfl]
          refine .ok ⟨later, printed, ?_⟩
          simp [Myhandler.withText]

/-- A whole cell takes the row in progress one abstract step further. -/
theorem cell_ownEvents (sst : SharedStringsTable) {width : Nat} {lists : List (List JavaString)}
    {number : RowNumber} {handler : Myhandler} {layout : RowLayout}
    (inside : Inside width lists number handler layout) (cell : CellElement) :
    Agree (Inside width lists number) ((reader sst).run handler cell.ownEvents)
      ((rowReader sst).step layout cell) := by
  have started := startCell_inside (inside.withText (some [])) cell
  rw [CellElement.ownEvents, run_cons_of_ok _ _ started]
  have body := run_cell_body sst ((handler.withText (some [])).opened
    (layout.entries ++ List.replicate (cell.column - layout.last - 1) []) cell) cell _ rfl
    inside.hasV rfl
  simp only [rowReader]
  cases contents : cell.contents sst with
  | error fault =>
      rw [contents] at body
      rw [body.of_error]
      exact .error fault
  | ok added =>
      rw [contents] at body
      obtain ⟨next, reached, text, printed, same⟩ := body.of_ok
      rw [reached, same]
      exact .ok ⟨inside.container, inside.longest, inside.lastRowid, rfl, rfl,
        cell.reference, rfl, rfl⟩

/-- Text and other elements between two cells keep the row in progress. -/
theorem Inside.fillers {width : Nat} {lists : List (List JavaString)} {number : RowNumber}
    {handler : Myhandler} {layout : RowLayout} (inside : Inside width lists number handler layout)
    (sst : SharedStringsTable) (fillers : List Filler) :
    ∃ next, (reader sst).run handler (fillers.map Filler.event) = .ok next ∧
      Inside width lists number next layout := by
  obtain ⟨text, reached⟩ := run_fillers sst handler fillers
  exact ⟨_, reached, inside.withText text⟩

/-- The handler's events for one cell refine the abstract step on the row in progress. -/
theorem cell_refines (sst : SharedStringsTable) (width : Nat) (lists : List (List JavaString))
    (number : RowNumber) :
    (reader sst).Refines (rowReader sst) (Inside width lists number) CellElement.events := by
  intro handler layout cell inside
  have own := cell_ownEvents sst inside cell
  rw [CellElement.events]
  cases stepped : (rowReader sst).step layout cell with
  | error fault =>
      rw [stepped] at own
      rw [run_append_of_error _ _ own.of_error]
      exact .error fault
  | ok next =>
      rw [stepped] at own
      obtain ⟨middle, reached, held⟩ := own.of_ok
      obtain ⟨final, filled, kept⟩ := held.fillers sst cell.trailing
      rw [run_append_of_ok _ _ reached, filled]
      exact .ok kept

end Projs.Poi

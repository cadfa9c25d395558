import Mathlib.Data.List.Forall2
import Projs.Proof.Poi.SheetContents

namespace Projs.Poi
open Java LabelledMachine

/-- These events end with the end of one row of a sheet. -/
def Worksheet.eventsThrough (sheet : Worksheet) (before : List RowElement) (row : RowElement) :
    List Event :=
  sheet.headEvents ++ (before.flatMap RowElement.events ++ row.ownEvents)

/-- Each row's list, which is the last one right after the row's end, stands at its row's index,
and the container ends with the last row. -/
def RowsAtTheirIndex (sst : SharedStringsTable) (sheet : Worksheet) (handler : Myhandler) : Prop :=
  (∀ before row after, sheet.rows = before ++ row :: after →
    ∃ through list, parse sst {} (sheet.eventsThrough before row) = .ok through ∧
      through.container.getLast? = some list ∧
      handler.container[row.number.number - 1]? = some list) ∧
  ∀ before row, sheet.rows = before ++ [row] → handler.container.length = row.number.number

/-- A shared string index that is a number has an entry in the table. -/
def CellElement.InTable (sst : SharedStringsTable) (cell : CellElement) : Prop :=
  ∀ text ∈ cell.indexText, ∀ idx ∈ parseInt text, (sst idx).isSome = true

instance (sst : SharedStringsTable) (cell : CellElement) : Decidable (cell.InTable sst) :=
  inferInstanceAs (Decidable (∀ text ∈ cell.indexText, _))

/-- The row has a cell, and none of its shared string indexes is out of the table. -/
def RowElement.Readable (sst : SharedStringsTable) (row : RowElement) : Prop :=
  row.cells ≠ [] ∧ ∀ cell ∈ row.cells, cell.InTable sst

instance (sst : SharedStringsTable) (row : RowElement) : Decidable (row.Readable sst) :=
  inferInstanceAs (Decidable (_ ∧ _))

/-- Two cells have the same column, type and value. -/
structure CellElement.Same (first second : CellElement) : Prop where
  column : first.column = second.column
  type : first.type = second.type
  v : first.v = second.v

/-- A row is another one that is placed lower by a number of rows. -/
structure RowElement.Lowered (distance : Nat) (row lower : RowElement) : Prop where
  number : lower.number.number = row.number.number + distance
  cells : List.Forall₂ CellElement.Same row.cells lower.cells

/-- A sheet has the same rows as another one, all placed lower by a number of rows. -/
structure Worksheet.Lowered (distance : Nat) (sheet lower : Worksheet) : Prop where
  width : sheet.width = lower.width
  rows : List.Forall₂ (RowElement.Lowered distance) sheet.rows lower.rows

/-- A cell stops the handler exactly when its index is out of the table. -/
theorem contents_ok_iff {sst : SharedStringsTable} {cell : CellElement} :
    (∃ added, cell.contents sst = .ok added) ↔ cell.InTable sst := by
  cases value : cell.v with
  | none => simp [CellElement.contents, CellElement.InTable, CellElement.indexText, value]
  | some chunks =>
      by_cases shared : cell.type = some (literal "s")
      · simp only [CellElement.contents, CellElement.InTable, CellElement.indexText, value, shared,
          if_true, Option.map_some, Option.mem_some_iff, forall_eq']
        cases parsed : parseInt chunks.flatten with
        | none => simp
        | some idx => cases found : sst idx <;> simp [found]
      · simp [CellElement.contents, CellElement.InTable, CellElement.indexText, value, shared]

/-- A sequence of cells is read to its end exactly when every index is in the table. -/
theorem rowReader_ok_iff {sst : SharedStringsTable} {cells : List CellElement}
    (layout : RowLayout) :
    (∃ final, (rowReader sst).run layout cells = .ok final) ↔
      ∀ cell ∈ cells, cell.InTable sst := by
  induction cells generalizing layout with
  | nil => simp
  | cons cell rest ih =>
      simp only [run_cons_ok_iff, rowReader_step_ok_iff, List.forall_mem_cons, ← contents_ok_iff]
      constructor
      · rintro ⟨final, next, ⟨added, contents, rfl⟩, later⟩
        refine ⟨⟨added, contents⟩, fun other member => contents_ok_iff.mpr ?_⟩
        exact (ih _).mp ⟨final, later⟩ other member
      · rintro ⟨⟨added, contents⟩, tail⟩
        obtain ⟨final, later⟩ := (ih (layout.place cell.column added)).mpr fun other member =>
          contents_ok_iff.mp (tail other member)
        exact ⟨final, _, ⟨added, contents, rfl⟩, later⟩

/-- A row builds a list exactly when it is readable. -/
theorem RowElement.build_ok_iff {sst : SharedStringsTable} {width : Nat} {row : RowElement} :
    (∃ list, row.build sst width = .ok list) ↔ row.Readable sst := by
  rw [RowElement.Readable, ← rowReader_ok_iff ⟨[], 0⟩, RowElement.build]
  cases read : (rowReader sst).run ⟨[], 0⟩ row.cells with
  | error fault => simp
  | ok layout =>
      by_cases empty : row.cells = []
      · simp [empty]
      · simp [empty]

/-- The parse of a sheet completes exactly when every row is readable. -/
theorem parse_ok_iff {sst : SharedStringsTable} {sheet : Worksheet} :
    (∃ handler, parse sst {} sheet.events = .ok handler) ↔
      ∀ row ∈ sheet.rows, row.Readable sst := by
  constructor
  · rintro ⟨handler, parsed⟩ row member
    exact RowElement.build_ok_iff.mp ⟨_, (parse_built parsed).1 row member⟩
  · intro readable
    have builds : ∀ row ∈ sheet.rows,
        row.build sst sheet.width = .ok (row.built sst sheet.width) := by
      intro row member
      obtain ⟨list, built⟩ := (@RowElement.build_ok_iff sst sheet.width row).mpr
        (readable row member)
      simp only [RowElement.built, built]
    obtain ⟨handler, parsed, _⟩ := parse_arrange sheet builds
    exact ⟨handler, parsed⟩

/-- Cells with the same columns, types and values are read the same way. -/
theorem rowReader_same (sst : SharedStringsTable) {first second : List CellElement}
    (same : List.Forall₂ CellElement.Same first second) (layout : RowLayout) :
    (rowReader sst).run layout first = (rowReader sst).run layout second := by
  induction same generalizing layout with
  | nil => rfl
  | @cons left right front back head _ ih =>
      have step : (rowReader sst).step layout left = (rowReader sst).step layout right := by
        simp only [rowReader, CellElement.contents, head.column, head.type, head.v]
      rw [run_cons, run_cons, step]
      cases (rowReader sst).step layout right with
      | ok next => exact ih next
      | error fault => rfl

/-- A row that is placed lower builds the same list. -/
theorem RowElement.Lowered.build (sst : SharedStringsTable) (width : Nat) {distance : Nat}
    {row lower : RowElement} (lowered : row.Lowered distance lower) :
    row.build sst width = lower.build sst width := by
  have empty : row.cells = [] ↔ lower.cells = [] := by
    rw [← List.length_eq_zero_iff, lowered.cells.length_eq, List.length_eq_zero_iff]
  simp only [RowElement.build, rowReader_same sst lowered.cells, empty]

/-- The lists of a sheet do not depend on the height at which its rows are placed. -/
theorem arrange_lowered (sst : SharedStringsTable) (width : Nat) {distance : Nat}
    {rows lower : List RowElement} (lowered : List.Forall₂ (RowElement.Lowered distance) rows lower)
    (previous : Option Nat) :
    arrange (RowElement.built sst width) previous rows =
      arrange (RowElement.built sst width) (previous.map (· + distance)) lower := by
  induction lowered generalizing previous with
  | nil => rfl
  | @cons row other front back head _ ih =>
      have blanks : blanksBefore previous row.number.number =
          blanksBefore (previous.map (· + distance)) other.number.number := by
        rw [head.number]
        cases previous with
        | none => rfl
        | some upper =>
            simp only [blanksBefore, Option.map_some, Option.elim_some]
            omega
      rw [arrange, arrange, blanks, ih, Option.map_some, head.number, RowElement.built,
        RowElement.built, head.build sst width]

/-- The same rows at another height are parsed to the same container. -/
theorem Worksheet.Lowered.container {sst : SharedStringsTable} {distance : Nat}
    {sheet lower : Worksheet} (lowered : sheet.Lowered distance lower)
    {handler other : Myhandler} (parsed : parse sst {} sheet.events = .ok handler)
    (read : parse sst {} lower.events = .ok other) : other.container = handler.container := by
  rw [(parse_built parsed).2, (parse_built read).2, ← lowered.width,
    arrange_lowered sst sheet.width lowered.rows none]
  rfl

/-- Behind a sequence of rows, the previous number is that of the last one. -/
def numberAfter (previous : Option Nat) : List RowElement → Option Nat
  | [] => previous
  | row :: rest => numberAfter (some row.number.number) rest

/-- The lists of a sheet's first rows do not depend on the rows behind them. -/
theorem arrange_append (line : RowElement → List JavaString) (previous : Option Nat)
    (first second : List RowElement) :
    arrange line previous (first ++ second) =
      arrange line previous first ++ arrange line (numberAfter previous first) second := by
  induction first generalizing previous with
  | nil => rfl
  | cons row rest ih => simp [arrange, numberAfter, ih]

theorem numberAfter_concat (previous : Option Nat) (rows : List RowElement) (row : RowElement) :
    numberAfter previous (rows ++ [row]) = some row.number.number := by
  induction rows generalizing previous with
  | nil => rfl
  | cons head rest ih => exact ih _

/-- Behind a row, the container grows by one list for each row number. -/
theorem arrange_length (line : RowElement → List JavaString) {previous : Nat}
    {rows : List RowElement}
    (increasing : rows.Pairwise fun upper lower => upper.number.number < lower.number.number)
    (above : ∀ row ∈ rows, previous < row.number.number) :
    numberAfter (some previous) rows =
      some (previous + (arrange line (some previous) rows).length) := by
  induction rows generalizing previous with
  | nil => rfl
  | cons row rest ih =>
      obtain ⟨later, tail⟩ := List.pairwise_cons.mp increasing
      have before := above row List.mem_cons_self
      rw [numberAfter, ih tail later, arrange]
      simp only [List.length_append, List.length_replicate, List.length_cons, blanksBefore,
        Option.elim_some, Option.some.injEq]
      omega

/-- The lists up to a row number the rows from the first one on. -/
theorem arrange_length_through (line : RowElement → List JavaString) {first : RowElement}
    {rest before : List RowElement} {row : RowElement}
    (increasing : (first :: rest).Pairwise fun upper lower =>
      upper.number.number < lower.number.number)
    (rows : first :: rest = before ++ [row]) :
    (arrange line none (first :: rest)).length + first.number.number = row.number.number + 1 := by
  obtain ⟨later, tail⟩ := List.pairwise_cons.mp increasing
  have number := numberAfter_concat none before row
  rw [← rows, numberAfter, arrange_length line tail later, Option.some.injEq] at number
  simp only [arrange, blanksBefore, Option.elim_none, List.replicate_zero, List.nil_append,
    List.length_cons]
  omega

/-- The last list of a sequence of rows is that of its last row. -/
theorem arrange_concat (line : RowElement → List JavaString) (previous : Option Nat)
    (before : List RowElement) (row : RowElement) :
    ∃ lists, arrange line previous (before ++ [row]) = lists ++ [line row] := by
  refine ⟨arrange line previous before ++
    List.replicate (blanksBefore (numberAfter previous before) row.number.number) [], ?_⟩
  rw [arrange_append]
  simp [arrange]

/-- This row ends its events with the end of the row. -/
def RowElement.bare (row : RowElement) : RowElement := { row with trailing := [] }

theorem Worksheet.eventsThrough_eq (sheet : Worksheet) (before : List RowElement)
    (row : RowElement) : sheet.eventsThrough before row =
      sheet.headEvents ++ (before ++ [row.bare]).flatMap RowElement.events := by
  have own : row.bare.events = row.ownEvents := List.append_nil _
  rw [eventsThrough, List.flatMap_append, List.flatMap_singleton, own]

/-- Right after the end of a row, its list is the last one. -/
theorem parse_eventsThrough {sst : SharedStringsTable} {sheet : Worksheet}
    {line : RowElement → List JavaString} (before : List RowElement) (row : RowElement)
    (builds : ∀ other ∈ before ++ [row], other.build sst sheet.width = .ok (line other)) :
    ∃ through, parse sst {} (sheet.eventsThrough before row) = .ok through ∧
      through.container.getLast? = some (row.built sst sheet.width) := by
  have bare : ∀ other ∈ before ++ [row.bare],
      other.build sst sheet.width = .ok (other.built sst sheet.width) := by
    intro other member
    have built : ∃ list, other.build sst sheet.width = .ok list := by
      rcases List.mem_append.mp member with upper | own
      · exact ⟨_, builds other (List.mem_append_left _ upper)⟩
      · rw [List.mem_singleton.mp own]
        exact ⟨_, builds row (List.mem_append_right _ List.mem_cons_self)⟩
    obtain ⟨list, built⟩ := built
    simp only [RowElement.built, built]
  obtain ⟨through, parsed, _, arranged⟩ := parse_rows_arrange sheet bare
  rw [← sheet.eventsThrough_eq] at parsed
  obtain ⟨lists, last⟩ := arrange_concat (RowElement.built sst sheet.width) none before row.bare
  refine ⟨through, parsed, ?_⟩
  rw [arranged, last, List.getLast?_concat]
  rfl

/-- A row's list stands at the row's distance from the first row. -/
theorem arrange_getElem (line : RowElement → List JavaString) {first row : RowElement}
    {rest before after : List RowElement}
    (increasing : (first :: rest).Pairwise fun upper lower =>
      upper.number.number < lower.number.number)
    (rows : first :: rest = before ++ row :: after) :
    (arrange line none (first :: rest))[row.number.number - first.number.number]? =
      some (line row) := by
  have regroup : before ++ row :: after = before ++ [row] ++ after := by simp
  obtain ⟨lists, last⟩ := arrange_concat line none before row
  have prefixed : ∃ middle, before ++ [row] = first :: middle := by
    cases before with
    | nil => exact ⟨[], by rw [List.nil_append, (List.cons.inj rows).1]⟩
    | cons head tail => exact ⟨tail ++ [row], by rw [List.cons_append, (List.cons.inj rows).1]⟩
  obtain ⟨middle, same⟩ := prefixed
  have sublist : (first :: middle).Sublist (first :: rest) := by
    rw [rows, regroup, ← same]
    exact List.sublist_append_left _ _
  have length := arrange_length_through line (increasing.sublist sublist) same.symm
  rw [← same, last, List.length_append, List.length_singleton] at length
  rw [rows, regroup, arrange_append, last, List.append_assoc,
    List.getElem?_append_right (by omega),
    show row.number.number - first.number.number - lists.length = 0 by omega]
  rfl

/-- The lists of a parsed sheet stand at their row's index when its first row is row one, and not
otherwise. -/
theorem rowsAtTheirIndex_of_parsed {sst : SharedStringsTable} {sheet : Worksheet}
    {handler : Myhandler} (parsed : parse sst {} sheet.events = .ok handler) :
    RowsAtTheirIndex sst sheet handler ↔ ∀ row ∈ sheet.rows.head?, row.number.number = 1 := by
  obtain ⟨builds, arranged⟩ := parse_built parsed
  have increasing := sheet.increasing
  rw [RowsAtTheirIndex, arranged]
  cases rows : sheet.rows with
  | nil => simp
  | cons first rest =>
      rw [rows] at builds increasing
      simp only [List.head?_cons, Option.mem_def, Option.some.injEq, forall_eq']
      constructor
      · rintro ⟨_, ends⟩
        have last := List.dropLast_append_getLast (List.cons_ne_nil first rest)
        have length := arrange_length_through (RowElement.built sst sheet.width) increasing
          last.symm
        have size := ends _ _ last.symm
        omega
      · intro one
        constructor
        · intro before row after split
          obtain ⟨through, read, list⟩ := parse_eventsThrough before row fun other member =>
            builds other (by
              rw [split]
              exact List.append_subset.mpr ⟨by simp, by simp⟩ member)
          have entry := arrange_getElem (RowElement.built sst sheet.width) increasing split
          rw [one] at entry
          exact ⟨through, _, read, list, entry⟩
        · intro before row split
          have length := arrange_length_through (RowElement.built sst sheet.width) increasing split
          omega

/-- The parse completes exactly when every row is readable; the lists then stand at their row's
index exactly when the first row is row one, and the same rows placed lower give the same lists. -/
theorem rowsAtTheirIndex_iff (sst : SharedStringsTable) (sheet : Worksheet) :
    ((∃ handler, parse sst {} sheet.events = .ok handler) ↔
        ∀ row ∈ sheet.rows, row.Readable sst) ∧
      ∀ handler, parse sst {} sheet.events = .ok handler →
        (RowsAtTheirIndex sst sheet handler ↔ ∀ row ∈ sheet.rows.head?, row.number.number = 1) ∧
        ∀ distance lower other, sheet.Lowered distance lower →
          parse sst {} lower.events = .ok other → other.container = handler.container := by
  refine ⟨parse_ok_iff, ?_⟩
  intro handler parsed
  refine ⟨rowsAtTheirIndex_of_parsed parsed, ?_⟩
  intro distance lower other lowered read
  exact lowered.container parsed read

/-- The rows of the sample sheet are placed one row lower. -/
def lowerSheet : Worksheet where
  before := []
  dimension := sampleSheet.dimension
  trailing := []
  rows := [
    rowAt 1 [cellAt 0 2 none (some [literal "x", literal "y"]),
      cellAt 2 2 (some (literal "s")) (some [literal "0"])],
    rowAt 3 [cellAt 1 4 none none]]
  increasing := by decide

/-- The sample sheet is read in its place, and the lower one to the same lists, out of place. -/
theorem rowsAtTheirIndex_sampleSheet :
    ∃ handler other, parse sampleTable {} sampleSheet.events = .ok handler ∧
      parse sampleTable {} lowerSheet.events = .ok other ∧ sampleSheet.Lowered 1 lowerSheet ∧
      RowsAtTheirIndex sampleTable sampleSheet handler ∧
      ¬ RowsAtTheirIndex sampleTable lowerSheet other ∧ other.container = handler.container := by
  have lowered : sampleSheet.Lowered 1 lowerSheet :=
    ⟨rfl, .cons ⟨by decide, .cons ⟨rfl, rfl, rfl⟩ (.cons ⟨rfl, rfl, rfl⟩ .nil)⟩
      (.cons ⟨by decide, .cons ⟨rfl, rfl, rfl⟩ .nil⟩ .nil)⟩
  obtain ⟨completes, placed⟩ := rowsAtTheirIndex_iff sampleTable sampleSheet
  obtain ⟨completesLower, placedLower⟩ := rowsAtTheirIndex_iff sampleTable lowerSheet
  obtain ⟨handler, parsed⟩ := completes.mpr (by decide)
  obtain ⟨other, read⟩ := completesLower.mpr (by decide)
  refine ⟨handler, other, parsed, read, lowered, ?_, ?_, ?_⟩
  · exact (placed handler parsed).1.mpr (by decide)
  · intro inPlace
    exact absurd ((placedLower other read).1.mp inPlace) (by decide)
  · exact (placed handler parsed).2 1 lowerSheet other lowered read

/-- This sheet has one cell in column A of one row, with no dimension. -/
def oneRowSheet (above : Nat) : Worksheet where
  before := []
  dimension := none
  trailing := []
  rows := [rowAt above [cellAt 0 (above + 1) none (some [literal "x"])]]
  increasing := List.pairwise_singleton _ _

/-- A row alone in row two is read like the same row in row one, as the first list. -/
theorem oneRowSheet_not_at_index :
    (∀ row ∈ (oneRowSheet 1).rows, row.Readable sampleTable ∧ row.Increasing) ∧
      (oneRowSheet 0).Lowered 1 (oneRowSheet 1) ∧
      ∃ handler, parse sampleTable {} (oneRowSheet 1).events = .ok handler ∧
        handler.container = [[literal "x"]] ∧
        (parse sampleTable {} (oneRowSheet 0).events).toOption.map
          Myhandler.container = some [[literal "x"]] ∧
        ¬ RowsAtTheirIndex sampleTable (oneRowSheet 1) handler := by
  refine ⟨by decide, ⟨rfl, .cons ⟨by decide, .cons ⟨rfl, rfl, rfl⟩ .nil⟩ .nil⟩, ?_⟩
  have read : (parse sampleTable {} (oneRowSheet 1).events).toOption.map
      Myhandler.container = some [[literal "x"]] := by decide
  obtain ⟨handler, found, container⟩ := Option.map_eq_some_iff.mp read
  refine ⟨handler, ok_of_toOption found, container, by decide, ?_⟩
  rintro ⟨_, ends⟩
  have size := ends [] _ rfl
  rw [container] at size
  exact absurd size (by decide)

end Projs.Poi

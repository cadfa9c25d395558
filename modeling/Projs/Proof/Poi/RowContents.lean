import Projs.Construction.Poi.ExpectedSheet
import Projs.Proof.Poi.RowRun

namespace Projs.Poi
open Java LabelledMachine

/-- A cell that resolves adds exactly its text. -/
theorem CellElement.Resolves.contents {sst : SharedStringsTable} {cell : CellElement}
    (resolves : cell.Resolves sst) : cell.contents sst = .ok [cell.text sst] := by
  cases value : cell.v with
  | none => simp only [CellElement.contents, CellElement.text, value]
  | some chunks =>
      by_cases shared : cell.type = some (literal "s")
      · have found := resolves chunks.flatten (by simp [CellElement.indexText, shared, value])
        obtain ⟨text, found⟩ := Option.isSome_iff_exists.mp found
        obtain ⟨idx, parsed, entry⟩ := Option.bind_eq_some_iff.mp found
        simp [CellElement.contents, CellElement.text, value, shared, parsed, entry]
      · simp [CellElement.contents, CellElement.text, value, shared]

/-- A cell that does not resolve adds nothing or stops the handler. -/
theorem CellElement.contents_of_not_resolves {sst : SharedStringsTable} {cell : CellElement}
    (broken : ¬ cell.Resolves sst) :
    cell.contents sst = .ok [] ∨ cell.contents sst = .error .indexOutOfBounds := by
  cases value : cell.v with
  | none => simp [CellElement.Resolves, CellElement.indexText, value] at broken
  | some chunks =>
      by_cases shared : cell.type = some (literal "s")
      · simp only [CellElement.contents, value, shared, if_true]
        cases parsed : parseInt chunks.flatten with
        | none => exact .inl rfl
        | some idx =>
            cases found : sst idx with
            | none => exact .inr (by simp only [found])
            | some text =>
                simp [CellElement.Resolves, CellElement.indexText, value, shared, parsed,
                  found] at broken
      · simp [CellElement.Resolves, CellElement.indexText, shared] at broken

theorem rowReader_step_of_contents {sst : SharedStringsTable} {cell : CellElement}
    {added : List JavaString} (layout : RowLayout) (contents : cell.contents sst = .ok added) :
    (rowReader sst).step layout cell = .ok (layout.place cell.column added) :=
  rowReader_step_ok_iff.mpr ⟨added, contents, rfl⟩

/-- A column without a cell has the empty entry. -/
theorem entryAt_of_ne (sst : SharedStringsTable) (cells : List CellElement) (column : Nat)
    (different : ∀ cell ∈ cells, cell.column ≠ column) : entryAt sst cells column = [] := by
  have absent : cells.find? (fun cell => cell.column == column) = none := by
    rw [List.find?_eq_none]
    intro cell member same
    exact different cell member (eq_of_beq same)
  rw [entryAt, absent]
  rfl

@[simp] theorem entryAt_cons_self (sst : SharedStringsTable) (cell : CellElement)
    (rest : List CellElement) : entryAt sst (cell :: rest) cell.column = cell.text sst := by
  simp [entryAt]

theorem entryAt_cons_of_ne (sst : SharedStringsTable) (cell : CellElement)
    (rest : List CellElement) {column : Nat} (different : cell.column ≠ column) :
    entryAt sst (cell :: rest) column = entryAt sst rest column := by
  simp [entryAt, different]

/-- A stretch of columns without a cell has empty entries only. -/
theorem entries_blank (sst : SharedStringsTable) {cells : List CellElement} {start count : Nat}
    (outside : ∀ cell ∈ cells, cell.column ≤ start ∨ start + count < cell.column) :
    ((List.range' start count).map fun index => entryAt sst cells (index + 1)) =
      List.replicate count [] := by
  rw [List.eq_replicate_iff]
  refine ⟨by simp, ?_⟩
  intro entry member
  obtain ⟨index, inside, same⟩ := List.mem_map.mp member
  obtain ⟨lower, upper⟩ := List.mem_range'_1.mp inside
  rw [← same]
  apply entryAt_of_ne
  intro cell found
  have apart := outside cell found
  omega

/-- Two adjacent stretches of indices are one. -/
theorem range'_split {start middle stop : Nat} (low : start ≤ middle) (high : middle ≤ stop) :
    List.range' start (stop - start) =
      List.range' start (middle - start) ++ List.range' middle (stop - middle) := by
  have whole := List.range'_append_1 (s := start) (m := middle - start) (n := stop - middle)
  rw [show start + (middle - start) = middle by omega,
    show middle - start + (stop - middle) = stop - start by omega] at whole
  exact whole.symm

/-- The columns up to a row's first cell are empty, and the later ones belong to the other cells. -/
theorem entries_cons (sst : SharedStringsTable) (cell : CellElement) (rest : List CellElement)
    {start last : Nat} (before : start < cell.column) (low : cell.column ≤ last)
    (later : ∀ other ∈ rest, cell.column < other.column) :
    ((List.range' start (last - start)).map fun index => entryAt sst (cell :: rest) (index + 1)) =
      List.replicate (cell.column - start - 1) [] ++ [cell.text sst] ++
        (List.range' cell.column (last - cell.column)).map fun index =>
          entryAt sst rest (index + 1) := by
  have split : List.range' start (last - start) = List.range' start (cell.column - start - 1) ++
      ([cell.column - 1] ++ List.range' cell.column (last - cell.column)) := by
    have single : List.range' (cell.column - 1) (cell.column - (cell.column - 1)) =
        [cell.column - 1] := by
      rw [show cell.column - (cell.column - 1) = 1 by omega, List.range'_one]
    rw [range'_split (show start ≤ cell.column - 1 by omega) (by omega),
      range'_split (show cell.column - 1 ≤ cell.column by omega) low, single,
      show cell.column - 1 - start = cell.column - start - 1 by omega]
  have blanks : ((List.range' start (cell.column - start - 1)).map fun index =>
      entryAt sst (cell :: rest) (index + 1)) = List.replicate (cell.column - start - 1) [] := by
    apply entries_blank
    intro other found
    rcases List.mem_cons.mp found with rfl | behind
    · omega
    · have after := later other behind
      omega
  have own : entryAt sst (cell :: rest) (cell.column - 1 + 1) = cell.text sst := by
    rw [show cell.column - 1 + 1 = cell.column by omega, entryAt_cons_self]
  have others : ((List.range' cell.column (last - cell.column)).map fun index =>
      entryAt sst (cell :: rest) (index + 1)) =
      (List.range' cell.column (last - cell.column)).map fun index =>
        entryAt sst rest (index + 1) := by
    apply List.map_congr_left
    intro index inside
    obtain ⟨lower, _⟩ := List.mem_range'_1.mp inside
    exact entryAt_cons_of_ne sst cell rest (by omega)
  rw [split, List.map_append, List.map_append, blanks, others, List.map_singleton, own,
    List.append_assoc]

/-- The last column of a row is the column of one of its cells. -/
theorem columnAfter_le {bound column : Nat} {cells : List CellElement} (start : column ≤ bound)
    (covered : ∀ cell ∈ cells, cell.column ≤ bound) : columnAfter column cells ≤ bound := by
  induction cells generalizing column with
  | nil => exact start
  | cons cell rest ih =>
      exact ih (covered cell List.mem_cons_self)
        (fun other member => covered other (List.mem_cons_of_mem _ member))

/-- In increasing columns, the last column is the largest. -/
theorem columnAfter_ge {cells : List CellElement} {column : Nat}
    (increasing : cells.Pairwise fun left right => left.column < right.column)
    (above : ∀ cell ∈ cells, column < cell.column) :
    column ≤ columnAfter column cells ∧ ∀ cell ∈ cells, cell.column ≤ columnAfter column cells := by
  induction cells generalizing column with
  | nil => simp [columnAfter]
  | cons cell rest ih =>
      obtain ⟨first, tail⟩ := List.pairwise_cons.mp increasing
      obtain ⟨low, high⟩ := ih tail first
      have before := above cell List.mem_cons_self
      rw [columnAfter]
      refine ⟨by omega, ?_⟩
      intro other member
      rcases List.mem_cons.mp member with rfl | later
      · exact low
      · exact high other later

/-- In increasing columns, each resolved cell lands at its own column. -/
theorem rowReader_line {sst : SharedStringsTable} {cells : List CellElement} {layout : RowLayout}
    (aligned : layout.entries.length = layout.last)
    (above : ∀ cell ∈ cells, layout.last < cell.column)
    (increasing : cells.Pairwise fun left right => left.column < right.column)
    (resolves : ∀ cell ∈ cells, cell.Resolves sst) :
    (rowReader sst).run layout cells = .ok ⟨layout.entries ++
      (List.range' layout.last (columnAfter layout.last cells - layout.last)).map fun index =>
        entryAt sst cells (index + 1), columnAfter layout.last cells⟩ := by
  induction cells generalizing layout with
  | nil => simp [columnAfter]
  | cons cell rest ih =>
      obtain ⟨later, tail⟩ := List.pairwise_cons.mp increasing
      have before := above cell List.mem_cons_self
      have contents := (resolves cell List.mem_cons_self).contents
      have aligned' : (layout.place cell.column [cell.text sst]).entries.length =
          cell.column := by
        rw [layout.place_length, List.length_singleton]
        omega
      have next := ih aligned' later tail
        (fun other member => resolves other (List.mem_cons_of_mem _ member))
      have low := (columnAfter_ge tail later).1
      rw [run_cons_of_ok _ _ (rowReader_step_of_contents layout contents), next, columnAfter,
        entries_cons sst cell rest before low later]
      simp only [RowLayout.place, List.append_assoc]

/-- A row of resolved cells in increasing columns builds exactly its line. -/
theorem RowElement.build_line {sst : SharedStringsTable} {row : RowElement} (width : Nat)
    (filled : row.cells ≠ []) (increasing : row.Increasing)
    (resolves : ∀ cell ∈ row.cells, cell.Resolves sst) :
    row.build sst width = .ok (row.line sst width) := by
  have read := rowReader_line (show (RowLayout.mk [] 0).entries.length = 0 from rfl)
    (fun cell _ => cell.column_pos) increasing resolves
  have high := (columnAfter_ge increasing fun cell _ => cell.column_pos).2
  simp only [List.nil_append, Nat.sub_zero, ← List.range_eq_range'] at read
  rw [RowElement.build, read]
  simp only [filled, if_false, RowElement.line, RowLayout.padded, List.length_map,
    List.length_range, Nat.min_self]
  change Except.ok (if row.lastColumn < width then _ else _) = _
  split
  · next short =>
      have split : List.range width =
          List.range row.lastColumn ++ List.range' row.lastColumn (width - row.lastColumn) := by
        rw [List.range_eq_range', List.range_eq_range']
        exact range'_split (Nat.zero_le _) (Nat.le_of_lt short)
      have blanks : ((List.range' row.lastColumn (width - row.lastColumn)).map fun index =>
          entryAt sst row.cells (index + 1)) = List.replicate (width - row.lastColumn) [] :=
        entries_blank sst fun cell found => .inl (high cell found)
      rw [Nat.max_eq_left (Nat.le_of_lt short), split, List.map_append, blanks]
      rfl
  · next enough =>
      rw [Nat.max_eq_right (Nat.le_of_not_lt enough)]
      rfl

theorem RowElement.line_length (sst : SharedStringsTable) (width : Nat) (row : RowElement) :
    (row.line sst width).length = max width row.lastColumn := by
  simp [RowElement.line]

end Projs.Poi

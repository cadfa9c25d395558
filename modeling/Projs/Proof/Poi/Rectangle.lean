import Mathlib.Data.List.Chain
import Projs.Proof.Poi.SheetContents

namespace Projs.Poi
open Java LabelledMachine

/-- Two row elements are adjacent when no row lies between them. -/
def Adjacent (upper lower : RowElement) : Prop := lower.number.number = upper.number.number + 1

instance (upper lower : RowElement) : Decidable (Adjacent upper lower) :=
  inferInstanceAs (Decidable (_ = _))

/-- Every list of the container has the row length that the dimension gives. -/
def Rectangular (sst : SharedStringsTable) (sheet : Worksheet) : Prop :=
  ∃ handler, parse sst {} sheet.events = .ok handler ∧ handler.longest = sheet.width ∧
    ∀ list ∈ handler.container, (list.length : Int) = handler.longest

/-- Resolved cells never leave a row shorter than its last column, and they leave it longer as
soon as one cell does not follow the columns before it. -/
theorem rowReader_length {sst : SharedStringsTable} {cells : List CellElement}
    {layout : RowLayout} (long : layout.last ≤ layout.entries.length)
    (resolves : ∀ cell ∈ cells, cell.Resolves sst) :
    ∃ final, (rowReader sst).run layout cells = .ok final ∧ final.last ≤ final.entries.length ∧
      (final.entries.length = final.last ↔ layout.entries.length = layout.last ∧
        (layout.last :: cells.map CellElement.column).IsChain (· < ·)) := by
  induction cells generalizing layout with
  | nil => exact ⟨layout, rfl, long, by simp⟩
  | cons cell rest ih =>
      have contents := (resolves cell List.mem_cons_self).contents
      have stepped := rowReader_step_of_contents layout contents
      have added := layout.place_length cell.column [cell.text sst]
      rw [List.length_singleton] at added
      have long' : (layout.place cell.column [cell.text sst]).last ≤
          (layout.place cell.column [cell.text sst]).entries.length := by
        rw [added, RowLayout.place_last]
        omega
      obtain ⟨final, read, kept, exact⟩ := ih long'
        (fun other member => resolves other (List.mem_cons_of_mem _ member))
      refine ⟨final, (run_cons_of_ok _ _ stepped).trans read, kept, ?_⟩
      rw [exact, added, List.map_cons, List.isChain_cons_cons, RowLayout.place_last]
      constructor
      · rintro ⟨same, chain⟩
        exact ⟨by omega, by omega, chain⟩
      · rintro ⟨same, before, chain⟩
        exact ⟨by omega, chain⟩

theorem RowElement.increasing_iff_chain (row : RowElement) :
    row.Increasing ↔ (0 :: row.cells.map CellElement.column).IsChain (· < ·) := by
  rw [List.isChain_iff_pairwise, List.pairwise_cons, List.pairwise_map]
  constructor
  · intro increasing
    refine ⟨?_, increasing⟩
    intro column member
    obtain ⟨cell, _, same⟩ := List.mem_map.mp member
    rw [← same]
    exact cell.column_pos
  · exact fun chain => chain.2

/-- A covered row of resolved cells is as long as the width exactly in increasing columns. -/
theorem RowElement.build_length {sst : SharedStringsTable} {row : RowElement} {width : Nat}
    (filled : row.cells ≠ []) (covered : ∀ cell ∈ row.cells, cell.column ≤ width)
    (resolves : ∀ cell ∈ row.cells, cell.Resolves sst) :
    row.build sst width = .ok (row.built sst width) ∧
      ((row.built sst width).length = width ↔ row.Increasing) := by
  obtain ⟨final, read, long, exact⟩ :=
    rowReader_length (show (RowLayout.mk [] 0).last ≤ 0 from Nat.le_refl 0) resolves
  have last : final.last = columnAfter 0 row.cells := rowReader_last read
  have bound : columnAfter 0 row.cells ≤ width := columnAfter_le (Nat.zero_le _) covered
  have build : row.build sst width = .ok (final.padded width) := by
    simp only [RowElement.build, read, filled, if_false]
  have built : row.built sst width = final.padded width := by simp only [RowElement.built, build]
  refine ⟨build.trans (congrArg Except.ok built.symm), ?_⟩
  have length : (final.padded width).length = width ↔ final.entries.length = final.last := by
    rw [RowLayout.padded]
    split
    · simp only [List.length_append, List.length_replicate]
      omega
    · omega
  rw [built, length, exact, row.increasing_iff_chain]
  exact ⟨fun both => both.2, fun chain => ⟨rfl, chain⟩⟩

/-- A property that the empty list lacks holds of a whole container exactly when it holds of every
row's list and no row number is missing. -/
theorem arrange_forall {line : RowElement → List JavaString} {property : List JavaString → Prop}
    (blank : ¬ property []) {previous : Option Nat} {rows : List RowElement}
    (increasing : rows.Pairwise fun upper lower => upper.number.number < lower.number.number)
    (above : ∀ upper ∈ previous, ∀ row ∈ rows, upper < row.number.number) :
    (∀ list ∈ arrange line previous rows, property list) ↔
      (∀ row ∈ rows, property (line row)) ∧
        (∀ upper ∈ previous, ∀ row ∈ rows.head?, row.number.number = upper + 1) ∧
          rows.IsChain Adjacent := by
  induction rows generalizing previous with
  | nil => simp [arrange]
  | cons row rest ih =>
      obtain ⟨later, tail⟩ := List.pairwise_cons.mp increasing
      have later' : ∀ upper ∈ some row.number.number, ∀ lower ∈ rest,
          upper < lower.number.number := by
        intro upper member
        cases member
        exact later
      have next := ih tail later'
      have gap : (∀ list ∈ List.replicate (blanksBefore previous row.number.number) [],
          property list) ↔ ∀ upper ∈ previous, row.number.number = upper + 1 := by
        cases previous with
        | none => simp [blanksBefore]
        | some upper =>
            have before := above upper rfl row List.mem_cons_self
            simp only [List.mem_replicate, blanksBefore, Option.elim_some, Option.mem_def,
              Option.some.injEq, forall_eq']
            constructor
            · intro none
              by_contra apart
              exact blank (none [] ⟨by omega, rfl⟩)
            · rintro same list ⟨some, _⟩
              omega
      simp only [arrange, List.mem_append, List.mem_cons, or_imp, forall_and, forall_eq, next, gap,
        List.head?_cons, Option.mem_some_iff, forall_eq', List.isChain_cons, Adjacent]
      tauto

/-- The parsed table is rectangular exactly when no row is missing between two row elements and
the columns of each row increase. -/
theorem rectangular_iff (sst : SharedStringsTable) (sheet : Worksheet)
    (filled : ∀ row ∈ sheet.rows, row.cells ≠ [])
    (covered : ∀ row ∈ sheet.rows, ∀ cell ∈ row.cells, cell.column ≤ sheet.width)
    (resolves : ∀ row ∈ sheet.rows, ∀ cell ∈ row.cells, cell.Resolves sst) :
    Rectangular sst sheet ↔
      sheet.rows.IsChain Adjacent ∧ ∀ row ∈ sheet.rows, row.Increasing := by
  have builds (row : RowElement) (member : row ∈ sheet.rows) :=
    row.build_length (filled row member) (covered row member) (resolves row member)
  obtain ⟨handler, parsed, longest, arranged⟩ :=
    parse_arrange sheet fun row member => (builds row member).1
  have rectangular : Rectangular sst sheet ↔
      ∀ list ∈ arrange (RowElement.built sst sheet.width) none sheet.rows,
        list.length = sheet.width := by
    constructor
    · rintro ⟨other, reached, width, each⟩ list member
      rw [parsed] at reached
      cases reached
      have same := each list (arranged ▸ member)
      omega
    · intro each
      refine ⟨handler, parsed, longest, ?_⟩
      intro list member
      rw [longest, each list (arranged ▸ member)]
  have lengths : (∀ row ∈ sheet.rows, (row.built sst sheet.width).length = sheet.width) ↔
      ∀ row ∈ sheet.rows, row.Increasing :=
    forall₂_congr fun row member => (builds row member).2
  rw [rectangular]
  by_cases empty : sheet.rows = []
  · simp [empty, arrange]
  · obtain ⟨first, rest, rows⟩ := List.exists_cons_of_ne_nil empty
    have head : first ∈ sheet.rows := rows ▸ List.mem_cons_self
    obtain ⟨cell, cells, same⟩ := List.exists_cons_of_ne_nil (filled first head)
    have inside := covered first head cell (same ▸ List.mem_cons_self)
    have column := cell.column_pos
    have blank : ¬ ([] : List JavaString).length = sheet.width := by
      simp only [List.length_nil]
      omega
    rw [arrange_forall blank sheet.increasing (by simp), lengths]
    constructor
    · rintro ⟨increasing, _, adjacent⟩
      exact ⟨adjacent, increasing⟩
    · rintro ⟨adjacent, increasing⟩
      exact ⟨increasing, by simp, adjacent⟩

/-- Row two is missing between the two rows of this sheet, whose dimension is `A1:A3`. -/
def gapSheet : Worksheet where
  before := []
  dimension := some ⟨some (cellAt 0 1 none none).reference, (cellAt 0 3 none none).reference⟩
  trailing := []
  rows := [rowAt 0 [cellAt 0 1 none (some [literal "x"])],
    rowAt 2 [cellAt 0 3 none (some [literal "y"])]]
  increasing := by decide

theorem rectangular_gapSheet :
    Rectangular sampleTable gapSheet ↔
      gapSheet.rows.IsChain Adjacent ∧ ∀ row ∈ gapSheet.rows, row.Increasing :=
  rectangular_iff sampleTable gapSheet (by decide) (by decide) (by decide)

/-- The list for the missing row is empty although the dimension gives length one. -/
theorem gapSheet_not_rectangular :
    (∀ row ∈ gapSheet.rows, row.cells ≠ [] ∧ row.Increasing) ∧
      (∀ row ∈ gapSheet.rows, ∀ cell ∈ row.cells,
        cell.column ≤ gapSheet.width ∧ cell.Resolves sampleTable) ∧
      (parse sampleTable {} gapSheet.events).toOption.map Myhandler.container =
        some [[literal "x"], [], [literal "y"]] ∧
      ¬ Rectangular sampleTable gapSheet := by
  have read : (parse sampleTable {} gapSheet.events).toOption.map Myhandler.container =
      some [[literal "x"], [], [literal "y"]] := by decide
  refine ⟨by decide, by decide, read, ?_⟩
  rintro ⟨handler, parsed, longest, each⟩
  rw [parsed] at read
  have container : handler.container = [[literal "x"], [], [literal "y"]] :=
    Option.some.inj read
  have same := each [] (by simp [container])
  rw [longest] at same
  exact absurd same (by decide)

end Projs.Poi

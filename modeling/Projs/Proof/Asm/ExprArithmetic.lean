import Mathlib.Data.List.TakeWhile
import Projs.Proof.Asm.ExprVector

namespace Projs.Asm

/-- What the loop of `is_reloc` still demands, when a current segment was subtracted or not and a
segment base was seen or not. -/
structure RelocFrom (locationSegment : Int) (hasRel hasSeg : Bool) (vect : List Expr) : Prop where
  types : ∀ term ∈ vect, term.value ≠ 0 →
    term.type = exprSimple ∨ term.type = exprWrt ∨ exprSegbase ≤ term.type
  single : ∀ first ∈ vect, ∀ second ∈ vect, exprSegbase ≤ first.type → exprSegbase ≤ second.type →
    first.value = 1 → second.value = 1 → first.type = second.type
  fresh : hasSeg = true → ∀ term ∈ vect, exprSegbase ≤ term.type → term.value ≠ 1
  current : ∀ term ∈ vect, exprSegbase ≤ term.type → term.value = -1 →
    term.type = locationSegment + exprSegbase
  unused : hasRel = true → ∀ term ∈ vect, exprSegbase ≤ term.type → term.value ≠ -1

theorem RelocFrom.tail {locationSegment : Int} {hasRel hasSeg : Bool} {term : Expr}
    {vect : List Expr} (reloc : RelocFrom locationSegment hasRel hasSeg (term :: vect)) :
    RelocFrom locationSegment hasRel hasSeg vect where
  types other inside := reloc.types other (List.mem_cons_of_mem _ inside)
  single first inside second within := reloc.single first (List.mem_cons_of_mem _ inside) second
    (List.mem_cons_of_mem _ within)
  fresh seen other inside := reloc.fresh seen other (List.mem_cons_of_mem _ inside)
  current other inside := reloc.current other (List.mem_cons_of_mem _ inside)
  unused seen other inside := reloc.unused seen other (List.mem_cons_of_mem _ inside)

/-- A component that is neither added nor subtracted once demands nothing of the others. -/
theorem RelocFrom.cons {locationSegment : Int} {hasRel hasSeg : Bool} {term : Expr}
    {vect : List Expr} (reloc : RelocFrom locationSegment hasRel hasSeg vect)
    (type : term.value ≠ 0 →
      term.type = exprSimple ∨ term.type = exprWrt ∨ exprSegbase ≤ term.type)
    (other : exprSegbase ≤ term.type → term.value ≠ 1 ∧ term.value ≠ -1) :
    RelocFrom locationSegment hasRel hasSeg (term :: vect) where
  types := List.forall_mem_cons.2 ⟨type, reloc.types⟩
  single first inside second within based alsoBased one alsoOne := by
    rcases List.mem_cons.1 inside with rfl | inside
    · exact absurd one (other based).1
    rcases List.mem_cons.1 within with rfl | within
    · exact absurd alsoOne (other alsoBased).1
    exact reloc.single first inside second within based alsoBased one alsoOne
  fresh seen := List.forall_mem_cons.2 ⟨fun based => (other based).1, reloc.fresh seen⟩
  current := List.forall_mem_cons.2
    ⟨fun based minus => absurd minus (other based).2, reloc.current⟩
  unused seen := List.forall_mem_cons.2 ⟨fun based => (other based).2, reloc.unused seen⟩

theorem isRelocLoop_iff (locationSegment : Int) {vect : List Expr} (ordered : Ordered vect) :
    ∀ hasRel hasSeg, isRelocLoop locationSegment hasRel hasSeg vect = true ↔
      RelocFrom locationSegment hasRel hasSeg vect := by
  induction vect with
  | nil =>
      intro hasRel hasSeg
      exact iff_of_true rfl ⟨by simp, by simp, by simp, by simp, by simp⟩
  | cons term vect inductionHypothesis =>
      intro hasRel hasSeg
      have rest := inductionHypothesis ordered.tail
      have later : ∀ other ∈ vect, term.type < other.type := ordered.head_lt
      have constants : exprSimple < exprWrt ∧ exprWrt < exprSegbase := by decide
      have distinct : (1 : BitVec 64) ≠ -1 := by decide
      rw [isRelocLoop]
      split_ifs with zero small simple wrt special one seg minus elsewhere rel
      · rw [rest]
        refine ⟨fun reloc => reloc.cons (fun nonzero => absurd zero nonzero) fun _ => ?_,
          RelocFrom.tail⟩
        rw [zero]
        exact ⟨by decide, by decide⟩
      · refine iff_of_false not_false fun reloc => ?_
        have := reloc.types term List.mem_cons_self zero
        omega
      · rw [rest]
        exact ⟨fun reloc => reloc.cons (fun _ => Or.inl simple) fun based => by omega,
          RelocFrom.tail⟩
      · rw [rest]
        exact ⟨fun reloc => reloc.cons (fun _ => Or.inr (Or.inl wrt)) fun based => by omega,
          RelocFrom.tail⟩
      · refine iff_of_false not_false fun reloc => ?_
        have := reloc.types term List.mem_cons_self zero
        omega
      · exact iff_of_false not_false fun reloc =>
          reloc.fresh seg term List.mem_cons_self (by omega) one
      · rw [rest]
        refine ⟨fun reloc => ⟨List.forall_mem_cons.2 ⟨fun _ => by omega, reloc.types⟩, ?_, ?_,
          List.forall_mem_cons.2 ⟨fun _ same => absurd (one.symm.trans same) distinct,
            reloc.current⟩,
          fun seen => List.forall_mem_cons.2 ⟨fun _ same => absurd (one.symm.trans same) distinct,
            reloc.unused seen⟩⟩, fun reloc => ⟨reloc.tail.types, reloc.tail.single, fun _ => ?_,
          reloc.tail.current, reloc.tail.unused⟩⟩
        · intro first inside second within based alsoBased firstOne secondOne
          rcases List.mem_cons.1 inside with rfl | inside
          · rcases List.mem_cons.1 within with rfl | within
            · rfl
            · exact absurd secondOne (reloc.fresh rfl second within alsoBased)
          · exact absurd firstOne (reloc.fresh rfl first inside based)
        · exact fun seen => absurd seen seg
        · intro other inside based alsoOne
          have same := reloc.single term List.mem_cons_self other (List.mem_cons_of_mem _ inside)
            (by omega) based one alsoOne
          have := later other inside
          omega
      · refine iff_of_false not_false fun reloc => ?_
        exact elsewhere (reloc.current term List.mem_cons_self (by omega) minus)
      · refine iff_of_false not_false fun reloc => ?_
        exact reloc.unused rel term List.mem_cons_self (by omega) minus
      · rw [rest]
        refine ⟨fun reloc => ⟨List.forall_mem_cons.2 ⟨fun _ => by omega, reloc.types⟩, ?_,
          fun seen => List.forall_mem_cons.2 ⟨fun _ => one, reloc.fresh seen⟩,
          List.forall_mem_cons.2 ⟨fun _ _ => not_not.1 elsewhere, reloc.current⟩,
          fun seen => absurd seen rel⟩, fun reloc => ⟨reloc.tail.types, reloc.tail.single,
          reloc.tail.fresh, reloc.tail.current, fun _ other inside based alsoMinus => ?_⟩⟩
        · intro first inside second within based alsoBased firstOne secondOne
          rcases List.mem_cons.1 inside with rfl | inside
          · exact absurd firstOne one
          rcases List.mem_cons.1 within with rfl | within
          · exact absurd secondOne one
          exact reloc.single first inside second within based alsoBased firstOne secondOne
        · have same := reloc.current other (List.mem_cons_of_mem _ inside) based alsoMinus
          have := later other inside
          omega
      · rw [rest]
        exact ⟨fun reloc => reloc.cons (fun _ => by omega) fun _ => ⟨one, minus⟩, RelocFrom.tail⟩

theorem isReloc_iff (locationSegment : Int) {vect : List Expr} (ordered : Ordered vect) :
    isReloc locationSegment vect = true ↔ (coefficient vect).IsReloc locationSegment := by
  rw [isReloc, isRelocLoop_iff locationSegment ordered]
  have multiple := coefficient_mem ordered
  constructor
  · intro reloc
    refine ⟨fun type present => ?_, fun first second based alsoBased one alsoOne => ?_,
      fun type based minus => ?_⟩
    · obtain ⟨term, inside, rfl⟩ := exists_of_coefficient present
      exact reloc.types term inside (by rwa [multiple term inside] at present)
    · obtain ⟨left, inside, rfl⟩ := exists_of_coefficient (by rw [one]; decide)
      obtain ⟨right, within, rfl⟩ := exists_of_coefficient (by rw [alsoOne]; decide)
      rw [multiple left inside] at one
      rw [multiple right within] at alsoOne
      exact reloc.single left inside right within based alsoBased one alsoOne
    · obtain ⟨term, inside, rfl⟩ := exists_of_coefficient (by rw [minus]; decide)
      rw [multiple term inside] at minus
      exact reloc.current term inside based minus
  · rintro ⟨types, single, current⟩
    refine ⟨fun term inside present => types term.type (by rwa [multiple term inside]), ?_,
      fun seen => absurd seen Bool.false_ne_true, fun term inside based minus =>
        current term.type based (by rwa [multiple term inside]),
      fun seen => absurd seen Bool.false_ne_true⟩
    intro first inside second within based alsoBased one alsoOne
    exact single first.type second.type based alsoBased (by rwa [multiple first inside])
      (by rwa [multiple second within])

/-- Without far-absolute segments everything that is left is copied. -/
theorem copyRest_near (preserve : Bool) {vect : List Expr} (near : NearTypes vect) :
    copyRest preserve vect = vect := by
  rw [copyRest]
  split
  · rfl
  · apply List.takeWhile_eq_self_iff.2
    intro term inside
    exact decide_eq_true (near term inside)

/-- The sum of two vectors: its multiples are the sums, and it has no other types. -/
theorem addVectorsLoop_spec (preserve : Bool) (hint : Option EvalHints) {p q : List Expr}
    (left : Ordered p) (right : Ordered q) (leftNear : NearTypes p) (rightNear : NearTypes q) :
    Ordered (addVectorsLoop preserve hint p q).1 ∧
      (∀ type, coefficient (addVectorsLoop preserve hint p q).1 type =
        coefficient p type + coefficient q type) ∧
      ∀ term ∈ (addVectorsLoop preserve hint p q).1, ∃ other ∈ p ++ q, other.type = term.type := by
  fun_induction addVectorsLoop preserve hint p q with
  | case1 hint p ps q qs near below unknown =>
      exact absurd unknown (right.known q List.mem_cons_self)
  | case2 hint p ps q qs near below known rest hint' result inductionHypothesis =>
      obtain ⟨ordered, sums, types⟩ := inductionHypothesis left right.tail leftNear rightNear.tail
      rw [result] at ordered sums types
      refine ⟨ordered.cons (fun term inside => ?_) known near.2, fun type => ?_,
        fun term inside => ?_⟩
      · obtain ⟨other, found, same⟩ := types term inside
        rw [← same]
        rcases List.mem_append.1 found with before | after
        · rcases List.mem_cons.1 before with rfl | later
          · exact below
          · exact below.trans (left.head_lt other later)
        · exact right.head_lt other after
      · rw [coefficient_cons, sums, coefficient_cons q qs]
        exact add_left_comm _ _ _
      · rcases List.mem_cons.1 inside with rfl | later
        · exact ⟨term, by simp, rfl⟩
        · obtain ⟨other, found, same⟩ := types term later
          refine ⟨other, ?_, same⟩
          simp only [List.mem_append, List.mem_cons] at found ⊢
          tauto
  | case3 hint p ps q qs near notBelow below unknown =>
      exact absurd unknown (left.known p List.mem_cons_self)
  | case4 hint p ps q qs near notBelow below known rest hint' result inductionHypothesis =>
      obtain ⟨ordered, sums, types⟩ := inductionHypothesis left.tail right leftNear.tail rightNear
      rw [result] at ordered sums types
      refine ⟨ordered.cons (fun term inside => ?_) known near.1, fun type => ?_,
        fun term inside => ?_⟩
      · obtain ⟨other, found, same⟩ := types term inside
        rw [← same]
        rcases List.mem_append.1 found with before | after
        · exact left.head_lt other before
        · rcases List.mem_cons.1 after with rfl | later
          · exact below
          · exact below.trans (right.head_lt other later)
      · rw [coefficient_cons, sums, coefficient_cons p ps, add_assoc]
      · rcases List.mem_cons.1 inside with rfl | later
        · exact ⟨term, by simp, rfl⟩
        · obtain ⟨other, found, same⟩ := types term later
          exact ⟨other, List.mem_cons_of_mem _ found, same⟩
  | case5 hint p ps q qs near notBelow notAbove sum added hint' unknown =>
      exact absurd unknown (left.known p List.mem_cons_self)
  | case6 hint p ps q qs near notBelow notAbove sum added hint' known rest hint'' result
      inductionHypothesis =>
      obtain ⟨ordered, sums, types⟩ :=
        inductionHypothesis left.tail right.tail leftNear.tail rightNear.tail
      rw [result] at ordered sums types
      have equal : q.type = p.type := by omega
      have above : ∀ term ∈ rest, p.type < term.type := by
        intro term inside
        obtain ⟨other, found, same⟩ := types term inside
        rw [← same]
        rcases List.mem_append.1 found with before | after
        · exact left.head_lt other before
        · exact equal ▸ right.head_lt other after
      have split : ∀ type, coefficient (added ++ rest) type =
          (if p.type = type then sum else 0) + coefficient rest type := by
        intro type
        by_cases zero : sum = 0
        · rw [show added = [] from if_pos zero, zero, ite_self, zero_add, List.nil_append]
        · rw [show added = [{ type := p.type, value := sum }] from if_neg zero]
          exact coefficient_cons _ _ _
      refine ⟨?_, fun type => ?_, fun term inside => ?_⟩
      · by_cases zero : sum = 0
        · rw [show added = [] from if_pos zero]
          exact ordered
        · rw [show added = [{ type := p.type, value := sum }] from if_neg zero]
          exact ordered.cons above known near.1
      · rw [split, sums, coefficient_cons p ps, coefficient_cons q qs, equal]
        split_ifs
        · show p.value + q.value + _ = _
          exact add_add_add_comm _ _ _ _
        · rw [zero_add, zero_add, zero_add]
      · rcases List.mem_append.1 inside with first | later
        · by_cases zero : sum = 0
          · rw [show added = [] from if_pos zero] at first
            cases first
          · rw [show added = [{ type := p.type, value := sum }] from if_neg zero,
              List.mem_singleton] at first
            exact ⟨p, by simp, by rw [first]⟩
        · obtain ⟨other, found, same⟩ := types term later
          refine ⟨other, ?_, same⟩
          simp only [List.mem_append, List.mem_cons] at found ⊢
          tauto
  | case7 hint p ps q qs far =>
      exact absurd ⟨leftNear.head, rightNear.head⟩ far
  | case8 hint p q none =>
      rw [copyRest_near preserve leftNear, copyRest_near preserve rightNear]
      match p, q, none with
      | [], q, _ =>
          exact ⟨right, fun type => (zero_add _).symm, fun term inside => ⟨term, inside, rfl⟩⟩
      | p :: ps, [], _ =>
          rw [List.append_nil]
          exact ⟨left, fun type => (add_zero _).symm,
            fun term inside => ⟨term, by simpa using inside, rfl⟩⟩
      | p :: ps, q :: qs, none => exact (none p ps q qs rfl rfl).elim

theorem ordered_addVectors (hint : Option EvalHints) {p q : List Expr} (left : Ordered p)
    (right : Ordered q) (leftNear : NearTypes p) (rightNear : NearTypes q) :
    Ordered (addVectors hint p q).1 :=
  (addVectorsLoop_spec _ hint left right leftNear rightNear).1

theorem coefficient_addVectors (hint : Option EvalHints) {p q : List Expr} (left : Ordered p)
    (right : Ordered q) (leftNear : NearTypes p) (rightNear : NearTypes q) :
    coefficient (addVectors hint p q).1 = fun type => coefficient p type + coefficient q type := by
  funext type
  exact (addVectorsLoop_spec _ hint left right leftNear rightNear).2.1 type

/-- The components before a far-absolute segment are multiplied. -/
theorem scalarMult_eq (affect : Bool) (scalar : BitVec 64) (vect : List Expr) :
    ∀ hint, (scalarMult hint affect scalar vect).1 =
      (vect.takeWhile fun term => decide (term.type < exprFar)).map fun term =>
        { term with value := scalar * term.value } := by
  induction vect with
  | nil =>
      intro hint
      rfl
  | cons term vect inductionHypothesis =>
      intro hint
      rw [scalarMult]
      split
      · next near =>
          rw [List.takeWhile_cons, if_pos (decide_eq_true near), List.map_cons,
            ← inductionHypothesis]
      · next far =>
          rw [List.takeWhile_cons, if_neg (by simpa using far)]
          rfl

theorem ordered_scalarMult (hint : Option EvalHints) (affect : Bool) (scalar : BitVec 64)
    {vect : List Expr} (ordered : Ordered vect) :
    Ordered (scalarMult hint affect scalar vect).1 := by
  have kept : (vect.takeWhile fun term => decide (term.type < exprFar)).Sublist vect :=
    (List.takeWhile_prefix _).sublist
  rw [scalarMult_eq affect scalar vect]
  refine ⟨List.pairwise_map.2 (ordered.ascending.sublist kept), fun term inside => ?_,
    fun term inside far => ?_, fun term inside => ?_⟩
  · obtain ⟨other, found, rfl⟩ := List.mem_map.1 inside
    exact ordered.known other (kept.subset found)
  · obtain ⟨other, found, rfl⟩ := List.mem_map.1 inside
    have near := List.mem_takeWhile_imp found
    exact absurd far (not_le.2 (of_decide_eq_true near))
  · obtain ⟨other, found, rfl⟩ := List.mem_map.1 inside
    exact ordered.bounded other (kept.subset found)

theorem coefficient_scalarMult (hint : Option EvalHints) (affect : Bool) (scalar : BitVec 64)
    {vect : List Expr} (ordered : Ordered vect) :
    coefficient (scalarMult hint affect scalar vect).1 =
      Form.near fun type => scalar * coefficient vect type := by
  funext type
  rw [scalarMult_eq affect scalar vect, Form.near]
  induction vect with
  | nil => exact ((ite_self _).trans (mul_zero scalar)).symm
  | cons term vect inductionHypothesis =>
      by_cases near : term.type < exprFar
      · rw [List.takeWhile_cons, if_pos (decide_eq_true near), List.map_cons, coefficient_cons,
          inductionHypothesis ordered.tail, coefficient_cons]
        split_ifs with same below below
        · exact (mul_add scalar term.value _).symm
        · exact absurd (same ▸ near) below
        · rw [zero_add, zero_add]
        · rfl
      · rw [List.takeWhile_cons, if_neg (by simpa using near), List.map_nil, coefficient_nil]
        split
        · next below =>
            have absent : coefficient (term :: vect) type = 0 := by
              apply coefficient_absent
              intro other inside
              rcases List.mem_cons.1 inside with rfl | later
              · omega
              · have := ordered.head_lt other later
                omega
            rw [absent, mul_zero]
        · rfl

end Projs.Asm

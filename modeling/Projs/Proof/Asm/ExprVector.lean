import Mathlib.Data.List.Pairwise
import Mathlib.Data.BitVec
import Projs.Construction.Asm.ExprTree

namespace Projs.Asm

/-- The multiple of a type of component in a vector. -/
def coefficient : List Expr → Form
  | [], _ => 0
  | term :: vect, type => (if term.type = type then term.value else 0) + coefficient vect type

/-- The types are in ascending order, none is the unknown, and a far-absolute one has a multiple. -/
structure Ordered (vect : List Expr) : Prop where
  ascending : vect.Pairwise fun first second => first.type < second.type
  known : ∀ term ∈ vect, term.type ≠ exprUnknown
  far : ∀ term ∈ vect, exprFar ≤ term.type → term.value ≠ 0
  bounded : ∀ term ∈ vect, term.type < 2 ^ 31

/-- No type is far-absolute. -/
def NearTypes (vect : List Expr) : Prop := ∀ term ∈ vect, term.type < exprFar

theorem NearTypes.tail {term : Expr} {vect : List Expr} (near : NearTypes (term :: vect)) :
    NearTypes vect := fun other inside => near other (List.mem_cons_of_mem _ inside)

theorem NearTypes.head {term : Expr} {vect : List Expr} (near : NearTypes (term :: vect)) :
    term.type < exprFar := near term List.mem_cons_self

theorem Ordered.nil : Ordered [] :=
  ⟨List.Pairwise.nil, by simp, by simp, by simp⟩

theorem Ordered.tail {term : Expr} {vect : List Expr} (ordered : Ordered (term :: vect)) :
    Ordered vect :=
  ⟨ordered.ascending.tail, fun other inside => ordered.known other (List.mem_cons_of_mem _ inside),
    fun other inside => ordered.far other (List.mem_cons_of_mem _ inside),
    fun other inside => ordered.bounded other (List.mem_cons_of_mem _ inside)⟩

theorem Ordered.head_lt {term : Expr} {vect : List Expr} (ordered : Ordered (term :: vect)) :
    ∀ other ∈ vect, term.type < other.type := fun _ inside =>
  List.rel_of_pairwise_cons ordered.ascending inside

theorem Ordered.cons {term : Expr} {vect : List Expr} (ordered : Ordered vect)
    (below : ∀ other ∈ vect, term.type < other.type) (known : term.type ≠ exprUnknown)
    (near : term.type < exprFar) : Ordered (term :: vect) where
  ascending := List.pairwise_cons.2 ⟨below, ordered.ascending⟩
  known := List.forall_mem_cons.2 ⟨known, ordered.known⟩
  far := List.forall_mem_cons.2 ⟨fun far => absurd near (not_lt.2 far), ordered.far⟩
  bounded := List.forall_mem_cons.2 ⟨near.trans (by decide), ordered.bounded⟩

theorem Ordered.single {type : Int} (value : BitVec 64) (known : type ≠ exprUnknown)
    (near : type < exprFar) : Ordered [{ type, value }] :=
  Ordered.nil.cons (by simp) known near

/-- The base of any segment. -/
theorem Ordered.segment {segment : Int} (least : 0 ≤ segment)
    (bounded : exprSegbase + segment < 2 ^ 31) :
    Ordered [{ type := exprSegbase + segment, value := 1 }] where
  ascending := List.pairwise_singleton _ _
  known := by
    intro term inside
    rw [List.mem_singleton.1 inside]
    simp only [exprSegbase, exprUnknown]
    omega
  far := by
    intro term inside _
    have one : (1 : BitVec 64) ≠ 0 := by decide
    rw [List.mem_singleton.1 inside]
    exact one
  bounded := by
    intro term inside
    rw [List.mem_singleton.1 inside]
    exact bounded

@[simp] theorem coefficient_nil (type : Int) : coefficient [] type = 0 := rfl

theorem coefficient_cons (term : Expr) (vect : List Expr) (type : Int) :
    coefficient (term :: vect) type =
      (if term.type = type then term.value else 0) + coefficient vect type := rfl

theorem coefficient_single (type : Int) (value : BitVec 64) :
    coefficient [{ type, value }] = Form.single type value := by
  funext other
  rw [coefficient_cons, coefficient_nil, add_zero, Form.single]
  exact if_congr eq_comm rfl rfl

theorem coefficient_scalarvect (value : BitVec 64) :
    coefficient (scalarvect value) = Form.scalar value := coefficient_single exprSimple value

theorem ordered_scalarvect (value : BitVec 64) : Ordered (scalarvect value) :=
  Ordered.single value (by decide) (by decide)

theorem coefficient_absent {vect : List Expr} {type : Int}
    (absent : ∀ term ∈ vect, term.type ≠ type) : coefficient vect type = 0 := by
  induction vect with
  | nil => rfl
  | cons term vect inductionHypothesis =>
      rw [coefficient_cons, if_neg (absent term List.mem_cons_self),
        inductionHypothesis fun other inside => absent other (List.mem_cons_of_mem _ inside)]
      rfl

theorem coefficient_head {term : Expr} {vect : List Expr} (ordered : Ordered (term :: vect)) :
    coefficient (term :: vect) term.type = term.value := by
  rw [coefficient_cons, if_pos rfl,
    coefficient_absent fun other inside => (ordered.head_lt other inside).ne', add_zero]

theorem coefficient_tail {term : Expr} {vect : List Expr} {type : Int} (other : term.type ≠ type) :
    coefficient (term :: vect) type = coefficient vect type := by
  rw [coefficient_cons, if_neg other, zero_add]

theorem coefficient_mem {vect : List Expr} (ordered : Ordered vect) :
    ∀ term ∈ vect, coefficient vect term.type = term.value := by
  induction vect with
  | nil => simp
  | cons first vect inductionHypothesis =>
      intro term inside
      rcases List.mem_cons.1 inside with rfl | later
      · exact coefficient_head ordered
      · rw [coefficient_tail (ordered.head_lt term later).ne]
        exact inductionHypothesis ordered.tail term later

/-- A multiple that is not zero is that of a term. -/
theorem exists_of_coefficient {vect : List Expr} {type : Int}
    (present : coefficient vect type ≠ 0) : ∃ term ∈ vect, term.type = type := by
  by_contra none
  apply present
  apply coefficient_absent
  intro term inside same
  exact none ⟨term, inside, same⟩

theorem skipZero_suffix (vect : List Expr) : skipZero vect <:+ vect := by
  induction vect with
  | nil => exact List.suffix_rfl
  | cons term vect inductionHypothesis =>
      rw [skipZero]
      split
      · exact inductionHypothesis.trans (List.suffix_cons term vect)
      · exact List.suffix_rfl

theorem Ordered.suffix {first second : List Expr} (ordered : Ordered second)
    (suffix : first <:+ second) : Ordered first :=
  ⟨ordered.ascending.sublist suffix.sublist, fun term inside => ordered.known term
    (suffix.subset inside), fun term inside => ordered.far term (suffix.subset inside),
    fun term inside => ordered.bounded term (suffix.subset inside)⟩

theorem coefficient_skipZero (vect : List Expr) :
    coefficient (skipZero vect) = coefficient vect := by
  induction vect with
  | nil => rfl
  | cons term vect inductionHypothesis =>
      rw [skipZero]
      split
      · next zero =>
          funext type
          rw [inductionHypothesis, coefficient_cons, zero, ite_self, zero_add]
      · rfl

theorem skipZero_head {vect rest : List Expr} {term : Expr}
    (skipped : skipZero vect = term :: rest) : term.value ≠ 0 := by
  induction vect with
  | nil => cases skipped
  | cons first vect inductionHypothesis =>
      rw [skipZero] at skipped
      split at skipped
      · exact inductionHypothesis skipped
      · next nonzero =>
          cases skipped
          exact nonzero

/-- After the zeros there is nothing, or a first component that is not zero. -/
theorem skipZero_cases {vect : List Expr} (ordered : Ordered vect) :
    (skipZero vect = [] ∧ ∀ type, coefficient vect type = 0) ∨
      ∃ term rest, skipZero vect = term :: rest ∧ Ordered (term :: rest) ∧
        coefficient vect term.type = term.value ∧ term.value ≠ 0 ∧
        coefficient vect = coefficient (term :: rest) := by
  have equal := coefficient_skipZero vect
  match skipped : skipZero vect with
  | [] =>
      rw [skipped] at equal
      exact Or.inl ⟨rfl, fun type => by rw [← equal, coefficient_nil]⟩
  | term :: rest =>
      have kept : Ordered (term :: rest) := ordered.suffix (skipped ▸ skipZero_suffix vect)
      rw [skipped] at equal
      refine Or.inr ⟨term, rest, rfl, kept, ?_, skipZero_head skipped, equal.symm⟩
      rw [← equal, coefficient_head kept]

/-- A far-absolute segment would be seen in the form. -/
theorem Ordered.nearTypes {vect : List Expr} (ordered : Ordered vect)
    (near : (coefficient vect).Near) : NearTypes vect := by
  intro term inside
  by_contra far
  have value := ordered.far term inside (not_lt.1 far)
  rw [← coefficient_mem ordered term inside] at value
  exact value (near term.type (not_lt.1 far))

theorem isSimple_eq_isReallySimple {vect : List Expr} (ordered : Ordered vect)
    (allNear : NearTypes vect) : isSimple vect = isReallySimple vect := by
  rw [isSimple, isReallySimple]
  rcases skipZero_cases ordered with ⟨skipped, -⟩ | ⟨term, rest, skipped, kept, -⟩
  · rw [skipped]
  · have suffix : term :: rest <:+ vect := skipped ▸ skipZero_suffix vect
    rw [skipped]
    have near : ∀ other ∈ skipZero rest, other.type < exprFar := fun other inside =>
      allNear other (suffix.subset (List.mem_cons_of_mem _ ((skipZero_suffix rest).subset inside)))
    cases after : skipZero rest with
    | nil => simp [after]
    | cons next others =>
        have close := near next (by simp [after])
        simp [after, close]

theorem isSimple_iff {vect : List Expr} (ordered : Ordered vect) (near : NearTypes vect) :
    isSimple vect = true ↔ (coefficient vect).IsScalar := by
  rw [isSimple_eq_isReallySimple ordered near, isReallySimple]
  rcases skipZero_cases ordered with
    ⟨skipped, zero⟩ | ⟨term, rest, skipped, kept, found, value, equal⟩
  · rw [skipped]
    exact iff_of_true rfl fun type _ => zero type
  · rw [skipped]
    by_cases simple : term.type = exprSimple
    · show (if term.type ≠ exprSimple then false else (skipZero rest).isEmpty) = true ↔ _
      rw [if_neg (not_not.2 simple), List.isEmpty_iff, equal]
      rcases skipZero_cases kept.tail with
        ⟨empty, zero⟩ | ⟨next, others, after, -, present, other, -⟩
      · refine iff_of_true empty fun type different => ?_
        rw [coefficient_tail (by rw [simple]; exact different.symm), zero]
      · rw [after]
        refine iff_of_false (by simp) fun scalar => other ?_
        have inside : next ∈ rest := (skipZero_suffix rest).subset (by simp [after])
        have above := kept.head_lt next inside
        have zero := scalar next.type (by omega)
        rwa [coefficient_tail above.ne, present] at zero
    · show (if term.type ≠ exprSimple then false else (skipZero rest).isEmpty) = true ↔ _
      rw [if_pos simple]
      refine iff_of_false Bool.false_ne_true fun scalar => value ?_
      rw [← found, scalar term.type simple]

theorem isUnknown_ordered {vect : List Expr} (ordered : Ordered vect) : isUnknown vect = false := by
  induction vect with
  | nil => rfl
  | cons term vect inductionHypothesis =>
      rw [isUnknown]
      split
      · exact inductionHypothesis ordered.tail
      · exact decide_eq_false (ordered.known term List.mem_cons_self)

theorem isJustUnknown_ordered {vect : List Expr} (ordered : Ordered vect) :
    isJustUnknown vect = false := by
  rw [isJustUnknown]
  rcases skipZero_cases ordered with ⟨skipped, -⟩ | ⟨term, rest, skipped, kept, -⟩
  · rw [skipped]
  · rw [skipped]
    exact decide_eq_false (kept.known term List.mem_cons_self)

/-- The scalar part is found where no smaller type has a multiple. -/
theorem relocValue_eq {vect : List Expr} (ordered : Ordered vect)
    (least : ∀ type, coefficient vect type ≠ 0 → exprSimple ≤ type) :
    relocValue vect = coefficient vect exprSimple := by
  rw [relocValue]
  rcases skipZero_cases ordered with
    ⟨skipped, zero⟩ | ⟨term, rest, skipped, kept, found, value, equal⟩
  · rw [skipped, zero]
  · rw [skipped]
    by_cases simple : term.type = exprSimple
    · show (if term.type = exprSimple then term.value else 0) = _
      rw [if_pos simple, ← found, simple]
    · show (if term.type = exprSimple then term.value else 0) = _
      have above := least term.type (by rw [found]; exact value)
      rw [if_neg simple, equal]
      symm
      apply coefficient_absent
      intro other inside
      rcases List.mem_cons.1 inside with rfl | later
      · exact simple
      · have := kept.head_lt other later
        omega

theorem relocValue_scalar {vect : List Expr} (ordered : Ordered vect)
    (scalar : (coefficient vect).IsScalar) : relocValue vect = coefficient vect exprSimple := by
  apply relocValue_eq ordered
  intro type present
  by_contra below
  exact present (scalar type (by omega))

theorem relocSeg_cases {vect : List Expr} (ordered : Ordered vect) :
    (relocSeg vect = noSeg ∧ ∀ type, exprSegbase ≤ type → coefficient vect type ≠ 1) ∨
      ∃ type, exprSegbase ≤ type ∧ coefficient vect type = 1 ∧ type < 2 ^ 31 ∧
        relocSeg vect = type - exprSegbase := by
  induction vect with
  | nil => exact Or.inl ⟨rfl, fun type _ => by simp⟩
  | cons term vect inductionHypothesis =>
      rw [relocSeg]
      split
      · next found =>
          exact Or.inr ⟨term.type, found.1, (coefficient_head ordered).trans found.2,
            ordered.bounded term List.mem_cons_self, rfl⟩
      · next other =>
          rcases inductionHypothesis ordered.tail with
            ⟨none, absent⟩ | ⟨type, based, one, near, found⟩
          · refine Or.inl ⟨none, fun type based one => ?_⟩
            by_cases same : term.type = type
            · subst same
              exact other ⟨based, by rw [← coefficient_head ordered, one]⟩
            · rw [coefficient_tail same] at one
              exact absent type based one
          · refine Or.inr ⟨type, based, ?_, near, found⟩
            obtain ⟨member, inside, rfl⟩ := exists_of_coefficient (by rw [one]; decide)
            rw [coefficient_tail (ordered.head_lt member inside).ne, one]

end Projs.Asm

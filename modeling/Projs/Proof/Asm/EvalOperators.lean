import Projs.Proof.Asm.ExprArithmetic
import Projs.Proof.Asm.Ilog2

namespace Projs.Asm
open OperatorLoop

/-- A vector in order has the multiples of the linear form. -/
structure Represents (vect : List Expr) (form : Form) : Prop where
  ordered : Ordered vect
  multiples : coefficient vect = form

/-- The evaluation stands before the next token, and nothing more was reported. -/
structure Reached (state final : EvalState) (next : Token) (rest : List Token) (count : Nat) :
    Prop where
  i : final.i = next
  unread : final.unread = rest
  deadman : final.deadman = state.deadman + count
  errors : final.errors = state.errors

/-- Something that means a linear form gives a vector of it, and what means nothing is reported, or
it gives no vector. -/
def Reads (state : EvalState) (next : Token) (rest : List Token) (count : Nat)
    (meaning : Option Form) (outcome : EvalResult) : Prop :=
  match meaning with
  | some form => ∃ vect final, outcome = .ok (some vect, final) ∧ Represents vect form ∧
      Reached state final next rest count
  | none => ∀ vect final, outcome = .ok (some vect, final) → final.errors ≠ state.errors

/-- What the step leaves has all errors that were there before. -/
abbrev KeepsErrors (state : EvalState) (outcome : EvalResult) : Prop :=
  Leaves (Grows EvalState.errors) state outcome

section Outcomes
variable {state : EvalState} {next : Token} {rest : List Token} {count : Nat}

theorem Reads.none_value (final : EvalState) :
    Reads state next rest count none (.ok (none, final)) := by
  intro vect other equal
  cases equal

theorem Reads.undefined : Reads state next rest count none (.error .undefined) := by
  intro vect other equal
  cases equal

theorem Reads.reported {vect : List Expr} {final : EvalState} (error : EvalError)
    (added : final.errors = state.errors ++ [error]) :
    Reads state next rest count none (.ok (some vect, final)) := by
  intro other last equal
  cases equal
  rw [added]
  exact fun same => absurd (congrArg List.length same) (by simp)

/-- A vector is given where the evaluation stands. -/
theorem Reads.here {vect : List Expr} {form : Form} (represents : Represents vect form)
    (warnings : List String) (hint : Option EvalHints) :
    Reads state state.i state.unread 0 (some form)
      (.ok (some vect, { state with warnings, hint })) :=
  ⟨vect, _, rfl, represents, rfl, rfl, rfl, rfl⟩

theorem KeepsErrors.of_errors {value : Option (List Expr)} {final : EvalState}
    (same : final.errors = state.errors) : KeepsErrors state (.ok (value, final)) := by
  intro other last equal
  cases equal
  rw [Grows, same]

theorem keepsErrors_error (fault : EvalFault) : KeepsErrors state (.error fault) := by
  intro value final equal
  cases equal

end Outcomes

theorem Form.value_of_isScalar {form : Form} (scalar : form.IsScalar) :
    form.value = some (form exprSimple) := if_pos scalar

theorem Form.value_of_not {form : Form} (other : ¬form.IsScalar) : form.value = none := if_neg other

theorem Represents.single {type : Int} (value : BitVec 64) (known : type ≠ exprUnknown)
    (near : type < exprFar) : Represents [{ type, value }] (Form.single type value) :=
  ⟨Ordered.single value known near, coefficient_single type value⟩

theorem Represents.segment {segment : Int} (least : 0 ≤ segment)
    (bounded : exprSegbase + segment < 2 ^ 31) :
    Represents [{ type := exprSegbase + segment, value := 1 }]
      (Form.single (exprSegbase + segment) 1) :=
  ⟨Ordered.segment least bounded, coefficient_single _ _⟩

section Vectors
variable {vect : List Expr} {form : Form} (represents : Represents vect form)
include represents

theorem Represents.nearTypes (near : form.Near) : NearTypes vect :=
  represents.ordered.nearTypes (by rwa [represents.multiples])

theorem Represents.isJustUnknown_eq : isJustUnknown vect = false :=
  isJustUnknown_ordered represents.ordered

theorem Represents.isUnknown_eq : isUnknown vect = false := isUnknown_ordered represents.ordered

theorem Represents.isSimple_eq (near : form.Near) : isSimple vect = form.value.isSome := by
  have simple := isSimple_iff represents.ordered (represents.nearTypes near)
  rw [represents.multiples] at simple
  by_cases scalar : form.IsScalar
  · rw [Form.value_of_isScalar scalar, simple.2 scalar]
    rfl
  · rw [Form.value_of_not scalar]
    exact Bool.eq_false_iff.2 fun is => scalar (simple.1 is)

theorem Represents.isReallySimple_eq (near : form.Near) :
    isReallySimple vect = form.value.isSome := by
  rw [← isSimple_eq_isReallySimple represents.ordered (represents.nearTypes near),
    represents.isSimple_eq near]

theorem Represents.isOperand_eq (near : form.Near) : isOperand vect = form.value.isSome := by
  rw [isOperand, represents.isJustUnknown_eq, Bool.or_false, represents.isSimple_eq near]

theorem Represents.relocValue_eq {value : BitVec 64} (scalar : form.value = some value) :
    relocValue vect = value := by
  by_cases is : form.IsScalar
  · rw [Form.value_of_isScalar is] at scalar
    rw [relocValue_scalar represents.ordered (by rwa [represents.multiples]),
      represents.multiples]
    exact Option.some.inj scalar
  · rw [Form.value_of_not is] at scalar
    cases scalar

end Vectors

theorem represents_scalarvect (value : BitVec 64) :
    Represents (scalarvect value) (Form.scalar value) :=
  ⟨ordered_scalarvect value, coefficient_scalarvect value⟩

theorem Form.Near.near_eq {form : Form} (near : form.Near) : form.near = form := by
  funext type
  rw [Form.near]
  split
  · rfl
  · next far => exact (near type (not_lt.1 far)).symm

theorem Form.near_near (form : Form) : form.near.Near := fun _ far => if_neg (not_lt.2 far)

theorem Form.Near.scaled {form : Form} (near : form.Near) (scalar : BitVec 64) :
    Form.Near fun type => scalar * form type := by
  intro type far
  change scalar * form type = 0
  rw [near type far, mul_zero]

theorem Form.Near.negated {form : Form} (near : form.Near) : Form.Near fun type => -form type := by
  intro type far
  change -form type = 0
  rw [near type far, neg_zero]

theorem Form.Near.sub {left right : Form} (first : left.Near) (second : right.Near) :
    Form.Near fun type => left type - right type := by
  intro type far
  change left type - right type = 0
  rw [first type far, second type far, sub_self]

theorem Represents.scalarMult {vect : List Expr} {form : Form} (represents : Represents vect form)
    (near : form.Near) (hint : Option EvalHints) (affect : Bool) (scalar : BitVec 64) :
    Represents (scalarMult hint affect scalar vect).1 fun type => scalar * form type where
  ordered := ordered_scalarMult hint affect scalar represents.ordered
  multiples := by
    rw [coefficient_scalarMult hint affect scalar represents.ordered, represents.multiples]
    exact (near.scaled scalar).near_eq

theorem Represents.negated {vect : List Expr} {form : Form} (represents : Represents vect form)
    (near : form.Near) (hint : Option EvalHints) :
    Represents (Asm.scalarMult hint false (-1) vect).1 fun type => -form type where
  ordered := ordered_scalarMult hint false (-1) represents.ordered
  multiples := by
    rw [(represents.scalarMult near hint false (-1)).multiples]
    funext type
    exact neg_one_mul (form type)

theorem Represents.addVectors {p q : List Expr} {left right : Form} (first : Represents p left)
    (second : Represents q right) (leftNear : left.Near) (rightNear : right.Near)
    (hint : Option EvalHints) :
    Represents (addVectors hint p q).1 fun type => left type + right type where
  ordered := ordered_addVectors hint first.ordered second.ordered (first.nearTypes leftNear)
    (second.nearTypes rightNear)
  multiples := by rw [coefficient_addVectors hint first.ordered second.ordered
    (first.nearTypes leftNear) (second.nearTypes rightNear), first.multiples, second.multiples]

section Operators
variable {e f : List Expr} {left right : Form} (first : Represents e left)
  (second : Represents f right) (leftNear : left.Near) (rightNear : right.Near)
  (state : EvalState)
include first second leftNear rightNear

theorem scalarOperator_reads (text : String) (operation : BitVec 64 → BitVec 64 → BitVec 64)
    (j : Token) :
    Reads state state.i state.unread 0
      (left.value.bind fun a => right.value.bind fun b => some (Form.scalar (operation a b)))
      (scalarOperator text operation j e f state) := by
  rw [scalarOperator, first.isJustUnknown_eq, second.isJustUnknown_eq, first.isOperand_eq leftNear,
    second.isOperand_eq rightNear, if_neg (by simp)]
  cases leftValue : left.value with
  | none => exact Reads.reported (.text text) rfl
  | some a =>
      cases rightValue : right.value with
      | none => exact Reads.reported (.text text) rfl
      | some b =>
          rw [first.relocValue_eq leftValue, second.relocValue_eq rightValue]
          exact Reads.here (represents_scalarvect _) state.warnings state.hint

/-- The difference of two vectors. -/
theorem Represents.subtracted (hint : Option EvalHints) :
    Represents (Asm.addVectors (Asm.scalarMult hint false (-1) f).2 e
      (Asm.scalarMult hint false (-1) f).1).1 fun type => left type - right type where
  ordered := (first.addVectors (second.negated rightNear hint) leftNear rightNear.negated _).ordered
  multiples := by
    rw [(first.addVectors (second.negated rightNear hint) leftNear rightNear.negated _).multiples]
    funext type
    exact (sub_eq_add_neg _ _).symm

theorem addition_reads {operator : Binary} (line : operator.level = 8) :
    Reads state state.i state.unread 0 (operator.meaning left right)
      (addition operator.token e f state) := by
  cases operator <;> first
    | exact absurd line (by decide)
    | skip
  · exact Reads.here (first.addVectors second leftNear rightNear state.hint) state.warnings _
  · exact Reads.here (first.subtracted second leftNear rightNear state.hint) state.warnings _

theorem shift_reads {operator : Binary} (line : operator.level = 7) :
    Reads state state.i state.unread 0 (operator.meaning left right)
      (shift operator.token e f state) := by
  have meaning : operator.meaning left right = left.value.bind fun a => right.value.bind fun b =>
      (operator.scalarMeaning a b).map Form.scalar := by
    cases operator <;> first
      | exact absurd line (by decide)
      | rfl
  unfold shift
  rw [meaning, first.isJustUnknown_eq, second.isJustUnknown_eq, first.isOperand_eq leftNear,
    second.isOperand_eq rightNear]
  cases leftValue : left.value with
  | none => exact Reads.reported (.text _) rfl
  | some a =>
      cases rightValue : right.value with
      | none => exact Reads.reported (.text _) rfl
      | some b =>
          rw [if_neg (by simp), if_neg (by simp), first.relocValue_eq leftValue,
            second.relocValue_eq rightValue]
          show Reads _ _ _ _ ((operator.scalarMeaning a b).map Form.scalar) _
          cases operator <;> first
            | exact absurd line (by decide)
            | skip
          all_goals
            simp only [Binary.scalarMeaning, Binary.token]
            split_ifs
            · omega
            · exact Reads.here (represents_scalarvect _) state.warnings state.hint
            · exact Reads.undefined
            · omega

theorem multiplication_times_reads :
    Reads state state.i state.unread 0 (Binary.times.meaning left right)
      (multiplication .times e f state) := by
  unfold multiplication
  rw [if_neg (by simp), if_neg (by simp), if_pos rfl, first.isSimple_eq leftNear,
    second.isSimple_eq rightNear, first.isJustUnknown_eq]
  simp only [Binary.meaning]
  cases leftValue : left.value with
  | some scalar =>
      rw [first.relocValue_eq leftValue]
      exact Reads.here (second.scalarMult rightNear state.hint true scalar) state.warnings _
  | none =>
      cases rightValue : right.value with
      | some scalar =>
          rw [second.relocValue_eq rightValue]
          exact Reads.here (first.scalarMult leftNear state.hint true scalar) state.warnings _
      | none => exact Reads.none_value _

theorem multiplication_division_reads {operator : Binary} (line : operator.level = 9)
    (division : operator ≠ .times) :
    Reads state state.i state.unread 0 (operator.meaning left right)
      (multiplication operator.token e f state) := by
  have meaning : operator.meaning left right = left.value.bind fun a => right.value.bind fun b =>
      (quotient operator a b).map Form.scalar := by
    cases operator <;> first
      | exact absurd line (by decide)
      | exact absurd rfl division
      | rfl
  have token : operator.token ≠ .times := by
    cases operator <;> first
      | exact absurd line (by decide)
      | exact absurd rfl division
      | simp [Binary.token]
  unfold multiplication
  rw [meaning, first.isJustUnknown_eq, second.isJustUnknown_eq, first.isOperand_eq leftNear,
    second.isOperand_eq rightNear]
  cases leftValue : left.value with
  | none =>
      rw [if_pos ⟨token, by simp⟩]
      exact Reads.none_value _
  | some a =>
      cases rightValue : right.value with
      | none =>
          rw [if_pos ⟨token, by simp⟩]
          exact Reads.none_value _
      | some b =>
          rw [if_neg (by simp), first.relocValue_eq leftValue, second.relocValue_eq rightValue]
          show Reads _ _ _ _ ((quotient operator a b).map Form.scalar) _
          by_cases zero : b = 0
          · unfold quotient
            rw [if_pos zero, if_pos ⟨token, rfl, zero⟩]
            exact Reads.none_value _
          · unfold quotient
            have divisible : ¬(operator.token ≠ .times ∧ false = false ∧ b = 0) :=
              fun both => zero both.2.2
            have known : ¬(false = true ∨ false = true) := by simp
            rw [if_neg zero, if_neg divisible, if_neg token, if_neg known]
            cases operator <;> first
              | exact absurd line (by decide)
              | exact absurd rfl division
              | exact Reads.here (represents_scalarvect _) state.warnings state.hint
              | skip
            all_goals
              simp only [Binary.token]
              split_ifs
              · exact Reads.undefined
              · exact Reads.here (represents_scalarvect _) state.warnings state.hint

omit first second leftNear rightNear in
/-- The difference is the scalar zero only for equal forms. -/
theorem Form.value_sub_eq_zero_iff :
    (Form.value fun type => left type - right type) = some 0 ↔ left = right := by
  constructor
  · intro zero
    by_cases scalar : Form.IsScalar fun type => left type - right type
    · rw [Form.value_of_isScalar scalar] at zero
      funext type
      apply sub_eq_zero.1
      by_cases simple : type = exprSimple
      · rw [simple]
        exact Option.some.inj zero
      · exact scalar type simple
    · rw [Form.value_of_not scalar] at zero
      cases zero
  · intro equal
    subst equal
    have zero : (fun type => left type - left type) = fun _ => 0 := by
      funext type
      exact sub_self _
    rw [zero]
    exact Form.value_of_isScalar fun _ _ => rfl

theorem relation_equality_reads {operator : Binary}
    (equality : operator = .eq ∨ operator = .ne) :
    Reads state state.i state.unread 0 (operator.meaning left right)
      (relation operator.token e f state) := by
  have difference := first.subtracted second leftNear rightNear state.hint
  have token : operator.token = .eq ∨ operator.token = .ne := by
    rcases equality with rfl | rfl
    · exact Or.inl rfl
    · exact Or.inr rfl
  have different : (isReallySimple (addVectors (scalarMult state.hint false (-1) f).2 e
      (scalarMult state.hint false (-1) f).1).1 = false ∨
      relocValue (addVectors (scalarMult state.hint false (-1) f).2 e
        (scalarMult state.hint false (-1) f).1).1 ≠ 0) ↔ left ≠ right := by
    rw [← not_iff_not, not_not, ← @Form.value_sub_eq_zero_iff left right,
      difference.isReallySimple_eq (leftNear.sub rightNear)]
    cases value : Form.value fun type => left type - right type with
    | none => simp
    | some scalar =>
        rw [difference.relocValue_eq value]
        simp
  unfold relation
  simp only []
  rw [difference.isUnknown_eq, if_neg Bool.false_ne_true, if_pos token]
  by_cases equal : left = right
  · rw [if_neg (by rw [different]; exact not_not.2 equal)]
    have meaning : operator.meaning left right =
        some (Form.scalar (truth (operator.token = .eq))) := by
      rcases equality with rfl | rfl <;> simp [Binary.meaning, Binary.token, equal]
    rw [meaning]
    exact Reads.here (represents_scalarvect _) state.warnings _
  · rw [if_pos (different.2 equal)]
    have meaning : operator.meaning left right =
        some (Form.scalar (truth (operator.token = .ne))) := by
      rcases equality with rfl | rfl <;> simp [Binary.meaning, Binary.token, equal]
    rw [meaning]
    exact Reads.here (represents_scalarvect _) state.warnings _

theorem relation_order_reads {operator : Binary} (line : operator.level = 3)
    (order : operator ≠ .eq ∧ operator ≠ .ne) :
    Reads state state.i state.unread 0 (operator.meaning left right)
      (relation operator.token e f state) := by
  have difference := first.subtracted second leftNear rightNear state.hint
  have meaning : operator.meaning left right =
      (Form.value fun type => left type - right type).map fun difference =>
        Form.scalar (truth (operator.orderMeaning difference)) := by
    cases operator <;> first
      | exact absurd line (by decide)
      | exact absurd rfl order.1
      | exact absurd rfl order.2
      | rfl
  have token : ¬(operator.token = .eq ∨ operator.token = .ne) := by
    cases operator <;> first
      | exact absurd line (by decide)
      | exact absurd rfl order.1
      | exact absurd rfl order.2
      | simp [Binary.token]
  unfold relation
  simp only []
  rw [meaning, difference.isUnknown_eq, if_neg Bool.false_ne_true, if_neg token,
    difference.isReallySimple_eq (leftNear.sub rightNear)]
  cases value : Form.value fun type => left type - right type with
  | none => exact Reads.reported (.text _) rfl
  | some scalar =>
      rw [difference.relocValue_eq value, if_neg (by simp)]
      have signed : scalar = 0 ↔ scalar.toInt = 0 := by
        rw [← BitVec.toInt_inj]
        rfl
      have here : ∀ truthValue, truthValue = operator.orderMeaning scalar →
          Reads state state.i state.unread 0
            ((some scalar).map fun difference =>
              Form.scalar (truth (operator.orderMeaning difference)))
            (.ok (some (scalarvect (truth truthValue)), { state with
              hint := (addVectors (scalarMult state.hint false (-1) f).2 e
                (scalarMult state.hint false (-1) f).1).2 })) := by
        rintro _ rfl
        exact Reads.here (represents_scalarvect _) state.warnings _
      split_ifs with zero positive
      all_goals
        apply here
        rw [signed] at zero
        cases operator <;> first
          | exact absurd line (by decide)
          | exact absurd rfl order.1
          | exact absurd rfl order.2
          | simp [Binary.orderMeaning, Binary.token]
        all_goals omega

end Operators

end Projs.Asm

import Mathlib.Tactic.IntervalCases
import Projs.Proof.Asm.EvalOperands

namespace Projs.Asm
open OperatorLoop

/-- The levels of the grammar, from the first one, and after them the operands. -/
def parserAt (expr6 : EvalState → EvalResult) (fuel : Nat) : Nat → EvalState → EvalResult
  | 0 => rexp0 expr6 fuel
  | 1 => rexp1 expr6 fuel
  | 2 => rexp2 expr6 fuel
  | 3 => rexp3 expr6 fuel
  | 4 => expr0 expr6 fuel
  | 5 => expr1 expr6 fuel
  | 6 => expr2 expr6 fuel
  | 7 => expr3 expr6 fuel
  | 8 => expr4 expr6 fuel
  | 9 => expr5 expr6 fuel
  | _ => expr6

/-- What the operators of a level do with their operands. -/
def combineAt : Nat → Token → List Expr → List Expr → EvalState → EvalResult
  | 0 => logicalOr
  | 1 => logicalXor
  | 2 => logicalAnd
  | 3 => relation
  | 4 => bitOr
  | 5 => bitXor
  | 6 => bitAnd
  | 7 => shift
  | 8 => addition
  | _ => multiplication

def operatorOf : Token → Option Binary
  | .dblOr => some .dblOr
  | .dblXor => some .dblXor
  | .dblAnd => some .dblAnd
  | .eq => some .eq
  | .ne => some .ne
  | .lt => some .lt
  | .le => some .le
  | .gt => some .gt
  | .ge => some .ge
  | .or => some .or
  | .xor => some .xor
  | .and => some .and
  | .shl => some .shl
  | .shr => some .shr
  | .plus => some .plus
  | .minus => some .minus
  | .times => some .times
  | .div => some .div
  | .mod => some .mod
  | .sdiv => some .sdiv
  | .smod => some .smod
  | _ => none

def isOperatorAt (line : Nat) (token : Token) : Bool :=
  (operatorOf token).elim false fun operator => operator.level == line

theorem operatorOf_eq_some {token : Token} {operator : Binary}
    (found : operatorOf token = some operator) : token = operator.token := by
  cases token <;> cases found <;> rfl

theorem operatorOf_token (operator : Binary) : operatorOf operator.token = some operator := by
  cases operator <;> rfl

theorem isOperatorAt_token {operator : Binary} {line : Nat} (same : operator.level = line) :
    isOperatorAt line operator.token = true := by
  rw [isOperatorAt, operatorOf_token]
  exact beq_iff_eq.2 same

/-- Each level is a loop over its operators, with the next level for the operands. -/
theorem parserAt_eq (expr6 : EvalState → EvalResult) (fuel : Nat) {line : Nat}
    (binary : line < lastLevel) :
    parserAt expr6 fuel line =
      level (isOperatorAt line) (combineAt line) (parserAt expr6 fuel (line + 1)) fuel := by
  have operators : ∀ {isOperator : Token → Bool},
      (∀ token, isOperator token = isOperatorAt line token) →
      isOperator = isOperatorAt line := fun same => funext same
  rw [lastLevel] at binary
  interval_cases line
  all_goals
    refine congrArg (fun isOperator => level isOperator _ _ fuel) (operators fun token => ?_)
    cases token <;> rfl

theorem combineAt_quiet (line : Nat) (j : Token) (e f : List Expr) (state : EvalState) :
    Quiet Never state (combineAt line j e f state) := by
  unfold combineAt
  split
  · exact scalarOperator_quiet _ _ _ _ _
  · exact scalarOperator_quiet _ _ _ _ _
  · exact scalarOperator_quiet _ _ _ _ _
  · exact relation_quiet _ _ _
  · exact scalarOperator_quiet _ _ _ _ _
  · exact scalarOperator_quiet _ _ _ _ _
  · exact scalarOperator_quiet _ _ _ _ _
  · exact shift_quiet _ _ _
  · exact addition_quiet _ _ _
  · exact multiplication_quiet _ _ _

theorem truth_xor (left right : Bool) : truth left ^^^ truth right = truth (left != right) := by
  cases left <;> cases right <;> rfl

theorem logicalOr_meaning (left right : Form) : Binary.dblOr.meaning left right =
    left.value.bind fun a => right.value.bind fun b =>
      some (Form.scalar (truth (a ≠ 0 || b ≠ 0))) := by
  simp only [← Bool.decide_or]
  rfl

theorem logicalAnd_meaning (left right : Form) : Binary.dblAnd.meaning left right =
    left.value.bind fun a => right.value.bind fun b =>
      some (Form.scalar (truth (a ≠ 0 && b ≠ 0))) := by
  simp only [← Bool.decide_and]
  rfl

theorem logicalXor_meaning (left right : Form) : Binary.dblXor.meaning left right =
    left.value.bind fun a => right.value.bind fun b =>
      some (Form.scalar (truth (a = 0) ^^^ truth (b = 0))) := by
  have same : ∀ a b : BitVec 64, truth (decide (a = 0)) ^^^ truth (decide (b = 0)) =
      truth (decide ((a = 0) ≠ (b = 0))) := by
    intro a b
    rw [truth_xor]
    congr 1
    by_cases first : a = 0
    · by_cases second : b = 0
      · rw [decide_eq_true first, decide_eq_true second, decide_eq_false (by simp [first, second])]
        rfl
      · rw [decide_eq_true first, decide_eq_false second,
          decide_eq_true (by simpa [first] using second)]
        rfl
    · by_cases second : b = 0
      · rw [decide_eq_false first, decide_eq_true second,
          decide_eq_true (by simpa [second] using first)]
        rfl
      · rw [decide_eq_false first, decide_eq_false second,
          decide_eq_false (not_not.2 (propext (iff_of_false first second)))]
        rfl
  simp only [same]
  rfl

/-- An operator gives what it means, whatever level it is on. -/
theorem combineAt_reads (operator : Binary) {e f : List Expr} {left right : Form}
    (first : Represents e left) (second : Represents f right) (leftNear : left.Near)
    (rightNear : right.Near) (state : EvalState) :
    Reads state state.i state.unread 0 (operator.meaning left right)
      (combineAt operator.level operator.token e f state) := by
  cases operator with
  | dblOr =>
      rw [logicalOr_meaning]
      exact scalarOperator_reads first second leftNear rightNear state _ _ .dblOr
  | dblXor =>
      rw [logicalXor_meaning]
      exact scalarOperator_reads first second leftNear rightNear state _ _ .dblXor
  | dblAnd =>
      rw [logicalAnd_meaning]
      exact scalarOperator_reads first second leftNear rightNear state _ _ .dblAnd
  | eq => exact relation_equality_reads first second leftNear rightNear state (Or.inl rfl)
  | ne => exact relation_equality_reads first second leftNear rightNear state (Or.inr rfl)
  | lt =>
      exact relation_order_reads first second leftNear rightNear state rfl ⟨by decide, by decide⟩
  | le =>
      exact relation_order_reads first second leftNear rightNear state rfl ⟨by decide, by decide⟩
  | gt =>
      exact relation_order_reads first second leftNear rightNear state rfl ⟨by decide, by decide⟩
  | ge =>
      exact relation_order_reads first second leftNear rightNear state rfl ⟨by decide, by decide⟩
  | or => exact scalarOperator_reads first second leftNear rightNear state _ _ .or
  | xor => exact scalarOperator_reads first second leftNear rightNear state _ _ .xor
  | and => exact scalarOperator_reads first second leftNear rightNear state _ _ .and
  | shl => exact shift_reads first second leftNear rightNear state rfl
  | shr => exact shift_reads first second leftNear rightNear state rfl
  | plus => exact addition_reads first second leftNear rightNear state rfl
  | minus => exact addition_reads first second leftNear rightNear state rfl
  | times => exact multiplication_times_reads first second leftNear rightNear state
  | div => exact multiplication_division_reads first second leftNear rightNear state rfl (by decide)
  | mod => exact multiplication_division_reads first second leftNear rightNear state rfl (by decide)
  | sdiv =>
      exact multiplication_division_reads first second leftNear rightNear state rfl (by decide)
  | smod =>
      exact multiplication_division_reads first second leftNear rightNear state rfl (by decide)

section Errors
variable {Silent : EvalState → EvalState → Prop}

theorem KeepsErrors.scanned {state : EvalState} {outcome : EvalResult}
    (keeps : KeepsErrors (scan state) outcome) : KeepsErrors state outcome := by
  intro value final ran
  have grown := keeps value final ran
  rwa [Grows, scan_errors] at grown

theorem KeepsErrors.andThen {state : EvalState} {outcome : EvalResult}
    {next : List Expr → EvalState → EvalResult} (first : KeepsErrors state outcome)
    (second : ∀ value middle, KeepsErrors middle (next value middle)) :
    KeepsErrors state (andThen outcome next) :=
  Leaves.andThen Grows.trans first fun value middle _ => second value middle

/-- What is reported after some tokens is reported from them on. -/
theorem ReportsErrors.later (leads : Leads Later Silent) {state other : EvalState}
    {outcome : EvalResult} (later : Later state other) (errors : other.errors = state.errors)
    (reports : ReportsErrors Silent other outcome) : ReportsErrors Silent state outcome := by
  refine ⟨fun value final ran => ?_, fun value final ran =>
    later.trans (reports.moves value final ran), fun final ran same => leads.back later ?_⟩
  · have grown := reports.grows value final ran
    rwa [Grows, errors] at grown
  · exact reports.explains final ran (same.trans errors.symm)

theorem ReportsErrors.scanned (leads : Leads Later Silent) {state : EvalState}
    {outcome : EvalResult} (reports : ReportsErrors Silent (scan state) outcome) :
    ReportsErrors Silent state outcome :=
  reports.later leads (Later.refl state).scanned (scan_errors state)

variable {isOperator : Token → Bool}
  {combine : Token → List Expr → List Expr → EvalState → EvalResult}
  {operand : EvalState → EvalResult} (leads : Leads Later Silent)
  (operands : ∀ state, ReportsErrors Silent state (operand state))
  (quiet : ∀ j e f state, Quiet Never state (combine j e f state))
include leads operands quiet

theorem levelLoop_reports (steps : Nat) (e : List Expr) (state : EvalState) :
    ReportsErrors Silent state (levelLoop isOperator combine operand steps e state) :=
  Reports.operatorLoop leads (fun _ state =>
    (ReportsErrors.scanned leads (operands (scan state))).andThen leads
      fun _ _ => (quiet _ _ _ _).spoken.reports) steps e state

theorem level_reports (fuel : Nat) (state : EvalState) :
    ReportsErrors Silent state (level isOperator combine operand fuel state) :=
  (operands state).andThen leads (levelLoop_reports leads operands quiet fuel)

end Errors

theorem parserAt_reports {Silent : EvalState → EvalState → Prop} {expr6 : EvalState → EvalResult}
    (leads : Leads Later Silent) (fuel : Nat)
    (operands : ∀ state, ReportsErrors Silent state (expr6 state)) (below : Nat) :
    ∀ line, line + below = lastLevel →
      ∀ state, ReportsErrors Silent state (parserAt expr6 fuel line state) := by
  induction below with
  | zero =>
      intro line last
      obtain rfl : line = lastLevel := last
      exact operands
  | succ below inductionHypothesis =>
      intro line last state
      rw [parserAt_eq expr6 fuel (by omega)]
      exact level_reports leads (inductionHypothesis (line + 1) (by omega)) (combineAt_quiet line)
        fuel state

theorem bexpr_eq (expr6 : EvalState → EvalResult) (fuel : Nat) (relational : Bool) :
    bexpr expr6 fuel relational = parserAt expr6 fuel (startLevel relational) := by
  cases relational <;> rfl

theorem startLevel_le (relational : Bool) : startLevel relational ≤ lastLevel := by
  cases relational <;> decide

section Switch
variable (assembler : Assembler) (critical : Nat) (operand bexpr : EvalState → EvalResult)

/-- An operand is read quietly, or it is another operand or an expression in parentheses with a
quiet step after it. -/
theorem expr6Switch_cases (state : EvalState) :
    Quiet (FloatFails assembler) state (expr6Switch assembler critical operand bexpr state) ∨
      ∃ parser next, (parser = operand ∨ parser = bexpr) ∧
        (∀ value middle, Quiet Never middle (next value middle)) ∧
        expr6Switch assembler critical operand bexpr state =
          andThen (parser (scan state)) next := by
  have operandThen : ∀ next, (∀ value middle, Quiet Never middle (next value middle)) →
      Quiet (FloatFails assembler) state (andThen (operand (scan state)) next) ∨
        ∃ parser next', (parser = operand ∨ parser = bexpr) ∧
          (∀ value middle, Quiet Never middle (next' value middle)) ∧
          andThen (operand (scan state)) next = andThen (parser (scan state)) next' :=
    fun next quiet => Or.inr ⟨operand, next, Or.inl rfl, quiet, rfl⟩
  have scannedOnce : ∀ vect, Quiet (FloatFails assembler) state (.ok (some vect, scan state)) :=
    fun _ => Quiet.done (scan_errors state) (scan_deadman state) (Later.refl state).scanned
  have located : ∀ text vect, Quiet (FloatFails assembler) state
      (if assembler.known = false then unknownLocation text state
        else .ok (some vect, scan state)) := by
    intro text vect
    split
    · exact unknownLocation_quiet text
    · exact scannedOnce vect
  unfold expr6Switch
  cases first : state.i with
  | minus => exact operandThen _ fun _ _ => Quiet.done rfl rfl (Later.here rfl rfl)
  | plus =>
      exact Or.inr ⟨operand, fun e state => .ok (some e, state), Or.inl rfl,
        fun _ middle => Quiet.done rfl rfl (Later.refl middle), (andThen_pure _).symm⟩
  | not =>
      exact operandThen _ fun _ middle =>
        scalarPrefix_quiet _ (fun _ => ⟨List.prefix_rfl, rfl, Later.refl middle⟩) _
  | lnot =>
      exact operandThen _ fun _ middle =>
        scalarPrefix_quiet _ (fun _ => ⟨List.prefix_rfl, rfl, Later.refl middle⟩) _
  | ifunc func =>
      exact operandThen _ fun _ _ =>
        scalarPrefix_quiet _ (fun value => evalIfunc_quiet value func) _
  | seg =>
      exact operandThen _ fun _ _ => (segmentPart_quiet _ _).andThen fun _ _ => segCheck_quiet _ _
  | floatize type => exact Or.inl (evalFloatize_quiet assembler first)
  | strfunc type => exact Or.inl (evalStrfunc_quiet _ _)
  | lparen => exact Or.inr ⟨bexpr, _, Or.inr rfl, fun e _ => closing_quiet e, rfl⟩
  | num value => exact Or.inl (scannedOnce _)
  | str text =>
      exact Or.inl (Quiet.done ((scan_errors _).trans (warnIf_errors _ _ _))
        ((scan_deadman _).trans (warnIf_deadman _ _ _))
        ((Later.refl state).warnedIf _ _).scanned)
  | reg register =>
      exact Or.inl (Quiet.done (scan_errors _) (scan_deadman _)
        (Later.scanned (Later.here rfl rfl)))
  | id name => exact Or.inl (evalLabel_quiet _ _ _)
  | insn name => exact Or.inl (evalLabel_quiet _ _ _)
  | here => exact Or.inl (located _ _)
  | base => exact Or.inl (located _ _)
  | decorator value => exact Or.inl (scannedOnce _)
  | _ => exact Or.inl (Quiet.fail _ rfl rfl (Later.refl state))

theorem expr6Switch_reports {operand bexpr : EvalState → EvalResult}
    (operands : ∀ state, ReportsErrors (FloatFails assembler) state (operand state))
    (inner : ∀ state, ReportsErrors (FloatFails assembler) state (bexpr state))
    (state : EvalState) : ReportsErrors (FloatFails assembler) state
      (expr6Switch assembler critical operand bexpr state) := by
  rcases expr6Switch_cases assembler critical operand bexpr state with
    quiet | ⟨parser, next, which, quiet, same⟩
  · exact quiet.reports
  · have reports : ReportsErrors (FloatFails assembler) (scan state) (parser (scan state)) := by
      rcases which with rfl | rfl
      · exact operands (scan state)
      · exact inner (scan state)
    rw [same]
    exact (ReportsErrors.scanned (floatFails_leads assembler) reports).andThen
      (floatFails_leads assembler) fun value middle => (quiet value middle).spoken.reports

end Switch

theorem expr6_reports (assembler : Assembler) (critical : Nat) (relational : Bool)
    (fuel : Nat) : ∀ state, ReportsErrors (FloatFails assembler) state
      (expr6 assembler critical relational fuel state) := by
  induction fuel with
  | zero =>
      intro state
      refine ⟨keepsErrors_error .endless, fun value final ran => ?_, fun final ran => ?_⟩
      · cases ran
      · cases ran
  | succ fuel inductionHypothesis =>
      intro state
      have counted : Later state { state with deadman := state.deadman + 1 } := Later.here rfl rfl
      rw [expr6]
      split
      · have quiet : Quiet Never { state with deadman := state.deadman + 1 }
            (evalFail "expression too long" { state with deadman := state.deadman + 1 }) :=
          Quiet.fail _ rfl rfl (Later.refl _)
        exact ReportsErrors.later (floatFails_leads assembler) counted rfl quiet.spoken.reports
      · refine ReportsErrors.later (floatFails_leads assembler) counted rfl
          (expr6Switch_reports assembler critical inductionHypothesis ?_
            { state with deadman := state.deadman + 1 })
        rw [bexpr_eq]
        exact parserAt_reports (floatFails_leads assembler) fuel inductionHypothesis
          (lastLevel - startLevel relational) _ (Nat.add_sub_cancel' (startLevel_le relational))

theorem expr6_keepsErrors (assembler : Assembler) (critical : Nat) (relational : Bool)
    (fuel : Nat) (state : EvalState) :
    KeepsErrors state (expr6 assembler critical relational fuel state) :=
  (expr6_reports assembler critical relational fuel state).grows

end Projs.Asm

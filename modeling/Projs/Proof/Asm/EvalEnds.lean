import Projs.Proof.Asm.EvalRun

namespace Projs.Asm
open OperatorLoop

/-- The operands that are read are counted, up to the limit of the evaluator. -/
abbrev CountsOperands (limit least : Nat) (state : EvalState) (outcome : EvalResult) : Prop :=
  Counts .endless EvalState.deadman limit least state outcome

/-- With fuel for the operands that the limit leaves, a parser ends and counts at least one
operand. -/
def ReadsOperands (limit fuel : Nat) (parser : EvalState → EvalResult) : Prop :=
  ∀ state, state.deadman ≤ limit → limit < state.deadman + fuel →
    CountsOperands limit 1 state (parser state)

section Ending
variable {limit fuel : Nat}

theorem Quiet.counts {Silent : EvalState → EvalState → Prop} {state : EvalState}
    {outcome : EvalResult} (quiet : Quiet Silent state outcome) (within : state.deadman ≤ limit) :
    CountsOperands limit 0 state outcome := by
  refine ⟨quiet.1, fun value final ran => ?_⟩
  have same := (quiet.2 (some value) final ran).1.2.1
  omega

theorem CountsOperands.scanned {least : Nat} {state : EvalState} {outcome : EvalResult}
    (counts : CountsOperands limit least (scan state) outcome) :
    CountsOperands limit least state outcome := by
  refine ⟨counts.1, fun value final ran => ?_⟩
  have counted := counts.2 value final ran
  rwa [scan_deadman] at counted

theorem ReadsOperands.scanned {parser : EvalState → EvalResult}
    (reads : ReadsOperands limit fuel parser) {state : EvalState} (within : state.deadman ≤ limit)
    (enough : limit < state.deadman + fuel) :
    CountsOperands limit 1 state (parser (scan state)) := by
  have same := scan_deadman state
  exact CountsOperands.scanned (reads (scan state) (by omega) (by omega))

/-- What goes on quietly after an operand counts that operand. -/
theorem CountsOperands.andThen_quiet {state : EvalState} {outcome : EvalResult}
    {next : List Expr → EvalState → EvalResult} (first : CountsOperands limit 1 state outcome)
    (quiet : ∀ value middle, Quiet Never middle (next value middle)) :
    CountsOperands limit 1 state (andThen outcome next) :=
  first.andThen fun value middle _ within => (quiet value middle).counts within

section Levels
variable {isOperator : Token → Bool}
  {combine : Token → List Expr → List Expr → EvalState → EvalResult}
  {operand : EvalState → EvalResult}
  (operands : ReadsOperands limit fuel operand)
  (quiet : ∀ j e f state, Quiet Never state (combine j e f state))
include operands quiet

theorem levelLoop_counts (e : List Expr) {state : EvalState} (within : state.deadman ≤ limit)
    (enough : limit < state.deadman + fuel) :
    CountsOperands limit 0 state (levelLoop isOperator combine operand fuel e state) :=
  Counts.operatorLoop fuel e state within enough fun left middle after middleWithin =>
    (operands.scanned middleWithin (by omega)).andThen_quiet (quiet middle.i left)

theorem level_counts : ReadsOperands limit fuel (level isOperator combine operand fuel) :=
  fun state within enough => (operands state within enough).andThen
    fun e middle _ middleWithin => levelLoop_counts operands quiet e middleWithin (by omega)

end Levels

theorem parserAt_counts {expr6 : EvalState → EvalResult}
    (operands : ReadsOperands limit fuel expr6) (below : Nat) :
    ∀ line, line + below = lastLevel → ReadsOperands limit fuel (parserAt expr6 fuel line) := by
  induction below with
  | zero =>
      intro line last
      obtain rfl : line = lastLevel := last
      exact operands
  | succ below inductionHypothesis =>
      intro line last
      rw [parserAt_eq expr6 fuel (by omega)]
      exact level_counts (inductionHypothesis (line + 1) (by omega)) (combineAt_quiet line)

theorem bexpr_counts {expr6 : EvalState → EvalResult}
    (operands : ReadsOperands limit fuel expr6) (relational : Bool) :
    ReadsOperands limit fuel (bexpr expr6 fuel relational) := by
  rw [bexpr_eq]
  exact parserAt_counts operands (lastLevel - startLevel relational) _
    (Nat.add_sub_cancel' (startLevel_le relational))

theorem expr6Switch_counts (assembler : Assembler) (critical : Nat)
    {operand bexpr : EvalState → EvalResult} (operands : ReadsOperands limit fuel operand)
    (inner : ReadsOperands limit fuel bexpr) (state : EvalState) (within : state.deadman ≤ limit)
    (enough : limit < state.deadman + fuel) :
    CountsOperands limit 0 state (expr6Switch assembler critical operand bexpr state) := by
  rcases expr6Switch_cases assembler critical operand bexpr state with
    quiet | ⟨parser, next, which, quiet, same⟩
  · exact quiet.counts within
  · have reads : ReadsOperands limit fuel parser := by
      rcases which with rfl | rfl
      · exact operands
      · exact inner
    rw [same]
    exact ((reads.scanned within enough).andThen_quiet quiet).mono (Nat.zero_le 1)

end Ending

section Evaluation
variable (assembler : Assembler) (critical : Nat) (relational : Bool)

/-- The count of the operands is the measure: each level of nesting has counted one more. -/
theorem expr6_counts (fuel : Nat) :
    ReadsOperands assembler.limitEval fuel (expr6 assembler critical relational fuel) := by
  induction fuel with
  | zero =>
      intro state within enough
      omega
  | succ fuel inductionHypothesis =>
      intro state within enough
      rw [expr6]
      split
      · exact Counts.noValue
      · rename_i fits
        have counted : state.deadman + 1 ≤ assembler.limitEval := Nat.le_of_not_lt fits
        have left : assembler.limitEval < state.deadman + 1 + fuel := by omega
        exact expr6Switch_counts assembler critical inductionHypothesis
          (bexpr_counts inductionHypothesis relational)
          { state with deadman := state.deadman + 1 } counted left

theorem afterExpression_counts {fuel : Nat} (e : List Expr) {state : EvalState}
    (within : state.deadman ≤ assembler.limitEval)
    (enough : assembler.limitEval < state.deadman + fuel) :
    CountsOperands assembler.limitEval 0 state
      (afterExpression assembler critical relational fuel e state) := by
  unfold afterExpression
  split
  · exact (((expr6_counts assembler critical relational fuel).scanned within enough).andThen_quiet
      fun f middle => wrtStep_quiet e f middle).mono (Nat.zero_le 1)
  · exact Counts.done rfl within

/-- Whatever the scanner returns, the evaluation ends, and a vector is given only for an expression
with at least one operand and no more operands than the limit. -/
theorem evaluate_ends (token : Option Token) (unread : List Token) (fwref : Option OpFlags)
    (hints : Option EvalHints) :
    evaluate assembler token unread fwref critical hints ≠ .error .endless ∧
      ∀ vect final, evaluate assembler token unread fwref critical hints = .ok (some vect, final) →
        1 ≤ final.deadman ∧ final.deadman ≤ assembler.limitEval := by
  have start := evalStart_deadman token unread fwref hints
  have expression := bexpr_counts (expr6_counts assembler (criticalValue critical)
    (isRelational critical) (assembler.limitEval + 1)) (isRelational critical)
    (evalStart token unread fwref hints) (by omega) (by omega)
  have whole := expression.andThen fun e middle counted within =>
    @afterExpression_counts assembler (criticalValue critical) (isRelational critical)
      (assembler.limitEval + 1) e middle within (by omega)
  rw [bexpr_eq, ← evaluate_eq] at whole
  refine ⟨whole.1, fun vect final ran => ?_⟩
  have counted := whole.2 vect final ran
  omega

/-- An evaluation without a vector has reported why, unless it stands at a constant of its tokens
whose conversion was refused. -/
theorem evaluate_reports (token : Option Token) (unread : List Token) (fwref : Option OpFlags)
    (hints : Option EvalHints) (final : EvalState)
    (failed : evaluate assembler token unread fwref critical hints = .ok (none, final)) :
    final.errors ≠ [] ∨ FloatRefused assembler (token.toList ++ unread) final := by
  have whole : ReportsErrors (FloatFails assembler) (evalStart token unread fwref hints)
      (evaluate assembler token unread fwref critical hints) := by
    rw [evaluate_eq]
    exact (parserAt_explains (startLevel_le _) _ _).andThen (floatFails_leads assembler)
      (afterExpression_reports _)
  by_cases silent : final.errors = []
  · have refused := whole.explains final failed (by rw [silent, evalStart_errors])
    refine Or.inr ?_
    by_cases some' : token.toList ++ unread = []
    · obtain ⟨none, empty⟩ := List.append_eq_nil_iff.mp some'
      rw [Option.toList_eq_nil_iff] at none
      rw [FloatFails, none, empty] at refused
      exact absurd refused not_floatRefused_eos
    · rwa [FloatFails, evalStart_stands fwref hints some' rfl] at refused
  · exact Or.inl silent

/-- A parenthesis that closes nothing is reported, and a constant that is refused is not. -/
theorem evaluate_reports_refused :
    (∃ final, evaluate emptyAssembler none [.rparen, .eos] none 0 none = .ok (none, final) ∧
      (final.errors ≠ [] ∨ FloatRefused emptyAssembler [.rparen, .eos] final)) ∧
    ∃ final, evaluate emptyAssembler none
        [.floatize .float32, .lparen, .minus, .float [0x31], .rparen, .eos] none 0 none =
          .ok (none, final) ∧
      final.errors = [] ∧ FloatRefused emptyAssembler
        [.floatize .float32, .lparen, .minus, .float [0x31], .rparen, .eos] final :=
  ⟨⟨_, rfl, evaluate_reports emptyAssembler 0 none [.rparen, .eos] none none _ rfl⟩,
    ⟨_, rfl, rfl, (evaluate_reports emptyAssembler 0 none _ none none _ rfl).resolve_left
      (not_not.2 rfl)⟩⟩

end Evaluation

end Projs.Asm

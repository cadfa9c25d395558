import Projs.Proof.Asm.EvalLevels

namespace Projs.Asm
open OperatorLoop

/-- The token does not go on with an operator of this level or of a later one. -/
def Follows (line : Nat) (next : Token) : Prop :=
  ∀ operator, operatorOf next = some operator → operator.level < line

/-- The operands still to be counted are within the limit, and the fuel lasts for the limit. -/
structure Budget (assembler : Assembler) (fuel count : Nat) (state : EvalState) : Prop where
  within : state.deadman + count ≤ assembler.limitEval
  enough : assembler.limitEval < state.deadman + fuel

theorem Follows.mono {line later : Nat} {next : Token} (follows : Follows line next)
    (after : line ≤ later) : Follows later next := fun operator found =>
  Nat.lt_of_lt_of_le (follows operator found) after

theorem Follows.isOperatorAt {line : Nat} {next : Token} (follows : Follows line next) :
    isOperatorAt line next = false := by
  rw [Asm.isOperatorAt]
  cases found : operatorOf next with
  | none => rfl
  | some operator => exact beq_eq_false_iff_ne.2 (follows operator found).ne

theorem follows_token (operator : Binary) : Follows (operator.level + 1) operator.token := by
  intro other found
  rw [operatorOf_token] at found
  cases found
  exact Nat.lt_succ_self _

theorem Reached.trans {first second third : EvalState} {next last : Token} {rest left : List Token}
    {count more : Nat} (before : Reached first second next rest count)
    (after : Reached second third last left more) : Reached first third last left (count + more) :=
  ⟨after.i, after.unread, by rw [after.deadman, before.deadman, Nat.add_assoc],
    after.errors.trans before.errors⟩

@[simp] theorem warnIf_unread (warn : Bool) (text : String) (state : EvalState) :
    (warnIf warn text state).unread = state.unread := by
  cases warn <;> rfl

section Steps
variable {state : EvalState} {next last : Token} {rest left : List Token} {count more : Nat}

/-- Where nothing is meant, nothing that follows makes up for it. -/
theorem Reads.failed {outcome : EvalResult} {next' : List Expr → EvalState → EvalResult}
    (failed : Reads state next rest count none outcome) (keeps : KeepsErrors state outcome)
    (keepsNext : ∀ value middle, KeepsErrors middle (next' value middle)) :
    Reads state next rest count none (andThen outcome next') := by
  intro vect final ran same
  obtain ⟨value, middle, first, -⟩ := Clean.first ⟨ran, same⟩ keeps keepsNext
  exact failed value middle first.1 first.2

theorem Reads.mono_none {outcome : EvalResult} {state' : EvalState}
    (failed : Reads state next rest count none outcome) (same : state'.errors = state.errors) :
    Reads state' last left more none outcome := by
  intro vect final ran
  rw [same]
  exact failed vect final ran

/-- A step after another one reads what both mean. -/
theorem Reads.andThen {outcome : EvalResult} {meaning : Option Form} {then' : Form → Option Form}
    {next' : List Expr → EvalState → EvalResult}
    (first : Reads state next rest count meaning outcome) (keeps : KeepsErrors state outcome)
    (keepsNext : ∀ value middle, KeepsErrors middle (next' value middle))
    (second : ∀ form vect middle, meaning = some form → Represents vect form →
      Reached state middle next rest count →
      Reads middle last left more (then' form) (next' vect middle)) :
    Reads state last left (count + more) (meaning.bind then')
      (OperatorLoop.andThen outcome next') := by
  cases meaning with
  | none => exact (first.failed keeps keepsNext).mono_none rfl
  | some form =>
      obtain ⟨vect, middle, ran, represents, reached⟩ := first
      have read := second form vect middle rfl represents reached
      rw [ran]
      show Reads state last left (count + more) (then' form) (next' vect middle)
      cases meant : then' form with
      | none =>
          rw [meant] at read
          exact read.mono_none reached.errors.symm
      | some result =>
          rw [meant] at read
          obtain ⟨found, final, ended, represents', reached'⟩ := read
          exact ⟨found, final, ended, represents', reached.trans reached'⟩

/-- The second step reads nothing more. -/
theorem Reads.andThen_here {outcome : EvalResult} {meaning : Option Form}
    {then' : Form → Option Form} {next' : List Expr → EvalState → EvalResult}
    (first : Reads state next rest count meaning outcome) (keeps : KeepsErrors state outcome)
    (keepsNext : ∀ value middle, KeepsErrors middle (next' value middle))
    (second : ∀ form vect middle, meaning = some form → Represents vect form →
      Reads middle middle.i middle.unread 0 (then' form) (next' vect middle)) :
    Reads state next rest count (meaning.bind then') (OperatorLoop.andThen outcome next') := by
  show Reads state next rest (count + 0) _ _
  refine first.andThen keeps keepsNext fun form vect middle means represents reached => ?_
  have read := second form vect middle means represents
  rwa [reached.i, reached.unread] at read

theorem reached_scan (unread : state.unread = next :: rest) :
    Reached state (scan state) next rest 0 := by
  rw [scan_cons unread]
  exact ⟨rfl, rfl, rfl, rfl⟩

theorem reached_scan_other {other : EvalState} (unread : other.unread = next :: rest)
    (deadman : other.deadman = state.deadman) (errors : other.errors = state.errors) :
    Reached state (scan other) next rest 0 := by
  rw [scan_cons unread]
  exact ⟨rfl, rfl, deadman, errors⟩

/-- Only the errors and the count of the first state matter. -/
theorem Reads.moved {other : EvalState} {meaning : Option Form} {outcome : EvalResult}
    (read : Reads other next rest count meaning outcome) (deadman : other.deadman = state.deadman)
    (errors : other.errors = state.errors) : Reads state next rest count meaning outcome := by
  cases meaning with
  | none => exact Reads.mono_none read errors.symm
  | some form =>
      obtain ⟨vect, final, ran, represents, reached⟩ := read
      exact ⟨vect, final, ran, represents, reached.i, reached.unread,
        by rw [reached.deadman, deadman], by rw [reached.errors, errors]⟩

theorem Reads.scanned {meaning : Option Form} {outcome : EvalResult}
    (read : Reads (scan state) next rest count meaning outcome) :
    Reads state next rest count meaning outcome :=
  read.moved (scan_deadman state) (scan_errors state)

theorem scan_stands (unread : state.unread ≠ []) :
    (scan state).i :: (scan state).unread = state.unread := by
  obtain ⟨token, rest, equal⟩ := List.exists_cons_of_ne_nil unread
  rw [scan_cons equal, equal]

end Steps

section Lines
variable (assembler : Assembler) (critical : Nat) (relational : Bool)

/-- Some tokens are read at a level of the grammar as what they mean. -/
def ReadAt (line : Nat) (tokens : List Token) (count : Nat) (meaning : Option Form) : Prop :=
  ∀ fuel state next rest, state.i :: state.unread = tokens ++ next :: rest → Follows line next →
    Budget assembler fuel count state →
    Reads state next rest count meaning
      (parserAt (expr6 assembler critical relational fuel) fuel line state)

/-- The loop of a level, with the steps that it may still take. -/
def loopAt (fuel line steps : Nat) : List Expr → EvalState → EvalResult :=
  levelLoop (isOperatorAt line) (combineAt line)
    (parserAt (expr6 assembler critical relational fuel) fuel (line + 1)) steps

/-- Some tokens are read at a level as what they mean, and its loop goes on after them. -/
def OpenAt (line : Nat) (tokens : List Token) (count : Nat) (meaning : Option Form) : Prop :=
  ∀ fuel state next rest, state.i :: state.unread = tokens ++ next :: rest →
    Follows (line + 1) next → Budget assembler fuel count state →
    match meaning with
    | some form => ∃ vect middle used, used < count ∧ Represents vect form ∧
        Reached state middle next rest count ∧
        parserAt (expr6 assembler critical relational fuel) fuel line state =
          loopAt assembler critical relational fuel line (fuel - used) vect middle
    | none => Reads state next rest count none
        (parserAt (expr6 assembler critical relational fuel) fuel line state)

variable {assembler critical relational}

theorem parserAt_explains {line : Nat} (within : line ≤ lastLevel) (fuel : Nat)
    (state : EvalState) : ReportsErrors (FloatFails assembler) state
      (parserAt (expr6 assembler critical relational fuel) fuel line state) :=
  parserAt_reports (floatFails_leads assembler) fuel
    (expr6_reports assembler critical relational fuel)
    (lastLevel - line) line (Nat.add_sub_cancel' within) state

theorem parserAt_keeps {line : Nat} (within : line ≤ lastLevel) (fuel : Nat) (state : EvalState) :
    KeepsErrors state (parserAt (expr6 assembler critical relational fuel) fuel line state) :=
  (parserAt_explains within fuel state).grows

theorem loopAt_keeps {line : Nat} (binary : line < lastLevel) (fuel steps : Nat) (e : List Expr)
    (state : EvalState) :
    KeepsErrors state (loopAt assembler critical relational fuel line steps e state) :=
  (levelLoop_reports (floatFails_leads assembler) (parserAt_explains binary fuel)
    (combineAt_quiet line) steps e state).grows

theorem parserAt_loop {line : Nat} (binary : line < lastLevel) (fuel : Nat) (state : EvalState) :
    parserAt (expr6 assembler critical relational fuel) fuel line state =
      andThen (parserAt (expr6 assembler critical relational fuel) fuel (line + 1) state)
        (loopAt assembler critical relational fuel line fuel) := by
  rw [parserAt_eq _ fuel binary]
  rfl

theorem loopAt_more {line : Nat} {state : EvalState} (is : isOperatorAt line state.i = true)
    (fuel steps : Nat) (e : List Expr) :
    loopAt assembler critical relational fuel line (steps + 1) e state =
      andThen (andThen (parserAt (expr6 assembler critical relational fuel) fuel (line + 1)
        (scan state)) (combineAt line state.i e))
        (loopAt assembler critical relational fuel line steps) := by
  unfold loopAt levelLoop
  exact operatorLoop_more is

/-- What the next level reads is an operand of the level. -/
theorem ReadAt.opened {line count : Nat} {tokens : List Token} {meaning : Option Form}
    (binary : line < lastLevel) (positive : 0 < count)
    (read : ReadAt assembler critical relational (line + 1) tokens count meaning) :
    OpenAt assembler critical relational line tokens count meaning := by
  intro fuel state next rest stands follows budget
  have operand := read fuel state next rest stands follows budget
  rw [parserAt_loop binary]
  cases meaning with
  | none =>
      exact operand.failed (parserAt_keeps binary fuel state)
        (loopAt_keeps binary fuel fuel)
  | some form =>
      obtain ⟨vect, middle, ran, represents, reached⟩ := operand
      exact ⟨vect, middle, 0, positive, represents, reached, by rw [ran]; rfl⟩

/-- When no operator of the level follows, the loop is done. -/
theorem OpenAt.closed {line count : Nat} {tokens : List Token} {meaning : Option Form}
    (opened : OpenAt assembler critical relational line tokens count meaning) :
    ReadAt assembler critical relational line tokens count meaning := by
  intro fuel state next rest stands follows budget
  have read := opened fuel state next rest stands (follows.mono (Nat.le_succ line)) budget
  cases meaning with
  | none => exact read
  | some form =>
      obtain ⟨vect, middle, used, less, represents, reached, ran⟩ := read
      refine ⟨vect, middle, ?_, represents, reached⟩
      rw [ran]
      apply operatorLoop_done
      · have := budget.within
        have := budget.enough
        omega
      · rw [reached.i]
        exact follows.isOperatorAt

/-- Tokens that are read at a level are read at every level before it. -/
theorem ReadAt.before {count top : Nat} {tokens : List Token} {meaning : Option Form}
    (within : top ≤ lastLevel) (positive : 0 < count)
    (read : ReadAt assembler critical relational top tokens count meaning) (below : Nat) :
    ∀ line, line + below = top →
      ReadAt assembler critical relational line tokens count meaning := by
  induction below with
  | zero =>
      intro line last
      obtain rfl : line = top := last
      exact read
  | succ below inductionHypothesis =>
      intro line last
      exact ((inductionHypothesis (line + 1) (by omega)).opened (by omega) positive).closed

/-- An operator is read with its operands, and the loop of its level goes on. -/
theorem openAt_binary (operator : Binary) {leftTokens rightTokens : List Token}
    {leftCount rightCount : Nat} {left right : Option Form} (binary : operator.level < lastLevel)
    (positive : 0 < rightCount)
    (first : OpenAt assembler critical relational operator.level leftTokens leftCount left)
    (second : ReadAt assembler critical relational (operator.level + 1) rightTokens rightCount
      right) (leftNear : ∀ form, left = some form → form.Near)
    (rightNear : ∀ form, right = some form → form.Near) :
    OpenAt assembler critical relational operator.level
      (leftTokens ++ operator.token :: rightTokens) (leftCount + rightCount)
      (left.bind fun left => right.bind fun right => operator.meaning left right) := by
  intro fuel state next rest stands follows budget
  rw [List.append_assoc, List.cons_append] at stands
  have leftBudget : Budget assembler fuel leftCount state :=
    ⟨by have := budget.within; omega, budget.enough⟩
  have leftRead := first fuel state operator.token (rightTokens ++ next :: rest) stands
    (follows_token operator) leftBudget
  cases left with
  | none => exact Reads.mono_none leftRead rfl
  | some left =>
      obtain ⟨e, middle, used, less, represents, reached, ran⟩ := leftRead
      have within := budget.within
      have enough := budget.enough
      have deadman := reached.deadman
      have unread : middle.unread ≠ [] := by rw [reached.unread]; simp
      have rightStands := scan_stands unread
      rw [reached.unread] at rightStands
      have rightRead := second fuel (scan middle) next rest rightStands follows
        ⟨by rw [scan_deadman]; omega, by rw [scan_deadman]; omega⟩
      have step : Reads middle next rest rightCount
          (right.bind fun right => operator.meaning left right)
          (andThen (parserAt (expr6 assembler critical relational fuel) fuel (operator.level + 1)
            (scan middle)) (combineAt operator.level middle.i e)) := by
        apply Reads.scanned
        refine rightRead.andThen_here (parserAt_keeps binary fuel (scan middle))
          (fun value state => (combineAt_quiet _ _ _ _ _).keepsErrors) ?_
        intro right f later means rightRepresents
        rw [reached.i]
        exact combineAt_reads operator represents rightRepresents (leftNear left rfl)
          (rightNear right means) later
      have unrolled : loopAt assembler critical relational fuel operator.level (fuel - used) e
          middle = andThen (andThen (parserAt (expr6 assembler critical relational fuel) fuel
            (operator.level + 1) (scan middle)) (combineAt operator.level middle.i e))
            (loopAt assembler critical relational fuel operator.level (fuel - (used + 1))) := by
        rw [show fuel - used = fuel - (used + 1) + 1 by omega]
        exact loopAt_more (by rw [reached.i]; exact isOperatorAt_token rfl) _ _ _
      have keeps := (@parserAt_keeps assembler critical relational _ binary fuel
        (scan middle)).scanned.andThen fun value later =>
          (combineAt_quiet operator.level middle.i e value later).keepsErrors
      rw [ran, unrolled]
      rw [show (some left).bind (fun left => right.bind fun right => operator.meaning left right) =
        right.bind fun right => operator.meaning left right from rfl]
      cases meant : right.bind fun right => operator.meaning left right with
      | none =>
          rw [meant] at step
          exact (step.failed keeps (loopAt_keeps binary fuel _)).mono_none reached.errors.symm
      | some form =>
          rw [meant] at step
          obtain ⟨vect, final, stepped, represents', reached'⟩ := step
          exact ⟨vect, final, used + 1, by omega, represents', reached.trans reached',
            by rw [stepped]; rfl⟩

end Lines

end Projs.Asm

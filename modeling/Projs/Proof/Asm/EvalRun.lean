import Projs.Proof.Asm.EvalAtoms

namespace Projs.Asm
open OperatorLoop

section Lines
variable {assembler : Assembler} {critical : Nat} {relational : Bool}

theorem tokens_start {tree : Tree} {first : Nat} (within : tree.Within first) :
    tree.tokens 0 = tree.tokens first ∧ tree.operands 0 = tree.operands first := by
  cases tree with
  | atom leaf => exact ⟨rfl, rfl⟩
  | unary operator operand => exact ⟨rfl, rfl⟩
  | paren inner => exact ⟨rfl, rfl⟩
  | binary operator left right =>
      have later : ¬operator.level < first := not_lt.2 within.1
      simp only [Tree.tokens, Tree.operands, Nat.not_lt_zero, if_neg later, if_false, and_self]

theorem operands_pos (tree : Tree) (line : Nat) : 0 < tree.operands line := by
  induction tree generalizing line with
  | atom leaf => exact Nat.one_pos
  | unary operator operand => exact Nat.succ_pos _
  | paren inner => exact Nat.succ_pos _
  | binary operator left right leftHypothesis rightHypothesis =>
      have leftPositive := leftHypothesis operator.level
      rw [Tree.operands]
      split <;> omega

theorem level_lt (operator : Binary) : operator.level < lastLevel := by
  cases operator <;> decide

/-- What is read as an operand is read at every level, and leaves every loop open. -/
theorem ReadAt.everywhere {count : Nat} {tokens : List Token} {meaning : Option Form}
    (positive : 0 < count)
    (read : ReadAt assembler critical relational lastLevel tokens count meaning) {line : Nat}
    (within : line ≤ lastLevel) :
    ReadAt assembler critical relational line tokens count meaning ∧
      (line < lastLevel → OpenAt assembler critical relational line tokens count meaning) := by
  have every := read.before (Nat.le_refl _) positive
  exact ⟨every (lastLevel - line) line (Nat.add_sub_cancel' within), fun binary =>
    (every (lastLevel - (line + 1)) (line + 1) (Nat.add_sub_cancel' binary)).opened binary positive⟩

/-- Every expression is read at every level as what it means. -/
theorem readAt_tree (tree : Tree) (known : assembler.known = true)
    (within : tree.Within (startLevel relational)) (plain : tree.Plain assembler critical) :
    ∀ line, line ≤ lastLevel →
      ReadAt assembler critical relational line (tree.tokens line) (tree.operands line)
        (tree.meaning assembler) ∧
      (line < lastLevel → OpenAt assembler critical relational line (tree.tokens line)
        (tree.operands line) (tree.meaning assembler)) := by
  induction tree with
  | atom leaf =>
      exact fun line last => (readAt_atom leaf known plain).everywhere Nat.one_pos last
  | unary operator operand inductionHypothesis =>
      exact fun line last => (readAt_unary operator plain.2
        (inductionHypothesis within plain.1 lastLevel (Nat.le_refl _)).1).everywhere
          (Nat.succ_pos _) last
  | paren inner inductionHypothesis =>
      have inside : inner.Within (startLevel relational) := within
      have read := (inductionHypothesis inside plain (startLevel relational)
        (startLevel_le relational)).1
      rw [← (tokens_start inside).1, ← (tokens_start inside).2] at read
      exact fun line last => (readAt_paren read).everywhere (Nat.succ_pos _) last
  | binary operator left right leftHypothesis rightHypothesis =>
      have opened := openAt_binary operator (level_lt operator) (operands_pos right _)
        ((leftHypothesis within.2.1 plain.1 operator.level (level_lt operator).le).2
          (level_lt operator))
        (rightHypothesis within.2.2 plain.2.1 (operator.level + 1) (level_lt operator)).1
        plain.2.2.1 plain.2.2.2
      have positive : 0 < left.operands operator.level + right.operands (operator.level + 1) :=
        Nat.add_pos_right _ (operands_pos right _)
      have before := opened.closed.before (level_lt operator).le positive
      intro line last
      simp only [Tree.tokens, Tree.operands]
      by_cases later : operator.level < line
      · rw [if_pos later, if_pos later]
        exact (readAt_paren (before (operator.level - startLevel relational) _
          (Nat.add_sub_cancel' within.1))).everywhere (Nat.succ_pos _) last
      · rw [if_neg later, if_neg later]
        have reads : ∀ line ≤ operator.level, ReadAt assembler critical relational line
            (left.tokens operator.level ++ operator.token :: right.tokens (operator.level + 1))
            (left.operands operator.level + right.operands (operator.level + 1))
            ((Tree.binary operator left right).meaning assembler) :=
          fun line earlier => before (operator.level - line) line (Nat.add_sub_cancel' earlier)
        refine ⟨reads line (not_lt.1 later), fun binary => ?_⟩
        rcases (not_lt.1 later).eq_or_lt with rfl | earlier
        · exact opened
        · exact (reads (line + 1) earlier).opened binary positive

end Lines

section Expressions
variable {assembler : Assembler} {critical : Nat} {relational : Bool}

/-- What `evaluate` does after the expression itself. -/
def afterExpression (assembler : Assembler) (critical : Nat) (relational : Bool) (fuel : Nat)
    (e : List Expr) (state : EvalState) : EvalResult :=
  if state.i = .wrt then
    andThen (expr6 assembler critical relational fuel (scan state)) fun f state =>
      andThen (wrtPart assembler critical f
        { state with hint := (scalarMult state.hint false 1 e).2 }) fun g last =>
        evalHinted last (addVectors last.hint (scalarMult state.hint false 1 e).1 g)
  else evalHinted state (scalarMult state.hint false 1 e)

theorem wrtStep_quiet (e f : List Expr) (state : EvalState) : Quiet Never state
    (andThen (wrtPart assembler critical f
      { state with hint := (scalarMult state.hint false 1 e).2 }) fun g last =>
        evalHinted last (addVectors last.hint (scalarMult state.hint false 1 e).1 g)) := by
  have whole : Quiet Never { state with hint := (scalarMult state.hint false 1 e).2 }
      (andThen (wrtPart assembler critical f
        { state with hint := (scalarMult state.hint false 1 e).2 }) fun g last =>
        evalHinted last (addVectors last.hint (scalarMult state.hint false 1 e).1 g)) :=
    (wrtPart_quiet _ _ _).andThen fun _ _ => Quiet.done rfl rfl (Later.here rfl rfl)
  exact whole

theorem afterExpression_reports (fuel : Nat) (e : List Expr) (state : EvalState) :
    ReportsErrors (FloatFails assembler) state
      (afterExpression assembler critical relational fuel e state) := by
  unfold afterExpression
  split
  · exact (ReportsErrors.scanned (floatFails_leads assembler)
      (expr6_reports assembler critical relational fuel (scan state))).andThen
      (floatFails_leads assembler) fun f middle => (wrtStep_quiet e f middle).spoken.reports
  · exact Quiet.reports (Quiet.done rfl rfl (Later.here rfl rfl))

theorem Represents.stripped {e : List Expr} {form : Form} (represents : Represents e form)
    (hint : Option EvalHints) : Represents (Asm.scalarMult hint false 1 e).1 form.near where
  ordered := ordered_scalarMult hint false 1 represents.ordered
  multiples := by
    rw [coefficient_scalarMult hint false 1 represents.ordered, represents.multiples]
    congr 1
    funext type
    exact one_mul (form type)

theorem near_wrt {assembler : Assembler} {critical : Nat} {base result : Form}
    (means : wrtMeaning assembler critical base = some result) : result.Near := by
  have single : ∀ value, (Form.single exprWrt value).Near := by
    intro value type far
    have below : exprWrt < exprFar := by decide
    exact if_neg (by omega)
  unfold wrtMeaning at means
  split at means
  · split at means
    · split at means
      · cases means
      · cases means
        exact single _
    · cases means
      exact single _
  · cases means

/-- The segment of `WRT` is read and added. -/
theorem wrtStep_reads {e f : List Expr} {form base : Form} (left : Represents e form)
    (right : Represents f base) (state : EvalState) :
    Reads state state.i state.unread 0
      ((wrtMeaning assembler critical base).map fun base type => form.near type + base type)
      (andThen (wrtPart assembler critical f
        { state with hint := (scalarMult state.hint false 1 e).2 }) fun g last =>
          evalHinted last (addVectors last.hint (scalarMult state.hint false 1 e).1 g)) := by
  have quiet := (@wrtPart_quiet { state with hint := (scalarMult state.hint false 1 e).2 } assembler
    critical f).keepsErrors
  rw [Option.map_eq_bind]
  refine Reads.moved ((wrtPart_reads right { state with
    hint := (scalarMult state.hint false 1 e).2 } assembler critical).andThen_here quiet
    (fun g last => KeepsErrors.of_errors rfl) fun base g last means represents => ?_) rfl rfl
  exact Reads.here ((left.stripped state.hint).addVectors represents form.near_near
    (near_wrt means) last.hint) last.warnings _

theorem afterExpression_reads {e : List Expr} {form : Form} (left : Represents e form)
    {fuel : Nat} {state : EvalState} {next : Token} {rest : List Token} (wrt : Option Tree)
    (stands : state.i :: state.unread =
      (wrt.elim [] fun wrt => .wrt :: wrt.tokens lastLevel) ++ next :: rest)
    (other : next ≠ .wrt) (known : assembler.known = true)
    (within : ∀ tree, wrt = some tree → tree.Within (startLevel relational))
    (plain : ∀ tree, wrt = some tree → tree.Plain assembler critical)
    (budget : Budget assembler fuel (wrt.elim 0 fun wrt => wrt.operands lastLevel) state) :
    Reads state next rest (wrt.elim 0 fun wrt => wrt.operands lastLevel)
      (relativeTo assembler critical wrt form)
      (afterExpression assembler critical relational fuel e state) := by
  unfold afterExpression
  cases wrt with
  | none =>
      obtain ⟨rfl, rfl⟩ := List.cons.inj stands
      rw [if_neg other]
      exact Reads.here (left.stripped state.hint) state.warnings _
  | some tree =>
      obtain ⟨first, unread⟩ := List.cons.inj stands
      have some' : state.unread ≠ [] := by rw [unread]; simp
      have scanned := scan_stands some'
      rw [unread] at scanned
      rw [if_pos first]
      have operand : Reads state next rest (tree.operands lastLevel) (tree.meaning assembler)
          (expr6 assembler critical relational fuel (scan state)) :=
        ((readAt_tree tree known (within tree rfl) (plain tree rfl) lastLevel (Nat.le_refl _)).1
          fuel (scan state) next rest scanned (follows_last next)
          ⟨by rw [scan_deadman]; exact budget.within,
            by rw [scan_deadman]; exact budget.enough⟩).scanned
      show Reads state next rest (tree.operands lastLevel)
        (((tree.meaning assembler).bind (wrtMeaning assembler critical)).map
          fun base type => form.near type + base type) _
      rw [Option.map_bind]
      exact operand.andThen_here
        (expr6_keepsErrors assembler critical relational fuel (scan state)).scanned
        (fun f middle => (wrtStep_quiet e f middle).keepsErrors)
        fun base f middle _ represents => wrtStep_reads left represents middle

end Expressions

theorem evaluate_eq (assembler : Assembler) (token : Option Token) (unread : List Token)
    (fwref : Option OpFlags) (critical : Nat) (hints : Option EvalHints) :
    evaluate assembler token unread fwref critical hints =
      andThen (parserAt (expr6 assembler (criticalValue critical) (isRelational critical)
          (assembler.limitEval + 1)) (assembler.limitEval + 1) (startLevel (isRelational critical))
          (evalStart token unread fwref hints))
        (afterExpression assembler (criticalValue critical) (isRelational critical)
          (assembler.limitEval + 1)) := by
  rw [← bexpr_eq]
  rfl

theorem evalStart_stands {token : Option Token} {unread tokens : List Token}
    (fwref : Option OpFlags) (hints : Option EvalHints) (some' : tokens ≠ [])
    (stands : token.toList ++ unread = tokens) :
    (evalStart token unread fwref hints).i :: (evalStart token unread fwref hints).unread =
      tokens := by
  cases token with
  | none =>
      obtain rfl : unread = tokens := stands
      exact scan_stands some'
  | some token => exact stands

@[simp] theorem evalStart_deadman (token : Option Token) (unread : List Token)
    (fwref : Option OpFlags) (hints : Option EvalHints) :
    (evalStart token unread fwref hints).deadman = 0 := scanIf_deadman _ _

@[simp] theorem evalStart_errors (token : Option Token) (unread : List Token)
    (fwref : Option OpFlags) (hints : Option EvalHints) :
    (evalStart token unread fwref hints).errors = [] := scanIf_errors _ _

/-- The evaluation of a written expression gives the linear form that it means, with nothing left
over, and an expression that means nothing is reported. -/
theorem evaluate_meaning (assembler : Assembler) (critical : Nat) (fwref : Option OpFlags)
    (hints : Option EvalHints) (expression : Expression) (token : Option Token)
    (unread : List Token) (next : Token) (rest : List Token)
    (stands : token.toList ++ unread = expression.tokens ++ next :: rest)
    (ends : next.EndsExpression) (known : assembler.known = true)
    (within : expression.Within (startLevel (isRelational critical)))
    (plain : expression.Plain assembler (criticalValue critical))
    (limit : expression.operands ≤ assembler.limitEval) :
    (∀ form, expression.meaning assembler (criticalValue critical) = some form →
      ∃ vect final, evaluate assembler token unread fwref critical hints = .ok (some vect, final) ∧
        final.errors = [] ∧ final.i = next ∧ final.unread = rest ∧ coefficient vect = form) ∧
    (expression.meaning assembler (criticalValue critical) = none →
      ∀ vect final, evaluate assembler token unread fwref critical hints = .ok (some vect, final) →
        final.errors ≠ []) := by
  have follows : ∀ line, Follows line next := fun line operator found =>
    absurd (operatorOf_eq_some found) (ends.2 operator)
  obtain ⟨tree, wrt⟩ := expression
  have tokens := tokens_start (show tree.Within _ from within.1)
  rw [Expression.tokens, tokens.1, List.append_assoc] at stands
  have operands : tree.operands 0 + (wrt.elim 0 fun wrt => wrt.operands lastLevel) ≤
      assembler.limitEval := limit
  rw [tokens.2] at operands
  obtain ⟨after, left, joined, goesOn⟩ : ∃ after left,
      (wrt.elim [] fun wrt => .wrt :: wrt.tokens lastLevel) ++ next :: rest = after :: left ∧
        Follows (startLevel (isRelational critical)) after := by
    cases wrt with
    | none => exact ⟨next, rest, rfl, follows _⟩
    | some wrt => exact ⟨_, _, rfl, fun operator found => by cases found⟩
  rw [joined] at stands
  have begins := evalStart_stands fwref hints (by simp) stands
  have read := (readAt_tree tree known within.1 plain.1 _ (startLevel_le (isRelational critical))).1
    (assembler.limitEval + 1) (evalStart token unread fwref hints) after left begins goesOn
    ⟨by rw [evalStart_deadman]; omega, by rw [evalStart_deadman]; omega⟩
  have whole := read.andThen (parserAt_keeps (startLevel_le _) _ _)
    (fun e middle => (afterExpression_reports (assembler.limitEval + 1) e middle).grows)
    fun form vect middle _ represents reached =>
      have budget : Budget assembler (assembler.limitEval + 1)
          (wrt.elim 0 fun wrt => wrt.operands lastLevel) middle :=
        ⟨by rw [reached.deadman, evalStart_deadman]; omega,
          by rw [reached.deadman, evalStart_deadman]; omega⟩
      afterExpression_reads represents wrt (by rw [reached.i, reached.unread, joined]) ends.1 known
        within.2 plain.2 budget
  rw [← evaluate_eq] at whole
  have meaning : Expression.meaning assembler (criticalValue critical) { tree, wrt } =
      (tree.meaning assembler).bind (relativeTo assembler (criticalValue critical) wrt) := rfl
  rw [← meaning] at whole
  constructor
  · intro form meant
    rw [meant] at whole
    obtain ⟨vect, final, ran, represents, reached⟩ := whole
    exact ⟨vect, final, ran, reached.errors.trans (evalStart_errors _ _ _ _), reached.i,
      reached.unread, represents.multiples⟩
  · intro meant vect final ran
    rw [meant] at whole
    have reported := whole vect final ran
    rwa [evalStart_errors] at reported

/-- The base of the segment is the only one in a symbol. -/
theorem symbolMeaning_base {segment : Int} (least : 0 ≤ segment) (offset : BitVec 64) {type : Int}
    (other : type ≠ exprSimple) :
    symbolMeaning segment offset type = if type = exprSegbase + segment then 1 else 0 := by
  have some' : segment ≠ noSeg := by
    intro none
    rw [none] at least
    exact absurd least (by decide)
  rw [symbolMeaning, if_neg some', Form.scalar, Form.single, if_neg other, zero_add, Form.single]

/-- A symbol is relocatable, in its own segment. -/
theorem symbolMeaning_segment {segment : Int} (least : 0 ≤ segment) (offset : BitVec 64)
    (locationSegment : Int) :
    (symbolMeaning segment offset).IsReloc locationSegment ∧
      (symbolMeaning segment offset).segment = some segment := by
  have constants : exprSimple < exprSegbase := by decide
  have values : (0 : BitVec 64) ≠ 1 ∧ (1 : BitVec 64) ≠ -1 ∧ (0 : BitVec 64) ≠ -1 := by decide
  have only : ∀ type, exprSegbase ≤ type → symbolMeaning segment offset type = 1 →
      type = exprSegbase + segment := by
    intro type above is
    rw [symbolMeaning_base least offset (by omega)] at is
    by_contra other
    rw [if_neg other] at is
    exact values.1 is
  refine ⟨⟨fun type present => ?_, fun first second above alsoAbove is alsoIs => ?_,
    fun type above minus => ?_⟩, ?_⟩
  · by_cases simple : type = exprSimple
    · exact Or.inl simple
    · rw [symbolMeaning_base least offset simple] at present
      have same : type = exprSegbase + segment := by
        by_contra other
        exact present (if_neg other)
      exact Or.inr (Or.inr (by omega))
  · rw [only first above is, only second alsoAbove alsoIs]
  · rw [symbolMeaning_base least offset (by omega)] at minus
    split at minus
    · exact absurd minus values.2.1
    · exact absurd minus values.2.2
  · have here : symbolMeaning segment offset (exprSegbase + segment) = 1 := by
      rw [symbolMeaning_base least offset (by omega), if_pos rfl]
    have exists' : ∃ type, exprSegbase ≤ type ∧ symbolMeaning segment offset type = 1 :=
      ⟨_, by omega, here⟩
    rw [Form.segment, dif_pos exists', only _ exists'.choose_spec.1 exists'.choose_spec.2,
      add_sub_cancel_left]

/-- The segment of a symbol gives the base that the output format has for it. -/
theorem segMeaning_symbol (assembler : Assembler) {segment : Int} (least : 0 ≤ segment)
    (near : segment < segAbs) (even : segment % 2 = 0)
    (based : assembler.segbase (segment + 1) ≠ noSeg) (offset : BitVec 64) :
    segMeaning assembler (symbolMeaning segment offset) =
      some (Form.single (exprSegbase + assembler.segbase (segment + 1)) 1) := by
  obtain ⟨reloc, found⟩ := symbolMeaning_segment least offset assembler.locationSegment
  rw [segMeaning, if_pos reloc, found, Option.bind_some, if_neg (not_le.2 near),
    if_pos ⟨even, based⟩]

/-- An assembler at the start of an empty section, with one symbol in the next one. -/
def emptyAssembler : Assembler where
  limitEval := 100
  globalbits := 32
  known := true
  locationSegment := 0
  locationOffset := 0
  inAbsolute := false
  absoluteSegment := noSeg
  absoluteOffset := 0
  lookupLabel name := if name = [0x78] then some (2, 16) else none
  isExtern _ := false
  localScope _ := []
  segbase segment := segment
  floatConst _ _ _ := none
  stringTransform _ _ := none

theorem Form.near_single {type : Int} (below : type < exprFar) (value : BitVec 64) :
    (Form.single type value).Near := fun other far => if_neg (by omega)

/-- A register plus the base of the segment of a symbol. -/
theorem evaluate_meaning_seg : ∃ vect final,
    evaluate emptyAssembler none [.reg 5, .plus, .seg, .id [0x78], .eos] none 0 none =
      .ok (some vect, final) ∧
    final.errors = [] ∧ final.i = .eos ∧ final.unread = [] ∧
    coefficient vect = Form.near fun type =>
      Form.single 5 1 type + Form.single (exprSegbase + 3) 1 type := by
  have seg : (Tree.unary .seg (.atom (.id [0x78]))).meaning emptyAssembler =
      some (Form.single (exprSegbase + 3) 1) :=
    segMeaning_symbol emptyAssembler (by decide) (by decide) (by decide) (by decide) 16
  have plain : Tree.Plain emptyAssembler (criticalValue 0) (.binary .plus (.atom (.reg 5))
      (.unary .seg (.atom (.id [0x78])))) := by
    refine ⟨⟨by decide, by decide⟩, ⟨Or.inr ⟨by decide, by decide⟩, fun form means => ?_⟩,
      fun form means => ?_, fun form means => ?_⟩
    · cases means
      intro reloc segment found _ _
      rw [(symbolMeaning_segment (by decide) 16 0).2] at found
      cases found
      exact ⟨Or.inr ⟨by decide, by decide⟩, fun none => by cases none⟩
    · cases means
      exact Form.near_single (by decide) 1
    · rw [seg] at means
      cases means
      exact Form.near_single (by decide) 1
  have sum : Tree.meaning emptyAssembler (.binary .plus (.atom (.reg 5))
      (.unary .seg (.atom (.id [0x78])))) = some fun type =>
        Form.single 5 1 type + Form.single (exprSegbase + 3) 1 type := by
    rw [Tree.meaning, seg]
    rfl
  exact (evaluate_meaning emptyAssembler 0 none none
    ⟨.binary .plus (.atom (.reg 5)) (.unary .seg (.atom (.id [0x78]))), none⟩ none
    [.reg 5, .plus, .seg, .id [0x78], .eos] .eos [] rfl
    ⟨by decide, fun operator => by cases operator <;> decide⟩ rfl
    ⟨⟨by decide, trivial, trivial⟩, fun wrt none => by cases none⟩
    ⟨plain, fun wrt none => by cases none⟩ (by decide)).1 _
    (by rw [Expression.meaning, sum]; rfl)

end Projs.Asm

import Mathlib.Data.Nat.Bitwise
import Projs.Proof.Asm.EvalOperators

namespace Projs.Asm
open OperatorLoop

@[simp] theorem scan_errors (state : EvalState) : (scan state).errors = state.errors := by
  rw [scan]
  split <;> rfl

@[simp] theorem scan_deadman (state : EvalState) : (scan state).deadman = state.deadman := by
  rw [scan]
  split <;> rfl

@[simp] theorem scanIf_errors (condition : Bool) (state : EvalState) :
    (scanIf condition state).errors = state.errors := by
  cases condition with
  | false => rfl
  | true => exact scan_errors state

@[simp] theorem scanIf_deadman (condition : Bool) (state : EvalState) :
    (scanIf condition state).deadman = state.deadman := by
  cases condition with
  | false => rfl
  | true => exact scan_deadman state

@[simp] theorem warnIf_errors (warn : Bool) (text : String) (state : EvalState) :
    (warnIf warn text state).errors = state.errors := by
  cases warn <;> rfl

@[simp] theorem warnIf_deadman (warn : Bool) (text : String) (state : EvalState) :
    (warnIf warn text state).deadman = state.deadman := by
  cases warn <;> rfl

theorem scan_cons {state : EvalState} {token : Token} {rest : List Token}
    (unread : state.unread = token :: rest) :
    scan state = { state with i := token, unread := rest } := by
  rw [scan, unread]

/-- The tokens that are left are the last ones, or they are over. -/
def Later (state final : EvalState) : Prop :=
  final.i :: final.unread <:+ state.i :: state.unread ∨ final.i = .eos ∧ final.unread = []

theorem Later.here {state final : EvalState} (i : final.i = state.i)
    (unread : final.unread = state.unread) : Later state final := by
  rw [Later, i, unread]
  exact Or.inl List.suffix_rfl

theorem Later.refl (state : EvalState) : Later state state := Later.here rfl rfl

theorem Later.trans {first second third : EvalState} (before : Later first second)
    (after : Later second third) : Later first third := by
  rcases after with after | ended
  · rcases before with before | ⟨i, unread⟩
    · exact Or.inl (after.trans before)
    · rw [i, unread] at after
      rcases List.suffix_cons_iff.mp after with same | none
      · exact Or.inr (List.cons.inj same)
      · exact absurd (List.suffix_nil.mp none) (List.cons_ne_nil _ _)
  · exact Or.inr ended

theorem Later.scanned {state final : EvalState} (later : Later state final) :
    Later state (scan final) := by
  refine later.trans ?_
  rw [scan]
  split
  · next unread => exact Or.inr ⟨rfl, unread⟩
  · next token rest unread =>
      rw [Later, unread]
      exact Or.inl (List.suffix_cons _ _)

theorem Later.scannedIf {state final : EvalState} (later : Later state final) (condition : Bool) :
    Later state (scanIf condition final) := by
  cases condition with
  | false => exact later
  | true => exact later.scanned

theorem Later.warnedIf {state final : EvalState} (later : Later state final) (warn : Bool)
    (text : String) : Later state (warnIf warn text final) := by
  cases warn with
  | false => exact later
  | true => exact later.trans (Later.here rfl rfl)

/-- A step that reads no operand: it ends, it keeps the errors, it counts nothing, and without a
value it reports an error or it is silent for a reason. -/
def Quiet (Silent : EvalState → EvalState → Prop) (state : EvalState) (outcome : EvalResult) :
    Prop :=
  outcome ≠ .error .endless ∧ ∀ value final, outcome = .ok (value, final) →
    (state.errors <+: final.errors ∧ final.deadman = state.deadman ∧ Later state final) ∧
      (value = none → final.errors = state.errors → Silent state final)

/-- A step that is never silent. -/
def Never (_ _ : EvalState) : Prop := False

/-- The evaluation stands at a constant of these tokens, and its conversion was refused. -/
def FloatRefused (assembler : Assembler) (tokens : List Token) (final : EvalState) : Prop :=
  ∃ before type sign text, tokens = before ++
      .floatize type :: .lparen :: (signTokens sign ++ .float text :: final.unread) ∧
    final.i = .float text ∧
    assembler.floatConst text (if sign = some true then -1 else 1) (floatFormat type).1 = none

theorem FloatRefused.of_suffix {assembler : Assembler} {final : EvalState}
    {tokens others : List Token} (refused : FloatRefused assembler tokens final)
    (suffix : tokens <:+ others) : FloatRefused assembler others final := by
  obtain ⟨front, rfl⟩ := suffix
  obtain ⟨before, type, sign, text, rfl, stands, fails⟩ := refused
  exact ⟨front ++ before, type, sign, text, (List.append_assoc ..).symm, stands, fails⟩

/-- The end of the tokens holds no constant. -/
theorem not_floatRefused_eos {assembler : Assembler} {final : EvalState} :
    ¬FloatRefused assembler [.eos] final := by
  rintro ⟨before, type, sign, text, same, -⟩
  have length := congrArg List.length same
  simp only [List.length_append, List.length_cons, List.length_nil] at length
  omega

/-- The conversion of a constant fails; it reports that by itself. -/
def FloatFails (assembler : Assembler) (state final : EvalState) : Prop :=
  FloatRefused assembler (state.i :: state.unread) final

theorem floatFails_leads (assembler : Assembler) : Leads Later (FloatFails assembler) where
  refl := Later.refl
  trans := Later.trans
  back := by
    intro first second third later refused
    rcases later with suffix | ⟨i, unread⟩
    · exact refused.of_suffix suffix
    · rw [FloatFails, i, unread] at refused
      exact absurd refused not_floatRefused_eos

section Steps
variable {state : EvalState} {Silent : EvalState → EvalState → Prop}

theorem Quiet.done {vect : List Expr} {final : EvalState}
    (errors : final.errors = state.errors) (deadman : final.deadman = state.deadman)
    (later : Later state final) : Quiet Silent state (.ok (some vect, final)) := by
  refine ⟨by simp, fun other last equal => ?_⟩
  cases equal
  exact ⟨⟨by rw [errors], deadman, later⟩, fun none => by cases none⟩

theorem Quiet.reported {value : Option (List Expr)} {final : EvalState} (error : EvalError)
    (errors : final.errors = state.errors ++ [error]) (deadman : final.deadman = state.deadman)
    (later : Later state final) : Quiet Silent state (.ok (value, final)) := by
  refine ⟨by simp, fun other last equal => ?_⟩
  cases equal
  refine ⟨⟨by rw [errors]; exact List.prefix_append _ _, deadman, later⟩, fun _ same => ?_⟩
  rw [errors] at same
  exact absurd (congrArg List.length same) (by simp)

theorem Quiet.undefined : Quiet Silent state (.error .undefined) :=
  ⟨by simp, fun value final equal => by cases equal⟩

theorem Quiet.fail (text : String) {final : EvalState} (errors : final.errors = state.errors)
    (deadman : final.deadman = state.deadman) (later : Later state final) :
    Quiet Silent state (evalFail text final) :=
  Quiet.reported (.text text) (by rw [nasmError, errors]) deadman
    (later.trans (Later.here rfl rfl))

theorem Quiet.silently {final : EvalState} (reason : Silent state final)
    (errors : final.errors = state.errors) (deadman : final.deadman = state.deadman)
    (later : Later state final) : Quiet Silent state (.ok (none, final)) := by
  refine ⟨by simp, fun other last equal => ?_⟩
  cases equal
  exact ⟨⟨by rw [errors], deadman, later⟩, fun _ _ => reason⟩

/-- A failed evaluation has reported an error, or it was silent for a reason. -/
abbrev ReportsErrors (Silent : EvalState → EvalState → Prop) (state : EvalState)
    (outcome : EvalResult) : Prop :=
  Reports EvalState.errors Later Silent state outcome

theorem Quiet.keepsErrors {outcome : EvalResult} (quiet : Quiet Silent state outcome) :
    KeepsErrors state outcome := fun value final equal => (quiet.2 value final equal).1.1

theorem Quiet.reports {outcome : EvalResult} (quiet : Quiet Silent state outcome) :
    ReportsErrors Silent state outcome :=
  ⟨quiet.keepsErrors, fun value final equal => (quiet.2 value final equal).1.2.2,
    fun final equal => (quiet.2 none final equal).2 rfl⟩

/-- A step that is never silent. -/
theorem Quiet.spoken {outcome : EvalResult} (quiet : Quiet Never state outcome) :
    Quiet Silent state outcome := by
  refine ⟨quiet.1, fun value final equal => ?_⟩
  obtain ⟨kept, reported⟩ := quiet.2 value final equal
  exact ⟨kept, fun failed same => (reported failed same).elim⟩

theorem Quiet.andThen {outcome : EvalResult} {next : List Expr → EvalState → EvalResult}
    (first : Quiet Never state outcome)
    (second : ∀ value middle, Quiet Never middle (next value middle)) :
    Quiet Never state (andThen outcome next) := by
  match outcome with
  | .ok (some value, middle) =>
      obtain ⟨⟨before, counted, later⟩, -⟩ := first.2 _ _ rfl
      obtain ⟨ends, after⟩ := second value middle
      refine ⟨ends, fun result final ran => ?_⟩
      obtain ⟨⟨grown, more, moved⟩, reported⟩ := after result final ran
      refine ⟨⟨before.trans grown, more.trans counted, later.trans moved⟩, fun failed same => ?_⟩
      exact reported failed (same.trans (Grows.between before grown same).symm)
  | .ok (none, middle) =>
      refine ⟨by simp, fun result final ran => ?_⟩
      cases ran
      exact first.2 _ _ rfl
  | .error fault => exact first

theorem scalarOperator_quiet (text : String) (operation : BitVec 64 → BitVec 64 → BitVec 64)
    (j : Token) (e f : List Expr) :
    Quiet Never state (scalarOperator text operation j e f state) := by
  unfold scalarOperator
  split_ifs
  all_goals first
    | exact Quiet.done rfl rfl (Later.here rfl rfl)
    | exact Quiet.reported _ rfl rfl (Later.here rfl rfl)

theorem relation_quiet (j : Token) (e f : List Expr) :
    Quiet Never state (relation j e f state) := by
  unfold relation
  simp only []
  split_ifs
  all_goals first
    | exact Quiet.done rfl rfl (Later.here rfl rfl)
    | exact Quiet.reported _ rfl rfl (Later.here rfl rfl)

theorem shift_quiet (j : Token) (e f : List Expr) : Quiet Never state (shift j e f state) := by
  unfold shift
  split
  · exact Quiet.reported _ rfl rfl (Later.here rfl rfl)
  split
  · exact Quiet.done rfl rfl (Later.here rfl rfl)
  split
  · exact Quiet.undefined
  · split <;> exact Quiet.done rfl rfl (Later.here rfl rfl)

theorem addition_quiet (j : Token) (e f : List Expr) :
    Quiet Never state (addition j e f state) := by
  unfold addition
  split <;> exact Quiet.done rfl rfl (Later.here rfl rfl)

theorem multiplication_quiet (j : Token) (e f : List Expr) :
    Quiet Never state (multiplication j e f state) := by
  unfold multiplication
  split
  · exact Quiet.fail _ rfl rfl (Later.here rfl rfl)
  split
  · exact Quiet.fail _ rfl rfl (Later.here rfl rfl)
  split
  · split_ifs
    all_goals first
      | exact Quiet.done rfl rfl (Later.here rfl rfl)
      | exact Quiet.fail _ rfl rfl (Later.here rfl rfl)
  split
  · exact Quiet.done rfl rfl (Later.here rfl rfl)
  split
  · exact Quiet.done rfl rfl (Later.here rfl rfl)
  · exact Quiet.done rfl rfl (Later.here rfl rfl)
  · split
    · exact Quiet.undefined
    · exact Quiet.done rfl rfl (Later.here rfl rfl)
  · split
    · exact Quiet.undefined
    · exact Quiet.done rfl rfl (Later.here rfl rfl)
  · exact Quiet.done rfl rfl (Later.here rfl rfl)

theorem evalIfunc_quiet (value : BitVec 64) (func : IFunc) :
    state.errors <+: (evalIfunc state value func).2.errors ∧
      (evalIfunc state value func).2.deadman = state.deadman ∧
      Later state (evalIfunc state value func).2 := by
  unfold evalIfunc
  cases func with
  | ilog2e =>
      simp only []
      split
      · exact ⟨List.prefix_rfl, rfl, Later.refl state⟩
      · exact ⟨List.prefix_append _ _, rfl, Later.here rfl rfl⟩
  | ilog2w =>
      simp only []
      split <;> exact ⟨List.prefix_rfl, rfl, Later.here rfl rfl⟩
  | ilog2f => exact ⟨List.prefix_rfl, rfl, Later.refl state⟩
  | ilog2c => exact ⟨List.prefix_rfl, rfl, Later.refl state⟩

theorem scalarPrefix_quiet (text : String)
    {operation : BitVec 64 → EvalState → BitVec 64 × EvalState}
    (quiet : ∀ value, state.errors <+: (operation value state).2.errors ∧
      (operation value state).2.deadman = state.deadman ∧ Later state (operation value state).2)
    (e : List Expr) : Quiet Never state (scalarPrefix text operation e state) := by
  unfold scalarPrefix
  split_ifs
  · exact Quiet.done rfl rfl (Later.refl state)
  · exact Quiet.fail _ rfl rfl (Later.refl state)
  · refine ⟨by simp, fun value final equal => ?_⟩
    cases equal
    exact ⟨quiet (relocValue e), fun none => by cases none⟩

theorem segmentPart_quiet (assembler : Assembler) (e : List Expr) :
    Quiet Never state (segmentPart assembler e state) := by
  unfold segmentPart
  simp only []
  split_ifs
  all_goals first
    | exact Quiet.done rfl rfl (Later.here rfl rfl)
    | exact Quiet.fail _ rfl rfl (Later.here rfl rfl)

theorem segCheck_quiet (critical : Nat) (e : List Expr) : Quiet Never state
    (if isUnknown e ∧ critical ≠ 0 then evalFail "unable to determine segment base" state
      else .ok (some e, state)) := by
  split
  · exact Quiet.fail _ rfl rfl (Later.here rfl rfl)
  · exact Quiet.done rfl rfl (Later.here rfl rfl)

theorem closing_quiet (e : List Expr) : Quiet Never state
    (if state.i ≠ .rparen then evalFail "expecting `)'" state else .ok (some e, scan state)) := by
  split
  · exact Quiet.fail _ rfl rfl (Later.here rfl rfl)
  · exact Quiet.done (scan_errors state) (scan_deadman state) (Later.refl state).scanned

theorem wrtPart_quiet (assembler : Assembler) (critical : Nat) (f : List Expr) :
    Quiet Never state (wrtPart assembler critical f state) := by
  unfold wrtPart
  simp only []
  split_ifs
  all_goals first
    | exact Quiet.done rfl rfl (Later.here rfl rfl)
    | exact Quiet.fail _ rfl rfl (Later.here rfl rfl)

/-- A token that is scanned was the first one left. -/
theorem unread_of_scan {token : Token} (stands : (scan state).i = token) (some' : token ≠ .eos) :
    state.unread = token :: (scan state).unread := by
  cases unread : state.unread with
  | nil =>
      rw [scan, unread] at stands
      exact absurd stands.symm some'
  | cons first rest =>
      rw [scan_cons unread] at stands ⊢
      exact congrArg (· :: rest) stands

/-- A refused constant stands behind its operator, a parenthesis and its sign. -/
theorem floatFails_of_scanned {assembler : Assembler} {type : Floatize} {text : List UInt8}
    (first : state.i = .floatize type) (paren : (scan state).i = .lparen)
    (stands : (scanIf ((scan (scan state)).i = .minus ∨ (scan (scan state)).i = .plus)
      (scan (scan state))).i = .float text)
    (fails : assembler.floatConst text (if (scan (scan state)).i = .minus then -1 else 1)
      (floatFormat type).1 = none) :
    FloatFails assembler state (scanIf ((scan (scan state)).i = .minus ∨
      (scan (scan state)).i = .plus) (scan (scan state))) := by
  have second := unread_of_scan paren (by decide)
  by_cases minus : (scan (scan state)).i = .minus
  · rw [decide_eq_true (Or.inl minus)] at stands ⊢
    have third := unread_of_scan minus (by decide)
    have fourth : (scan (scan state)).unread = _ := unread_of_scan stands (by simp)
    rw [if_pos minus] at fails
    refine ⟨[], type, some true, text, ?_, stands, fails⟩
    rw [first, second, third, fourth]
    rfl
  · rw [if_neg minus] at fails
    by_cases plus : (scan (scan state)).i = .plus
    · rw [decide_eq_true (Or.inr plus)] at stands ⊢
      have third := unread_of_scan plus (by decide)
      have fourth : (scan (scan state)).unread = _ := unread_of_scan stands (by simp)
      refine ⟨[], type, some false, text, ?_, stands, fails⟩
      rw [first, second, third, fourth]
      rfl
    · rw [decide_eq_false (not_or.2 ⟨minus, plus⟩)] at stands ⊢
      have third : (scan state).unread = _ := unread_of_scan stands (by simp)
      refine ⟨[], type, none, text, ?_, stands, fails⟩
      rw [first, second, third]
      rfl

theorem evalFloatize_quiet (assembler : Assembler) {type : Floatize}
    (first : state.i = .floatize type) :
    Quiet (FloatFails assembler) state (evalFloatize assembler type state) := by
  have paren := (Later.refl state).scanned
  have sign := paren.scanned.scannedIf
    ((scan (scan state)).i = .minus ∨ (scan (scan state)).i = .plus)
  unfold evalFloatize
  simp only []
  split
  · exact Quiet.fail _ (by simp) (by simp) paren
  · next open' =>
      split
      · next text stands =>
          split
          · next fails =>
              exact Quiet.silently (floatFails_of_scanned first (not_not.1 open') stands fails)
                (by simp) (by simp) sign
          split
          · exact Quiet.fail _ (by simp) (by simp) sign.scanned
          · exact Quiet.done (by simp) (by simp) sign.scanned.scanned
      · exact Quiet.fail _ (by simp) (by simp) sign

theorem evalStrfunc_quiet (assembler : Assembler) (type : StrFunc) :
    Quiet Silent state (evalStrfunc assembler type state) := by
  have string := (Later.refl state).scanned.scannedIf (decide ((scan state).i = .lparen))
  unfold evalStrfunc
  simp only []
  split
  · split
    · exact Quiet.fail _ (by simp) (by simp) string
    · next transformed =>
        have closed := string.scannedIf (decide ((scan state).i = .lparen))
        split
        · exact Quiet.fail _ (by simp) (by simp) closed
        · exact Quiet.done (by simp) (by simp) (closed.warnedIf _ _).scanned
  · exact Quiet.fail _ (by simp) (by simp) string

theorem unknownLocation_quiet (text : String) : Quiet Silent state (unknownLocation text state) :=
  Quiet.reported (.text (text ++ " not supported in preprocess-only mode"))
    (by rw [scan_errors]; rfl) (by rw [scan_deadman]; rfl)
    (Later.scanned (Later.here rfl rfl))

theorem evalLabel_quiet (assembler : Assembler) (critical : Nat) (name : List UInt8) :
    Quiet Silent state (evalLabel assembler critical name state) := by
  unfold evalLabel
  split
  · exact unknownLocation_quiet _
  · split
    · exact Quiet.done (by rw [scan_errors]; rfl) (by rw [scan_deadman]; rfl)
        (Later.scanned (Later.here rfl rfl))
    · simp only []
      split_ifs
      · exact Quiet.reported _ rfl rfl (Later.here rfl rfl)
      · exact Quiet.reported _ rfl rfl (Later.here rfl rfl)
      · exact Quiet.done (by rw [scan_errors]; rfl) (by rw [scan_deadman]; rfl)
          (Later.scanned (Later.here rfl rfl))

end Steps

section Operands
variable {e : List Expr} {form : Form} (represents : Represents e form) (state : EvalState)
include represents

theorem scalarPrefix_reads (near : form.Near) (text : String)
    {operation : BitVec 64 → EvalState → BitVec 64 × EvalState}
    {meaning : BitVec 64 → Option (BitVec 64)}
    (operates : ∀ value, match meaning value with
      | some result => ∃ warnings, operation value state = (result, { state with warnings })
      | none => (operation value state).2.errors ≠ state.errors) :
    Reads state state.i state.unread 0
      (form.value.bind fun value => (meaning value).map Form.scalar)
      (scalarPrefix text operation e state) := by
  unfold scalarPrefix
  rw [represents.isJustUnknown_eq, if_neg Bool.false_ne_true, represents.isSimple_eq near]
  cases scalar : form.value with
  | none => exact Reads.none_value _
  | some value =>
      rw [if_neg (by simp), represents.relocValue_eq scalar]
      have operated := operates value
      show Reads _ _ _ _ ((meaning value).map Form.scalar) _
      cases result : meaning value with
      | none =>
          rw [result] at operated
          intro vect final equal
          cases equal
          exact operated
      | some result' =>
          rw [result] at operated
          obtain ⟨warnings, equal⟩ := operated
          rw [equal]
          exact Reads.here (represents_scalarvect result') warnings state.hint

/-- A segment base in a relocatable form is found by the loop of `reloc_seg`. -/
theorem Represents.relocSeg_eq {segment : Int} (reloc : form.IsReloc segment) :
    (relocSeg e = noSeg ∧ form.segment = none) ∨
      form.segment = some (relocSeg e) ∧ 0 ≤ relocSeg e ∧ relocSeg e < 2 * segAbs := by
  have multiples := represents.multiples
  rcases relocSeg_cases represents.ordered with ⟨none, absent⟩ | ⟨type, based, one, bounded, found⟩
  · rw [multiples] at absent
    exact Or.inl ⟨none, dif_neg fun ⟨type, based, one⟩ => absent type based one⟩
  · rw [multiples] at one
    have exists' : ∃ type, exprSegbase ≤ type ∧ form type = 1 := ⟨type, based, one⟩
    have same : exists'.choose = type :=
      reloc.2.1 _ _ exists'.choose_spec.1 based exists'.choose_spec.2 one
    have limit : (2 : Int) ^ 31 = 2 * segAbs := by decide
    have positive : 0 ≤ exprSegbase := by decide
    refine Or.inr ⟨(dif_pos exists').trans ?_, ?_, ?_⟩
    · rw [same, found]
    · omega
    · omega

omit represents in
theorem segAbs_eq : segAbs = 2 ^ 30 := by decide

omit represents in
/-- The bit of the far-absolute segments is the highest one. -/
theorem and_segAbs_eq_zero_iff {segment : Nat} (bounded : segment < 2 * segAbs) :
    segment &&& segAbs = 0 ↔ segment < segAbs := by
  rw [segAbs_eq] at bounded ⊢
  rw [Nat.and_two_pow, Nat.testBit_eq_decide_div_mod_eq]
  by_cases near : segment < 2 ^ 30
  · rw [Nat.div_eq_of_lt near]
    exact iff_of_true (by simp) near
  · rw [show segment / 2 ^ 30 % 2 = 1 by omega]
    exact iff_of_false (by simp) near

omit represents in
theorem xor_segAbs {segment : Nat} (far : segAbs ≤ segment) (bounded : segment < 2 * segAbs) :
    segment ^^^ segAbs = segment - segAbs := by
  obtain ⟨rest, rfl⟩ := Nat.exists_eq_add_of_le far
  rw [segAbs_eq] at bounded ⊢
  have low : rest < 2 ^ 30 := by omega
  have split : 2 ^ 30 + rest = rest ^^^ 2 ^ 30 := by
    apply Nat.eq_of_testBit_eq
    intro index
    rw [Nat.testBit_xor, Nat.testBit_two_pow]
    rcases Nat.lt_trichotomy index 30 with below | rfl | above
    · rw [Nat.testBit_two_pow_add_gt below, decide_eq_false (by omega), Bool.xor_false]
    · rw [Nat.testBit_two_pow_add_eq, decide_eq_true rfl, Bool.xor_true]
    · have power : 2 ^ 31 ≤ 2 ^ index := Nat.pow_le_pow_right (by decide) above
      rw [Nat.testBit_lt_two_pow (by omega), Nat.testBit_lt_two_pow (x := rest) (by omega),
        decide_eq_false (by omega), Bool.xor_false]
  rw [split, Nat.xor_assoc, Nat.xor_self, Nat.xor_zero, ← split, Nat.add_sub_cancel_left]

/-- The segment base is read, and without one that is known the error is reported. -/
theorem segStep_reads (assembler : Assembler) (critical : Nat)
    (plain : Unary.seg.Plain assembler critical form) :
    Reads state state.i state.unread 0 (segMeaning assembler form)
      (andThen (segmentPart assembler e state) fun e state =>
        if isUnknown e ∧ critical ≠ 0 then evalFail "unable to determine segment base" state
        else .ok (some e, state)) := by
  have relocs := isReloc_iff assembler.locationSegment represents.ordered
  rw [represents.multiples] at relocs
  have known : ∀ {vect : List Expr} {result : Form}, Represents vect result →
      Reads state state.i state.unread 0 (some result)
        (if isUnknown vect ∧ critical ≠ 0 then
          evalFail "unable to determine segment base" state else .ok (some vect, state)) := by
    intro vect result found
    rw [found.isUnknown_eq, if_neg fun both => Bool.false_ne_true both.1]
    exact Reads.here found state.warnings state.hint
  unfold segmentPart segMeaning
  rw [represents.isUnknown_eq, if_neg Bool.false_ne_true]
  by_cases reloc : form.IsReloc assembler.locationSegment
  swap
  · rw [if_pos fun is => reloc (relocs.1 is), if_neg reloc]
    exact Reads.none_value _
  rw [if_neg (not_not.2 (relocs.2 reloc)), if_pos reloc]
  simp only []
  rcases represents.relocSeg_eq reloc with ⟨none, absent⟩ | ⟨found, least, bounded⟩
  · rw [if_pos none, absent]
    exact Reads.none_value _
  have some' : relocSeg e ≠ noSeg := by
    intro none
    rw [none] at least
    exact absurd least (by decide)
  have bit := @and_segAbs_eq_zero_iff (relocSeg e).toNat (by omega)
  have bounds := plain reloc _ found
  rw [if_neg some', found, Option.bind_some]
  by_cases far : segAbs ≤ relocSeg e
  · rw [if_pos fun zero => absurd (bit.1 zero) (by omega), if_pos far,
      xor_segAbs (by omega) (by omega)]
    have same : BitVec.ofNat 64 ((relocSeg e).toNat - segAbs) =
        BitVec.ofInt 64 (relocSeg e - segAbs) := by
      rw [← BitVec.ofInt_natCast]
      congr 1
      omega
    rw [same]
    exact known (represents_scalarvect _)
  · rw [if_neg (not_not.2 (bit.2 (by omega))), if_neg far, Nat.and_one_is_mod]
    by_cases even : relocSeg e % 2 = 0
    · rw [if_neg (show ¬(relocSeg e).toNat % 2 ≠ 0 by omega)]
      obtain ⟨segment, needed⟩ := bounds (by omega) even
      by_cases none : assembler.segbase (relocSeg e + 1) = noSeg
      · have missing : ¬(relocSeg e % 2 = 0 ∧ assembler.segbase (relocSeg e + 1) ≠ noSeg) :=
          fun both => both.2 none
        rw [if_neg missing, if_pos none, andThen_some, if_pos ⟨rfl, needed none⟩]
        exact Reads.none_value _
      · have based : relocSeg e % 2 = 0 ∧ assembler.segbase (relocSeg e + 1) ≠ noSeg := ⟨even, none⟩
        obtain ⟨positive, limited⟩ := segment.resolve_left none
        rw [if_pos based, if_neg none]
        exact known (Represents.segment positive limited)
    · have odd : ¬(relocSeg e % 2 = 0 ∧ assembler.segbase (relocSeg e + 1) ≠ noSeg) :=
        fun both => even both.1
      rw [if_neg odd, if_pos (show (relocSeg e).toNat % 2 ≠ 0 by omega)]
      exact Reads.none_value _

theorem wrtPart_reads (assembler : Assembler) (critical : Nat) :
    Reads state state.i state.unread 0 (wrtMeaning assembler critical form)
      (wrtPart assembler critical e state) := by
  have relocs := isReloc_iff assembler.locationSegment represents.ordered
  have multiples := represents.multiples
  rw [multiples] at relocs
  unfold wrtPart wrtMeaning
  rw [represents.isJustUnknown_eq, if_neg Bool.false_ne_true]
  by_cases reloc : form.IsReloc assembler.locationSegment
  swap
  · rw [if_pos fun is => reloc (relocs.1 is), if_neg reloc]
    exact Reads.none_value _
  rw [if_neg (not_not.2 (relocs.2 reloc)), if_pos reloc]
  simp only []
  have wrt : ∀ value, Represents [{ type := exprWrt, value }] (Form.single exprWrt value) :=
    fun value => Represents.single value (by decide) (by decide)
  rcases represents.relocSeg_eq reloc with ⟨none, absent⟩ | ⟨found, least, bounded⟩
  · have value : relocValue e = form exprSimple := by
      rw [relocValue_eq represents.ordered, multiples]
      intro type present
      rw [multiples] at present
      have constants : exprSimple < exprWrt ∧ exprWrt < exprSegbase := by decide
      rcases reloc.1 type present with simple | isWrt | above
      · exact simple.ge
      · omega
      · omega
    rw [if_pos none, absent, value]
    exact Reads.here (wrt _) state.warnings state.hint
  · have some' : relocSeg e ≠ noSeg := by
      intro none
      rw [none] at least
      exact absurd least (by decide)
    have bit := @and_segAbs_eq_zero_iff (relocSeg e).toNat (by omega)
    rw [if_neg some', found]
    by_cases refused : relocSeg e < segAbs ∧ relocSeg e % 2 = 0 ∧ critical ≠ 0
    · rw [if_pos ⟨bit.2 (by omega), by omega, refused.2.2⟩]
      simp only []
      rw [if_pos refused]
      exact Reads.none_value _
    · have accepted : ¬((relocSeg e).toNat &&& segAbs = 0 ∧ (relocSeg e).toNat % 2 = 0 ∧
          critical ≠ 0) := by
        rw [bit]
        exact fun all => refused ⟨by omega, by omega, all.2.2⟩
      rw [if_neg accepted]
      simp only []
      rw [if_neg refused]
      exact Reads.here (wrt _) state.warnings state.hint

end Operands

end Projs.Asm

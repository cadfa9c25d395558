import Projs.Proof.Asm.EvalLines

namespace Projs.Asm
open OperatorLoop

section Lines
variable {assembler : Assembler} {critical : Nat} {relational : Bool}

theorem follows_last (next : Token) : Follows lastLevel next := by
  intro operator _
  cases operator <;> decide

/-- An operand is counted and then read by its first token. -/
theorem readAt_operand {tokens : List Token} {count : Nat} {meaning : Option Form}
    (read : ∀ fuel state next rest, state.i :: state.unread = tokens ++ next :: rest →
      Budget assembler fuel count state →
      Reads state next rest count meaning (expr6Switch assembler critical
        (expr6 assembler critical relational fuel)
        (bexpr (expr6 assembler critical relational fuel) fuel relational) state)) :
    ReadAt assembler critical relational lastLevel tokens (count + 1) meaning := by
  intro fuel state next rest stands _ budget
  have within := budget.within
  have enough := budget.enough
  obtain ⟨fuel, rfl⟩ := Nat.exists_eq_succ_of_ne_zero (by omega : fuel ≠ 0)
  have counted := read fuel { state with deadman := state.deadman + 1 } next rest stands
    ⟨by show state.deadman + 1 + count ≤ _; omega, by show _ < state.deadman + 1 + fuel; omega⟩
  show Reads state next rest (count + 1) meaning
    (expr6 assembler critical relational (fuel + 1) state)
  rw [expr6, if_neg (by show ¬_ < state.deadman + 1; omega)]
  cases meaning with
  | none => exact counted
  | some form =>
      obtain ⟨vect, final, ran, represents, reached⟩ := counted
      exact ⟨vect, final, ran, represents, reached.i, reached.unread,
        reached.deadman.trans (Nat.add_right_comm _ _ _), reached.errors⟩

theorem readAt_paren {tokens : List Token} {count : Nat} {meaning : Option Form}
    (read : ReadAt assembler critical relational (startLevel relational) tokens count meaning) :
    ReadAt assembler critical relational lastLevel (.lparen :: tokens ++ [.rparen]) (count + 1)
      meaning := by
  apply readAt_operand
  intro fuel state next rest stands budget
  simp only [List.cons_append, List.append_assoc, List.nil_append, List.cons.injEq] at stands
  obtain ⟨first, unread⟩ := stands
  have some' : state.unread ≠ [] := by rw [unread]; simp
  have scanned := scan_stands some'
  rw [unread] at scanned
  have inner := (read fuel (scan state) .rparen (next :: rest) scanned
    (fun operator found => by cases found)
    ⟨by rw [scan_deadman]; exact budget.within, by rw [scan_deadman]; exact budget.enough⟩).scanned
  have keeps := (@parserAt_keeps assembler critical relational _ (startLevel_le relational) fuel
    (scan state)).scanned
  unfold expr6Switch
  rw [first, bexpr_eq]
  rw [← Option.bind_fun_some meaning]
  show Reads state next rest (count + 0) _ _
  refine inner.andThen keeps (fun e _ => (closing_quiet e).keepsErrors)
    fun form vect middle _ represents reached => ?_
  rw [if_neg (not_not.2 reached.i)]
  exact ⟨vect, _, rfl, represents, reached_scan reached.unread⟩

theorem Form.value_map_scalar (form : Form) (operation : BitVec 64 → BitVec 64) :
    (form.value.map fun value => Form.scalar (operation value)) =
      form.value.bind fun value => (some (operation value)).map Form.scalar := by
  cases form.value with
  | none => rfl
  | some value => rfl

theorem readAt_unary (operator : Unary) {tokens : List Token} {count : Nat} {meaning : Option Form}
    (plain : ∀ form, meaning = some form → operator.Plain assembler critical form)
    (read : ReadAt assembler critical relational lastLevel tokens count meaning) :
    ReadAt assembler critical relational lastLevel (operator.token :: tokens) (count + 1)
      (meaning.bind (operator.meaning assembler)) := by
  apply readAt_operand
  intro fuel state next rest stands budget
  rw [List.cons_append, List.cons.injEq] at stands
  obtain ⟨first, unread⟩ := stands
  have some' : state.unread ≠ [] := by rw [unread]; simp
  have scanned := scan_stands some'
  rw [unread] at scanned
  have operand : Reads state next rest count meaning
      (expr6 assembler critical relational fuel (scan state)) :=
    (read fuel (scan state) next rest scanned (follows_last next)
      ⟨by rw [scan_deadman]; exact budget.within,
        by rw [scan_deadman]; exact budget.enough⟩).scanned
  have keeps := (expr6_keepsErrors assembler critical relational fuel (scan state)).scanned
  unfold expr6Switch
  rw [first]
  cases operator with
  | minus =>
      exact operand.andThen_here keeps (fun _ _ => KeepsErrors.of_errors rfl)
        fun form vect middle means represents =>
          Reads.here (represents.negated (plain form means) middle.hint) middle.warnings _
  | plus =>
      show Reads state next rest count (meaning.bind some) _
      rw [Option.bind_fun_some]
      exact operand
  | not =>
      refine operand.andThen_here keeps (fun _ _ =>
        (scalarPrefix_quiet _ (fun _ => ⟨List.prefix_rfl, rfl, Later.refl _⟩) _).keepsErrors)
        fun form vect middle means represents => ?_
      have same : Unary.not.meaning assembler form =
          form.value.bind fun value => (some (~~~value)).map Form.scalar :=
        form.value_map_scalar _
      rw [same]
      exact scalarPrefix_reads represents middle (plain form means) _
        fun value => ⟨middle.warnings, rfl⟩
  | lnot =>
      refine operand.andThen_here keeps (fun _ _ =>
        (scalarPrefix_quiet _ (fun _ => ⟨List.prefix_rfl, rfl, Later.refl _⟩) _).keepsErrors)
        fun form vect middle means represents => ?_
      have same : Unary.lnot.meaning assembler form =
          form.value.bind fun value => (some (truth (value = 0))).map Form.scalar :=
        form.value_map_scalar _
      rw [same]
      exact scalarPrefix_reads represents middle (plain form means) _
        fun value => ⟨middle.warnings, rfl⟩
  | ifunc func =>
      exact operand.andThen_here keeps (fun _ _ =>
        (scalarPrefix_quiet _ (fun value => evalIfunc_quiet value func) _).keepsErrors)
        fun form vect middle means represents =>
          scalarPrefix_reads represents middle (plain form means) _
            fun value => evalIfunc_eq middle value func
  | seg =>
      exact operand.andThen_here keeps (fun _ _ =>
        ((segmentPart_quiet _ _).andThen fun _ _ => segCheck_quiet _ _).keepsErrors)
        fun form vect middle means represents =>
          segStep_reads represents middle assembler critical (plain form means)

theorem represents_labelVect {segment : Int} (plain : IsSegment segment) (offset : BitVec 64) :
    Represents (labelVect exprSimple segment offset) (symbolMeaning segment offset) := by
  unfold labelVect symbolMeaning
  by_cases none : segment = noSeg
  · rw [if_pos none]
    refine ⟨(Ordered.single offset (by decide) (by decide)), ?_⟩
    rw [coefficient_single]
    funext type
    rw [if_pos none]
    exact (add_zero _).symm
  · rw [if_neg none]
    obtain ⟨least, bounded⟩ := plain.resolve_left none
    have based := Represents.segment least bounded
    refine ⟨based.ordered.cons (fun other inside => ?_) (show exprSimple ≠ exprUnknown by decide)
      (show exprSimple < exprFar by decide), ?_⟩
    · rw [List.mem_singleton.1 inside]
      show exprSimple < exprSegbase + segment
      simp only [exprSegbase, exprSimple]
      omega
    · funext type
      rw [coefficient_cons, based.multiples, if_neg none]
      congr 1
      exact if_congr eq_comm rfl rfl

theorem evalLabel_reads (known : assembler.known = true) {state : EvalState} {next : Token}
    {rest : List Token} (unread : state.unread = next :: rest) {name : List UInt8}
    (plain : (Atom.id name).Plain assembler critical) :
    Reads state next rest 0 ((Atom.id name).meaning assembler)
      (evalLabel assembler critical name state) := by
  unfold evalLabel
  rw [known, if_neg (by simp)]
  simp only [Atom.Plain] at plain
  simp only [Atom.meaning]
  cases found : assembler.lookupLabel name with
  | some label =>
      rw [found] at plain
      exact ⟨_, _, rfl, represents_labelVect plain label.2, reached_scan_other unread rfl rfl⟩
  | none =>
      rw [found] at plain
      rcases plain with one | two
      · simp only [one]
        exact Reads.none_value _
      · simp only [two]
        exact Reads.none_value _

theorem evalFloatize_reads {state : EvalState} {next : Token} {rest : List Token} {type : Floatize}
    {sign : Option Bool} {text : List UInt8}
    (unread : state.unread =
      .lparen :: (signTokens sign ++ .float text :: .rparen :: next :: rest)) :
    Reads state next rest 0 ((Atom.float type sign text).meaning assembler)
      (evalFloatize assembler type state) := by
  unfold evalFloatize
  rw [scan_cons unread, Atom.meaning]
  rcases sign with _ | _ | _
  all_goals
    simp only [signTokens, scan, scanIf, List.nil_append, List.cons_append, reduceCtorEq, ne_eq,
      not_true_eq_false, or_self, or_true, or_false, decide_false, decide_true, Bool.false_eq_true,
      Option.some.injEq, ↓reduceIte]
    cases assembler.floatConst text _ _ with
    | none => exact Reads.none_value _
    | some result => exact ⟨_, _, rfl, represents_scalarvect _, rfl, rfl, rfl, rfl⟩

theorem evalStrfunc_reads {state : EvalState} {next : Token} {rest : List Token} {type : StrFunc}
    {parens : Bool} {text : List UInt8} (unread : state.unread = (if parens then
      [.lparen, .str text, .rparen] else [.str text]) ++ next :: rest) :
    Reads state next rest 0 ((Atom.strfunc type parens text).meaning assembler)
      (evalStrfunc assembler type state) := by
  unfold evalStrfunc
  rw [Atom.meaning]
  cases parens with
  | false =>
      rw [if_neg Bool.false_ne_true] at unread
      rw [scan_cons unread]
      simp only [scanIf, reduceCtorEq, decide_false, Bool.false_eq_true, ↓reduceIte, false_and]
      cases assembler.stringTransform text type with
      | none => exact Reads.none_value _
      | some transformed =>
          exact ⟨_, _, rfl, represents_scalarvect _, reached_scan_other (warnIf_unread _ _ _)
            (warnIf_deadman _ _ _) (warnIf_errors _ _ _)⟩
  | true =>
      rw [if_pos rfl] at unread
      rw [scan_cons unread]
      simp only [scan, scanIf, List.append_eq, List.nil_append, List.cons_append, decide_true,
        ↓reduceIte, warnIf_unread, ne_eq, not_true_eq_false, and_false]
      cases assembler.stringTransform text type with
      | none => exact Reads.none_value _
      | some transformed =>
          exact ⟨_, _, rfl, represents_scalarvect _, rfl, rfl, warnIf_deadman _ _ _,
            warnIf_errors _ _ _⟩

/-- An atom is read as what it means. -/
theorem readAt_atom (leaf : Atom) (known : assembler.known = true)
    (plain : leaf.Plain assembler critical) :
    ReadAt assembler critical relational lastLevel leaf.tokens 1 (leaf.meaning assembler) := by
  apply readAt_operand
  intro fuel state next rest stands _
  unfold expr6Switch
  cases leaf with
  | num value =>
      obtain ⟨first, unread⟩ := List.cons.inj stands
      rw [first]
      exact ⟨_, _, rfl, represents_scalarvect value, reached_scan unread⟩
  | str text =>
      obtain ⟨first, unread⟩ := List.cons.inj stands
      rw [first]
      refine ⟨_, _, rfl, represents_scalarvect _, ?_⟩
      exact reached_scan_other ((warnIf_unread _ _ _).trans unread) (warnIf_deadman _ _ _)
        (warnIf_errors _ _ _)
  | reg register =>
      obtain ⟨first, unread⟩ := List.cons.inj stands
      rw [first]
      obtain ⟨least, most⟩ : exprRegStart ≤ register ∧ register ≤ exprRegEnd := plain
      refine ⟨_, _, rfl, Represents.single 1 ?_ ?_, reached_scan_other unread rfl rfl⟩
      · rw [exprUnknown]
        omega
      · exact lt_of_le_of_lt most (by decide)
  | id name =>
      obtain ⟨first, unread⟩ := List.cons.inj stands
      rw [first]
      exact evalLabel_reads known unread plain
  | insn name =>
      obtain ⟨first, unread⟩ := List.cons.inj stands
      rw [first]
      exact evalLabel_reads known unread plain
  | here =>
      obtain ⟨first, unread⟩ := List.cons.inj stands
      rw [first]
      show Reads _ _ _ _ _ (ite _ _ _)
      rw [if_neg (by rw [known]; simp)]
      exact ⟨_, _, rfl, represents_labelVect plain _, reached_scan unread⟩
  | base =>
      obtain ⟨first, unread⟩ := List.cons.inj stands
      rw [first]
      show Reads _ _ _ _ _ (ite _ _ _)
      rw [if_neg (by rw [known]; simp)]
      exact ⟨_, _, rfl, represents_labelVect plain _, reached_scan unread⟩
  | decorator value =>
      obtain ⟨first, unread⟩ := List.cons.inj stands
      rw [first]
      exact ⟨_, _, rfl, Represents.single value (by decide) (by decide), reached_scan unread⟩
  | float type sign text =>
      have tokens : state.i = .floatize type ∧ state.unread = .lparen :: (signTokens sign ++
          .float text :: .rparen :: next :: rest) := by
        simpa [Atom.tokens] using stands
      rw [tokens.1]
      exact evalFloatize_reads tokens.2
  | strfunc type parens text =>
      have tokens : state.i = .strfunc type ∧ state.unread = (if parens then
          [.lparen, .str text, .rparen] else [.str text]) ++ next :: rest := by
        cases parens <;> simpa [Atom.tokens] using stands
      rw [tokens.1]
      exact evalStrfunc_reads tokens.2

end Lines

end Projs.Asm

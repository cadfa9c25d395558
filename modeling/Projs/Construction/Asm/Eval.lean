/-
This file embeds `eval.c`: the recursive-descent evaluator of expressions, over the tokens that a
scanner returns.
-/

import Projs.Construction.Asm.ExprLib
import Projs.Library.OperatorLoop

namespace Projs.Asm
open OperatorLoop

inductive Floatize where
  | float8
  | float16
  | float32
  | float64
  | float80M
  | float80E
  | float128L
  | float128H
  deriving DecidableEq, Repr

inductive StrFunc where
  | utf16
  | utf16le
  | utf16be
  | utf32
  | utf32le
  | utf32be
  deriving DecidableEq, Repr

inductive IFunc where
  | ilog2e
  | ilog2w
  | ilog2f
  | ilog2c
  deriving DecidableEq, Repr

/-- A token has the value that its type comes with; all other types are `other`. -/
inductive Token where
  | eos
  | dblOr
  | dblXor
  | dblAnd
  | eq
  | ne
  | lt
  | le
  | gt
  | ge
  | or
  | xor
  | and
  | shl
  | shr
  | plus
  | minus
  | times
  | div
  | mod
  | sdiv
  | smod
  | not
  | lnot
  | lparen
  | rparen
  | seg
  | wrt
  | ifunc (func : IFunc)
  | floatize (type : Floatize)
  | strfunc (type : StrFunc)
  | num (value : BitVec 64)
  | str (text : List UInt8)
  | float (text : List UInt8)
  | reg (register : Int)
  | id (name : List UInt8)
  | insn (name : List UInt8)
  | here
  | base
  | decorator (value : BitVec 64)
  | other (type : Nat)
  deriving DecidableEq, Repr

/-- What the evaluator reads of the assembler, and the functions that it calls. -/
structure Assembler where
  limitEval : Nat
  globalbits : Nat
  known : Bool
  locationSegment : Int
  locationOffset : BitVec 64
  inAbsolute : Bool
  absoluteSegment : Int
  absoluteOffset : BitVec 64
  lookupLabel : List UInt8 → Option (Int × BitVec 64)
  isExtern : List UInt8 → Bool
  localScope : List UInt8 → List UInt8
  segbase : Int → Int
  floatConst : List UInt8 → Int → Nat → Option (List UInt8)
  stringTransform : List UInt8 → StrFunc → Option (List UInt8)

/-- A shift by 64 or more and a signed quotient that does not fit have no defined result. -/
inductive EvalFault where
  | undefined
  | endless
  deriving DecidableEq, Repr

inductive EvalError where
  | text (text : String)
  | symbol (scope name : List UInt8) (text : String)
  deriving DecidableEq, Repr

structure OpFlags where
  forward : Bool
  external : Bool
  deriving DecidableEq, Repr

structure EvalState where
  unread : List Token
  i : Token
  deadman : Nat
  errors : List EvalError
  warnings : List String
  opflags : Option OpFlags
  hint : Option EvalHints

abbrev EvalResult := Outcome EvalFault (List Expr) EvalState

/-- After the last token the scanner returns the end of the string again and again. -/
def scan (state : EvalState) : EvalState :=
  match state.unread with
  | [] => { state with i := .eos }
  | token :: unread => { state with i := token, unread }

/-- The next token is scanned only under a condition. -/
def scanIf (condition : Bool) (state : EvalState) : EvalState :=
  if condition then scan state else state

def nasmError (text : String) (state : EvalState) : EvalState :=
  { state with errors := state.errors ++ [.text text] }

def nasmWarning (text : String) (state : EvalState) : EvalState :=
  { state with warnings := state.warnings ++ [text] }

def warnIf (warn : Bool) (text : String) (state : EvalState) : EvalState :=
  if warn then nasmWarning text state else state

/-- An error is reported and there is no value. -/
def evalFail (text : String) (state : EvalState) : EvalResult := .ok (none, nasmError text state)

/-- A vector and a hint that were computed. -/
def evalHinted (state : EvalState) (vect : List Expr × Option EvalHints) : EvalResult :=
  .ok (some vect.1, { state with hint := vect.2 })

def readstrnum (globalbits : Nat) (text : List UInt8) : BitVec 64 × Bool :=
  let (high, low) : BitVec 64 × BitVec 64 :=
    if globalbits = 64 then (0xFF00000000000000, ~~~0xFF00000000000000) else (0xFF000000, 0xFFFFFF)
  text.foldr (fun byte (charconst, warn) =>
    (((charconst &&& low) <<< 8) + byte.toBitVec.setWidth 64,
      warn || charconst &&& high ≠ 0)) (0, false)

/-- The upper half of the bits is taken if any bit is set there. -/
def roundHalf (width : Nat) (value : BitVec 32 × Nat) : BitVec 32 × Nat :=
  let mask := (((1 : BitVec 32) <<< width) - 1) <<< width
  if value.1 &&& mask ≠ 0 then (value.1 >>> width, value.2 + width) else value

def ilog2of64 (vv : BitVec 64) : Nat :=
  let high := (vv >>> 32).setWidth 32
  let start := if high ≠ 0 then (high, 32) else (vv.setWidth 32, 0)
  (roundHalf 1 (roundHalf 2 (roundHalf 4 (roundHalf 8 (roundHalf 16 start))))).2

def isPower2 (value : BitVec 64) : Bool := value ≠ 0 && value &&& (value - 1) = 0

def evalIfunc (state : EvalState) (uval : BitVec 64) (func : IFunc) : BitVec 64 × EvalState :=
  let text := "ilog2 argument is not a power of two"
  let floor := BitVec.ofNat 64 (ilog2of64 uval)
  match func with
  | .ilog2e => (floor, if isPower2 uval then state else nasmError text state)
  | .ilog2w => (floor, if isPower2 uval then state else nasmWarning text state)
  | .ilog2f => (floor, state)
  | .ilog2c => (if uval < 2 then 0 else BitVec.ofNat 64 (ilog2of64 (uval - 1) + 1), state)

/-- The number of bytes of the format, and the first byte and the number of bytes of the part. -/
def floatFormat : Floatize → Nat × Nat × Nat
  | .float8 => (1, 0, 1)
  | .float16 => (2, 0, 2)
  | .float32 => (4, 0, 4)
  | .float64 => (8, 0, 8)
  | .float80M => (10, 0, 8)
  | .float80E => (10, 8, 2)
  | .float128L => (16, 0, 8)
  | .float128H => (16, 8, 8)

def floatPart (type : Floatize) (result : List UInt8) : BitVec 64 :=
  let (_, start, length) := floatFormat type
  ((result.drop start).take length).foldr
    (fun byte value => (value <<< 8) + byte.toBitVec.setWidth 64) 0

def evalFloatize (assembler : Assembler) (type : Floatize) (state : EvalState) : EvalResult :=
  let state := scan state
  if state.i ≠ .lparen then evalFail "expecting `('" state
  else
    let state := scan state
    let sign : Int := if state.i = .minus then -1 else 1
    let state := scanIf (state.i = .minus ∨ state.i = .plus) state
    match state.i with
    | .float text =>
        match assembler.floatConst text sign (floatFormat type).1 with
        | none => .ok (none, state)
        | some result =>
            let state := scan state
            if state.i ≠ .rparen then evalFail "expecting `)'" state
            else .ok (some (scalarvect (floatPart type result)), scan state)
    | _ => evalFail "expecting floating-point number" state

def evalStrfunc (assembler : Assembler) (type : StrFunc) (state : EvalState) : EvalResult :=
  let state := scan state
  let parens : Bool := state.i = .lparen
  let state := scanIf parens state
  match state.i with
  | .str text =>
      match assembler.stringTransform text type with
      | none => evalFail "invalid string for transform" state
      | some transformed =>
          let (value, warn) := readstrnum assembler.globalbits transformed
          let state := scanIf parens state
          if parens ∧ state.i ≠ .rparen then evalFail "expecting `)'" state
          else
            .ok (some (scalarvect value), scan (warnIf warn "character constant too long" state))
  | _ => evalFail "expecting string" state

def segmentPart (assembler : Assembler) (e : List Expr) (state : EvalState) : EvalResult :=
  if isUnknown e then .ok (some unknownExpr, state)
  else if ¬isReloc assembler.locationSegment e then
    evalFail "cannot apply SEG to a non-relocatable value" state
  else
    let seg := relocSeg e
    if seg = noSeg then evalFail "cannot apply SEG to a non-relocatable value" state
    else if seg.toNat &&& segAbs ≠ 0 then
      .ok (some (scalarvect (BitVec.ofNat 64 (seg.toNat ^^^ segAbs))), state)
    else if seg.toNat &&& 1 ≠ 0 then
      evalFail "SEG applied to something which is already a segment base" state
    else
      let base := assembler.segbase (seg + 1)
      .ok (some [{ type := if base = noSeg then exprUnknown else exprSegbase + base, value := 1 }],
        state)

/-- The operand is a scalar or it is not known. -/
def isOperand (e : List Expr) : Bool := isSimple e || isJustUnknown e

/-- The operators of a level of the grammar, each with its right operand. -/
def levelLoop (isOperator : Token → Bool)
    (combine : Token → List Expr → List Expr → EvalState → EvalResult)
    (operand : EvalState → EvalResult) : Nat → List Expr → EvalState → EvalResult :=
  operatorLoop .endless (fun state => isOperator state.i) fun e state =>
    andThen (operand (scan state)) (combine state.i e)

/-- A level of the grammar: operands with operators between them, grouped from the left. -/
def level (isOperator : Token → Bool)
    (combine : Token → List Expr → List Expr → EvalState → EvalResult)
    (operand : EvalState → EvalResult) (fuel : Nat) (state : EvalState) : EvalResult :=
  andThen (operand state) (levelLoop isOperator combine operand fuel)

/-- An operator on two scalars; what is no scalar is reported and counts as its scalar part. -/
def scalarOperator (text : String) (operation : BitVec 64 → BitVec 64 → BitVec 64) (_ : Token)
    (e f : List Expr) (state : EvalState) : EvalResult :=
  let state := if isOperand e ∧ isOperand f then state else nasmError text state
  if isJustUnknown e ∨ isJustUnknown f then .ok (some unknownExpr, state)
  else .ok (some (scalarvect (operation (relocValue e) (relocValue f))), state)

def truth (value : Bool) : BitVec 64 := if value then 1 else 0

def relationText : Token → String
  | .le => "`<=': operands differ by a non-scalar"
  | .lt => "`<': operands differ by a non-scalar"
  | .ge => "`>=': operands differ by a non-scalar"
  | _ => "`>': operands differ by a non-scalar"

/-- The operators `=` and `<>` compare whole vectors, the others the sign of the difference. -/
def relation (j : Token) (e f : List Expr) (state : EvalState) : EvalResult :=
  let (f, hint) := scalarMult state.hint false (-1) f
  let (e, hint) := addVectors hint e f
  let state := { state with hint }
  if isUnknown e then .ok (some unknownExpr, state)
  else if j = .eq ∨ j = .ne then
    if isReallySimple e = false ∨ relocValue e ≠ 0 then
      .ok (some (scalarvect (truth (j = .ne))), state)
    else .ok (some (scalarvect (truth (j = .eq))), state)
  else if isReallySimple e = false then
    .ok (some (scalarvect 0), nasmError (relationText j) state)
  else if relocValue e = 0 then .ok (some (scalarvect (truth (j = .le ∨ j = .ge))), state)
  else if 0 < (relocValue e).toInt then
    .ok (some (scalarvect (truth (j = .ge ∨ j = .gt))), state)
  else .ok (some (scalarvect (truth (j = .le ∨ j = .lt))), state)

def shift (j : Token) (e f : List Expr) (state : EvalState) : EvalResult :=
  if ¬(isOperand e ∧ isOperand f) then
    .ok (some e, nasmError "shift operator may only be applied to scalar values" state)
  else if isJustUnknown e ∨ isJustUnknown f then .ok (some unknownExpr, state)
  else if 64 ≤ (relocValue f).toNat then .error .undefined
  else
    match j with
    | .shl => .ok (some (scalarvect (relocValue e <<< (relocValue f).toNat)), state)
    | .shr => .ok (some (scalarvect (relocValue e >>> (relocValue f).toNat)), state)
    | _ => .ok (some e, state)

def addition (j : Token) (e f : List Expr) (state : EvalState) : EvalResult :=
  match j with
  | .plus => evalHinted state (addVectors state.hint e f)
  | .minus =>
      let (f, hint) := scalarMult state.hint false (-1) f
      evalHinted state (addVectors hint e f)
  | _ => .ok (some e, state)

/-- The least number divided by minus one does not fit. -/
def sdivOverflows (dividend divisor : BitVec 64) : Bool :=
  dividend = BitVec.intMin 64 && divisor = -1

def multiplication (j : Token) (e f : List Expr) (state : EvalState) : EvalResult :=
  if j ≠ .times ∧ ¬(isOperand e ∧ isOperand f) then
    evalFail "division operator may only be applied to scalar values" state
  else if j ≠ .times ∧ isJustUnknown f = false ∧ relocValue f = 0 then
    evalFail "division by zero" state
  else if j = .times then
    if isSimple e then evalHinted state (scalarMult state.hint true (relocValue e) f)
    else if isSimple f then evalHinted state (scalarMult state.hint true (relocValue f) e)
    else if isJustUnknown e ∧ isJustUnknown f then .ok (some unknownExpr, state)
    else evalFail "unable to multiply two non-scalar objects" state
  else if isJustUnknown e ∨ isJustUnknown f then .ok (some unknownExpr, state)
  else
    match j with
    | .div => .ok (some (scalarvect (relocValue e / relocValue f)), state)
    | .mod => .ok (some (scalarvect (relocValue e % relocValue f)), state)
    | .sdiv =>
        if sdivOverflows (relocValue e) (relocValue f) then .error .undefined
        else .ok (some (scalarvect ((relocValue e).sdiv (relocValue f))), state)
    | .smod =>
        if sdivOverflows (relocValue e) (relocValue f) then .error .undefined
        else .ok (some (scalarvect ((relocValue e).srem (relocValue f))), state)
    | _ => .ok (some e, state)

def bitAnd : Token → List Expr → List Expr → EvalState → EvalResult :=
  scalarOperator "`&' operator may only be applied to scalar values" fun e f => e &&& f

def bitXor : Token → List Expr → List Expr → EvalState → EvalResult :=
  scalarOperator "`^' operator may only be applied to scalar values" fun e f => e ^^^ f

def bitOr : Token → List Expr → List Expr → EvalState → EvalResult :=
  scalarOperator "`|' operator may only be applied to scalar values" fun e f => e ||| f

def logicalAnd : Token → List Expr → List Expr → EvalState → EvalResult :=
  scalarOperator "`&' operator may only be applied to scalar values" fun e f =>
    truth (e ≠ 0 && f ≠ 0)

def logicalXor : Token → List Expr → List Expr → EvalState → EvalResult :=
  scalarOperator "`^' operator may only be applied to scalar values" fun e f =>
    truth (e = 0) ^^^ truth (f = 0)

def logicalOr : Token → List Expr → List Expr → EvalState → EvalResult :=
  scalarOperator "`|' operator may only be applied to scalar values" fun e f =>
    truth (e ≠ 0 || f ≠ 0)

section Levels
variable (expr6 : EvalState → EvalResult) (fuel : Nat)

def expr5 : EvalState → EvalResult :=
  level (fun i => i = .times ∨ i = .div ∨ i = .mod ∨ i = .sdiv ∨ i = .smod) multiplication
    expr6 fuel

def expr4 : EvalState → EvalResult :=
  level (fun i => i = .plus ∨ i = .minus) addition (expr5 expr6 fuel) fuel

def expr3 : EvalState → EvalResult :=
  level (fun i => i = .shl ∨ i = .shr) shift (expr4 expr6 fuel) fuel

def expr2 : EvalState → EvalResult := level (fun i => i = .and) bitAnd (expr3 expr6 fuel) fuel

def expr1 : EvalState → EvalResult := level (fun i => i = .xor) bitXor (expr2 expr6 fuel) fuel

def expr0 : EvalState → EvalResult := level (fun i => i = .or) bitOr (expr1 expr6 fuel) fuel

def rexp3 : EvalState → EvalResult :=
  level (fun i => i = .eq ∨ i = .lt ∨ i = .gt ∨ i = .ne ∨ i = .le ∨ i = .ge) relation
    (expr0 expr6 fuel) fuel

def rexp2 : EvalState → EvalResult :=
  level (fun i => i = .dblAnd) logicalAnd (rexp3 expr6 fuel) fuel

def rexp1 : EvalState → EvalResult :=
  level (fun i => i = .dblXor) logicalXor (rexp2 expr6 fuel) fuel

def rexp0 : EvalState → EvalResult :=
  level (fun i => i = .dblOr) logicalOr (rexp1 expr6 fuel) fuel

/-- Relational operators are read only when the evaluation is critical in this way. -/
def bexpr (relational : Bool) : EvalState → EvalResult :=
  if relational then rexp0 expr6 fuel else expr0 expr6 fuel

end Levels

/-- An operator on one scalar. -/
def scalarPrefix (text : String) (operation : BitVec 64 → EvalState → BitVec 64 × EvalState)
    (e : List Expr) (state : EvalState) : EvalResult :=
  if isJustUnknown e then .ok (some unknownExpr, state)
  else if isSimple e = false then evalFail text state
  else
    let (value, state) := operation (relocValue e) state
    .ok (some (scalarvect value), state)

/-- The segment and the offset that a label stands for, and the type of the offset. -/
def labelVect (type : Int) (labelSeg : Int) (labelOfs : BitVec 64) : List Expr :=
  { type, value := labelOfs } ::
    if labelSeg = noSeg then [] else [{ type := exprSegbase + labelSeg, value := 1 }]

def orFlags (forward external : Bool) (state : EvalState) : EvalState :=
  { state with opflags := state.opflags.map fun flags =>
      { forward := flags.forward || forward, external := flags.external || external } }

/-- A symbol is not valid in preprocess-only mode. -/
def unknownLocation (text : String) (state : EvalState) : EvalResult :=
  .ok (some unknownExpr, scan (nasmError (text ++ " not supported in preprocess-only mode") state))

def evalLabel (assembler : Assembler) (critical : Nat) (name : List UInt8) (state : EvalState) :
    EvalResult :=
  if assembler.known = false then unknownLocation "symbol references" state
  else
    match assembler.lookupLabel name with
    | some (labelSeg, labelOfs) =>
        let state := orFlags false (assembler.isExtern name) state
        .ok (some (labelVect exprSimple labelSeg labelOfs), scan state)
    | none =>
        let report (text : String) : EvalResult :=
          .ok (none, { state with
            errors := state.errors ++ [.symbol (assembler.localScope name) name text] })
        if critical = 2 then report "undefined"
        else if critical = 1 then report "not defined before use"
        else
          let state := orFlags true (assembler.isExtern name) state
          .ok (some (labelVect exprUnknown noSeg 1), scan state)

/-- The first register is hinted as the base. -/
def hintRegister (register : Int) (state : EvalState) : EvalState :=
  { state with hint := state.hint.map fun hint =>
      if hint.type = .noHint then { base := register, type := .makeBase } else hint }

def currentSegment (assembler : Assembler) : Int :=
  if assembler.inAbsolute then assembler.absoluteSegment else assembler.locationSegment

def currentOffset (assembler : Assembler) : BitVec 64 :=
  if assembler.inAbsolute then assembler.absoluteOffset else assembler.locationOffset

/-- An operand, by its first token. -/
def expr6Switch (assembler : Assembler) (critical : Nat) (operand bexpr : EvalState → EvalResult)
    (state : EvalState) : EvalResult :=
  match state.i with
  | .minus =>
      andThen (operand (scan state)) fun e state =>
        evalHinted state (scalarMult state.hint false (-1) e)
  | .plus => operand (scan state)
  | .not =>
      andThen (operand (scan state)) (scalarPrefix
        "`~' operator may only be applied to scalar values"
        fun value state => (~~~value, state))
  | .lnot =>
      andThen (operand (scan state)) (scalarPrefix
        "`!' operator may only be applied to scalar values"
        fun value state => (truth (value = 0), state))
  | .ifunc func =>
      andThen (operand (scan state)) (scalarPrefix
        "function may only be applied to scalar values"
        fun value state => evalIfunc state value func)
  | .seg =>
      andThen (operand (scan state)) fun e state =>
        andThen (segmentPart assembler e state) fun e state =>
          if isUnknown e ∧ critical ≠ 0 then
            evalFail "unable to determine segment base" state
          else .ok (some e, state)
  | .floatize type => evalFloatize assembler type state
  | .strfunc type => evalStrfunc assembler type state
  | .lparen =>
      andThen (bexpr (scan state)) fun e state =>
        if state.i ≠ .rparen then evalFail "expecting `)'" state
        else .ok (some e, scan state)
  | .num value => .ok (some (scalarvect value), scan state)
  | .str text =>
      let (value, warn) := readstrnum assembler.globalbits text
      .ok (some (scalarvect value), scan (warnIf warn "character constant too long" state))
  | .reg register =>
      .ok (some [{ type := register, value := 1 }], scan (hintRegister register state))
  | .id name => evalLabel assembler critical name state
  | .insn name => evalLabel assembler critical name state
  | .here =>
      if assembler.known = false then unknownLocation "`$'" state
      else
        .ok (some (labelVect exprSimple (currentSegment assembler) (currentOffset assembler)),
          scan state)
  | .base =>
      if assembler.known = false then unknownLocation "`$$'" state
      else .ok (some (labelVect exprSimple (currentSegment assembler) 0), scan state)
  | .decorator value => .ok (some [{ type := exprRdsae, value }], scan state)
  | _ => evalFail "expression syntax error" state

def expr6 (assembler : Assembler) (critical : Nat) (relational : Bool) :
    Nat → EvalState → EvalResult
  | 0, _ => .error .endless
  | fuel + 1, state =>
      let state := { state with deadman := state.deadman + 1 }
      let operand := expr6 assembler critical relational fuel
      if assembler.limitEval < state.deadman then evalFail "expression too long" state
      else expr6Switch assembler critical operand (bexpr operand fuel relational) state

/-- The right-hand operand of `WRT` as a vector. -/
def wrtPart (assembler : Assembler) (critical : Nat) (f : List Expr) (state : EvalState) :
    EvalResult :=
  if isJustUnknown f then .ok (some unknownExpr, state)
  else if ¬isReloc assembler.locationSegment f then
    evalFail "invalid right-hand operand to WRT" state
  else
    let value := relocSeg f
    if value = noSeg then
      .ok (some [{ type := exprWrt, value := relocValue f ||| BitVec.ofNat 64 segAbs }], state)
    else if value.toNat &&& segAbs = 0 ∧ value.toNat % 2 = 0 ∧ critical ≠ 0 then
      evalFail "invalid right-hand operand to WRT" state
    else .ok (some [{ type := exprWrt, value := BitVec.ofInt 64 value }], state)

/-- The flag of `critical` that turns on the relational operators. -/
def criticalFlag : Nat := 0x100

/-- The relational operators are read. -/
def isRelational (critical : Nat) : Bool := critical &&& criticalFlag ≠ 0

/-- The main value of `critical`, without the flag. -/
def criticalValue (critical : Nat) : Nat :=
  if isRelational critical then critical ^^^ criticalFlag else critical

/-- The first token is scanned unless it was scanned before. -/
def evalStart (token : Option Token) (unread : List Token) (fwref : Option OpFlags)
    (hints : Option EvalHints) : EvalState :=
  let start : EvalState :=
    { unread, i := token.getD .eos, deadman := 0, errors := [], warnings := [], opflags := fwref,
      hint := hints.map fun hint => { hint with type := .noHint } }
  scanIf token.isNone start

def evaluate (assembler : Assembler) (token : Option Token) (unread : List Token)
    (fwref : Option OpFlags) (critical : Nat) (hints : Option EvalHints) : EvalResult :=
  let relational := isRelational critical
  let critical := criticalValue critical
  let fuel := assembler.limitEval + 1
  let operand := expr6 assembler critical relational fuel
  andThen (bexpr operand fuel relational (evalStart token unread fwref hints)) fun e state =>
    if state.i = .wrt then
      andThen (operand (scan state)) fun f state =>
        let (e, hint) := scalarMult state.hint false 1 e
        andThen (wrtPart assembler critical f { state with hint }) fun g state =>
          evalHinted state (addVectors state.hint e g)
    else evalHinted state (scalarMult state.hint false 1 e)

end Projs.Asm

/-
This file defines what an expression is before it is written as tokens, how it is written, and what
it means: a linear form with a multiple for each type of component.
-/

import Mathlib.Data.Nat.Log
import Projs.Construction.Asm.Eval

namespace Projs.Asm

inductive Binary where
  | dblOr
  | dblXor
  | dblAnd
  | eq
  | ne
  | lt
  | le
  | gt
  | ge
  | or
  | xor
  | and
  | shl
  | shr
  | plus
  | minus
  | times
  | div
  | mod
  | sdiv
  | smod
  deriving DecidableEq, Repr

/-- The line of the grammar on which the operator stands. -/
def Binary.level : Binary → Nat
  | .dblOr => 0
  | .dblXor => 1
  | .dblAnd => 2
  | .eq | .ne | .lt | .le | .gt | .ge => 3
  | .or => 4
  | .xor => 5
  | .and => 6
  | .shl | .shr => 7
  | .plus | .minus => 8
  | .times | .div | .mod | .sdiv | .smod => 9

def Binary.token : Binary → Token
  | .dblOr => .dblOr
  | .dblXor => .dblXor
  | .dblAnd => .dblAnd
  | .eq => .eq
  | .ne => .ne
  | .lt => .lt
  | .le => .le
  | .gt => .gt
  | .ge => .ge
  | .or => .or
  | .xor => .xor
  | .and => .and
  | .shl => .shl
  | .shr => .shr
  | .plus => .plus
  | .minus => .minus
  | .times => .times
  | .div => .div
  | .mod => .mod
  | .sdiv => .sdiv
  | .smod => .smod

inductive Unary where
  | minus
  | plus
  | not
  | lnot
  | ifunc (func : IFunc)
  | seg
  deriving DecidableEq, Repr

def Unary.token : Unary → Token
  | .minus => .minus
  | .plus => .plus
  | .not => .not
  | .lnot => .lnot
  | .ifunc func => .ifunc func
  | .seg => .seg

inductive Atom where
  | num (value : BitVec 64)
  | str (text : List UInt8)
  | reg (register : Int)
  | id (name : List UInt8)
  | insn (name : List UInt8)
  | here
  | base
  | decorator (value : BitVec 64)
  | float (type : Floatize) (sign : Option Bool) (text : List UInt8)
  | strfunc (type : StrFunc) (parens : Bool) (text : List UInt8)
  deriving DecidableEq, Repr

/-- The sign of a number is written or not; `true` is a minus. -/
def signTokens : Option Bool → List Token
  | none => []
  | some true => [.minus]
  | some false => [.plus]

def Atom.tokens : Atom → List Token
  | .num value => [.num value]
  | .str text => [.str text]
  | .reg register => [.reg register]
  | .id name => [.id name]
  | .insn name => [.insn name]
  | .here => [.here]
  | .base => [.base]
  | .decorator value => [.decorator value]
  | .float type sign text =>
      [.floatize type, .lparen] ++ signTokens sign ++ [.float text, .rparen]
  | .strfunc type parens text =>
      if parens then [.strfunc type, .lparen, .str text, .rparen] else [.strfunc type, .str text]

inductive Tree where
  | atom (leaf : Atom)
  | unary (operator : Unary) (operand : Tree)
  | paren (inner : Tree)
  | binary (operator : Binary) (left right : Tree)
  deriving DecidableEq, Repr

/-- The line of the grammar of a whole expression, with relational operators or without. -/
def startLevel (relational : Bool) : Nat := if relational then 0 else 4

/-- The last line of the grammar has no binary operators. -/
def lastLevel : Nat := 10

/-- An expression for a line of the grammar; an operator of an earlier line needs parentheses. -/
def Tree.tokens : Tree → Nat → List Token
  | .atom leaf, _ => leaf.tokens
  | .unary operator operand, _ => operator.token :: operand.tokens lastLevel
  | .paren inner, _ => .lparen :: inner.tokens 0 ++ [.rparen]
  | .binary operator left right, level =>
      let inner :=
        left.tokens operator.level ++ operator.token :: right.tokens (operator.level + 1)
      if operator.level < level then .lparen :: inner ++ [.rparen] else inner

/-- The number of operands, prefix operators and pairs of parentheses that are written. -/
def Tree.operands : Tree → Nat → Nat
  | .atom _, _ => 1
  | .unary _ operand, _ => operand.operands lastLevel + 1
  | .paren inner, _ => inner.operands 0 + 1
  | .binary operator left right, level =>
      let inner := left.operands operator.level + right.operands (operator.level + 1)
      if operator.level < level then inner + 1 else inner

/-- All operators are on lines of the grammar from the first one on. -/
def Tree.Within (first : Nat) : Tree → Prop
  | .atom _ => True
  | .unary _ operand => operand.Within first
  | .paren inner => inner.Within first
  | .binary operator left right => first ≤ operator.level ∧ left.Within first ∧ right.Within first

/-- A multiple for each type of component. -/
abbrev Form := Int → BitVec 64

def Form.single (type : Int) (value : BitVec 64) : Form := fun other =>
  if other = type then value else 0

def Form.scalar (value : BitVec 64) : Form := Form.single exprSimple value

/-- Only the scalar component is there. -/
def Form.IsScalar (form : Form) : Prop := ∀ type, type ≠ exprSimple → form type = 0

/-- No far-absolute segment is there. -/
def Form.Near (form : Form) : Prop := ∀ type, exprFar ≤ type → form type = 0

/-- The form without its far-absolute segments. -/
def Form.near (form : Form) : Form := fun type => if type < exprFar then form type else 0

/-- A scalar, segment bases of which at most one is added and only the current one subtracted, and a
segment to which all is relative. -/
def Form.IsReloc (locationSegment : Int) (form : Form) : Prop :=
  (∀ type, form type ≠ 0 → type = exprSimple ∨ type = exprWrt ∨ exprSegbase ≤ type) ∧
    (∀ first second, exprSegbase ≤ first → exprSegbase ≤ second → form first = 1 →
      form second = 1 → first = second) ∧
    ∀ type, exprSegbase ≤ type → form type = -1 → type = locationSegment + exprSegbase

open Classical in
/-- The value of a scalar. -/
noncomputable def Form.value (form : Form) : Option (BitVec 64) :=
  if form.IsScalar then some (form exprSimple) else none

/-- A quotient or a remainder, where it is defined. -/
def quotient (operator : Binary) (left right : BitVec 64) : Option (BitVec 64) :=
  if right = 0 then none
  else
    match operator with
    | .div => some (left / right)
    | .mod => some (left % right)
    | .sdiv => if sdivOverflows left right then none else some (left.sdiv right)
    | _ => if sdivOverflows left right then none else some (left.srem right)

/-- What an operator on two scalars gives. -/
def Binary.scalarMeaning (operator : Binary) (left right : BitVec 64) : Option (BitVec 64) :=
  match operator with
  | .dblOr => some (truth (left ≠ 0 ∨ right ≠ 0))
  | .dblXor => some (truth ((left = 0) ≠ (right = 0)))
  | .dblAnd => some (truth (left ≠ 0 ∧ right ≠ 0))
  | .or => some (left ||| right)
  | .xor => some (left ^^^ right)
  | .and => some (left &&& right)
  | .shl => if right.toNat < 64 then some (left <<< right.toNat) else none
  | .shr => if right.toNat < 64 then some (left >>> right.toNat) else none
  | operator => quotient operator left right

/-- An order is decided by the sign of the difference. -/
def Binary.orderMeaning (operator : Binary) (difference : BitVec 64) : Bool :=
  match operator with
  | .lt => difference.toInt < 0
  | .le => difference.toInt ≤ 0
  | .gt => 0 < difference.toInt
  | _ => 0 ≤ difference.toInt

open Classical in
/-- Sums and differences are those of linear forms; a product has a scalar on one side. -/
noncomputable def Binary.meaning (operator : Binary) (left right : Form) : Option Form :=
  match operator with
  | .plus => some fun type => left type + right type
  | .minus => some fun type => left type - right type
  | .times =>
      match left.value, right.value with
      | some scalar, _ => some fun type => scalar * right type
      | none, some scalar => some fun type => scalar * left type
      | none, none => none
  | .eq => some (Form.scalar (truth (left = right)))
  | .ne => some (Form.scalar (truth (left ≠ right)))
  | .lt | .le | .gt | .ge =>
      (Form.value fun type => left type - right type).map fun difference =>
        Form.scalar (truth (operator.orderMeaning difference))
  | operator => do
      let first ← left.value
      let second ← right.value
      (operator.scalarMeaning first second).map Form.scalar

/-- The logarithms to the base two, rounded down and up; `ilog2e` takes powers of two only. -/
def IFunc.meaning (func : IFunc) (value : BitVec 64) : Option (BitVec 64) :=
  match func with
  | .ilog2e =>
      if 2 ^ Nat.log 2 value.toNat = value.toNat then some (BitVec.ofNat 64 (Nat.log 2 value.toNat))
      else none
  | .ilog2w | .ilog2f => some (BitVec.ofNat 64 (Nat.log 2 value.toNat))
  | .ilog2c => some (BitVec.ofNat 64 (Nat.clog 2 value.toNat))

open Classical in
/-- The segment whose base is added. -/
noncomputable def Form.segment (form : Form) : Option Int :=
  if based : ∃ type, exprSegbase ≤ type ∧ form type = 1 then some (based.choose - exprSegbase)
  else none

open Classical in
/-- The segment base of a relocatable value, and the number of a far-absolute segment. -/
noncomputable def segMeaning (assembler : Assembler) (form : Form) : Option Form :=
  if form.IsReloc assembler.locationSegment then
    form.segment.bind fun segment =>
      if segAbs ≤ segment then some (Form.scalar (BitVec.ofInt 64 (segment - segAbs)))
      else if segment % 2 = 0 ∧ assembler.segbase (segment + 1) ≠ noSeg then
        some (Form.single (exprSegbase + assembler.segbase (segment + 1)) 1)
      else none
  else none

noncomputable def Unary.meaning (assembler : Assembler) (operator : Unary) (form : Form) :
    Option Form :=
  match operator with
  | .minus => some fun type => -form type
  | .plus => some form
  | .not => form.value.map fun value => Form.scalar (~~~value)
  | .lnot => form.value.map fun value => Form.scalar (truth (value = 0))
  | .ifunc func => form.value.bind fun value => (func.meaning value).map Form.scalar
  | .seg => segMeaning assembler form

/-- A symbol is its offset, and its segment base if it has a segment. -/
def symbolMeaning (segment : Int) (offset : BitVec 64) : Form := fun type =>
  Form.scalar offset type +
    if segment = noSeg then 0 else Form.single (exprSegbase + segment) 1 type

def Atom.meaning (assembler : Assembler) : Atom → Option Form
  | .num value => some (Form.scalar value)
  | .str text => some (Form.scalar (readstrnum assembler.globalbits text).1)
  | .reg register => some (Form.single register 1)
  | .id name | .insn name =>
      (assembler.lookupLabel name).map fun label => symbolMeaning label.1 label.2
  | .here => some (symbolMeaning (currentSegment assembler) (currentOffset assembler))
  | .base => some (symbolMeaning (currentSegment assembler) 0)
  | .decorator value => some (Form.single exprRdsae value)
  | .float type sign text =>
      (assembler.floatConst text (if sign = some true then -1 else 1) (floatFormat type).1).map
        fun result => Form.scalar (floatPart type result)
  | .strfunc type _ text =>
      (assembler.stringTransform text type).map fun transformed =>
        Form.scalar (readstrnum assembler.globalbits transformed).1

noncomputable def Tree.meaning (assembler : Assembler) : Tree → Option Form
  | .atom leaf => leaf.meaning assembler
  | .unary operator operand => (operand.meaning assembler).bind (operator.meaning assembler)
  | .paren inner => inner.meaning assembler
  | .binary operator left right =>
      (left.meaning assembler).bind fun first =>
        (right.meaning assembler).bind fun second => operator.meaning first second

open Classical in
/-- The right-hand operand of `WRT` is a segment, or a number for an absolute segment. -/
noncomputable def wrtMeaning (assembler : Assembler) (critical : Nat) (form : Form) : Option Form :=
  if form.IsReloc assembler.locationSegment then
    match form.segment with
    | some segment =>
        if segment < segAbs ∧ segment % 2 = 0 ∧ critical ≠ 0 then none
        else some (Form.single exprWrt (BitVec.ofInt 64 segment))
    | none => some (Form.single exprWrt (form exprSimple ||| BitVec.ofNat 64 segAbs))
  else none

/-- A whole expression, with or without a segment to which it is relative. -/
structure Expression where
  tree : Tree
  wrt : Option Tree

def Expression.tokens (expression : Expression) : List Token :=
  expression.tree.tokens 0 ++
    expression.wrt.elim [] fun wrt => .wrt :: wrt.tokens lastLevel

def Expression.operands (expression : Expression) : Nat :=
  expression.tree.operands 0 + expression.wrt.elim 0 fun wrt => wrt.operands lastLevel

/-- A form and the segment to which it is relative; of the form itself a far-absolute segment is
left out. -/
noncomputable def relativeTo (assembler : Assembler) (critical : Nat) (wrt : Option Tree)
    (form : Form) : Option Form :=
  match wrt with
  | none => some form.near
  | some wrt =>
      ((wrt.meaning assembler).bind (wrtMeaning assembler critical)).map fun base type =>
        form.near type + base type

noncomputable def Expression.meaning (assembler : Assembler) (critical : Nat)
    (expression : Expression) : Option Form :=
  (expression.tree.meaning assembler).bind (relativeTo assembler critical expression.wrt)

/-- No segment, or a number that is a type after it is added to that of the first segment. -/
def IsSegment (segment : Int) : Prop :=
  segment = noSeg ∨ 0 ≤ segment ∧ exprSegbase + segment < 2 ^ 31

/-- All registers are registers, and a symbol that the expression names may be undefined only where
the evaluation is critical. -/
def Atom.Plain (assembler : Assembler) (critical : Nat) : Atom → Prop
  | .reg register => exprRegStart ≤ register ∧ register ≤ exprRegEnd
  | .id name | .insn name =>
      match assembler.lookupLabel name with
      | some label => IsSegment label.1
      | none => critical = 1 ∨ critical = 2
  | .here | .base => IsSegment (currentSegment assembler)
  | _ => True

/-- The output format knows the base of the segment, or the evaluation is critical. -/
def SegmentPlain (assembler : Assembler) (critical : Nat) (segment : Int) : Prop :=
  segment < segAbs → segment % 2 = 0 → IsSegment (assembler.segbase (segment + 1)) ∧
    (assembler.segbase (segment + 1) = noSeg → critical ≠ 0)

/-- A far-absolute segment is no operand, but for a plus sign and for the segment base. -/
def Unary.Plain (assembler : Assembler) (critical : Nat) (operator : Unary) (form : Form) : Prop :=
  match operator with
  | .plus => True
  | .seg => form.IsReloc assembler.locationSegment →
      ∀ segment, form.segment = some segment → SegmentPlain assembler critical segment
  | _ => form.Near

def Tree.Plain (assembler : Assembler) (critical : Nat) : Tree → Prop
  | .atom leaf => leaf.Plain assembler critical
  | .unary operator operand => operand.Plain assembler critical ∧
      ∀ form, operand.meaning assembler = some form → operator.Plain assembler critical form
  | .paren inner => inner.Plain assembler critical
  | .binary _ left right => left.Plain assembler critical ∧ right.Plain assembler critical ∧
      (∀ form, left.meaning assembler = some form → form.Near) ∧
      ∀ form, right.meaning assembler = some form → form.Near

def Expression.Plain (assembler : Assembler) (critical : Nat) (expression : Expression) : Prop :=
  expression.tree.Plain assembler critical ∧
    ∀ wrt, expression.wrt = some wrt → wrt.Plain assembler critical

def Expression.Within (first : Nat) (expression : Expression) : Prop :=
  expression.tree.Within first ∧ ∀ wrt, expression.wrt = some wrt → wrt.Within first

/-- The token is no binary operator and no `WRT`, so that it ends an expression. -/
def Token.EndsExpression (token : Token) : Prop :=
  token ≠ .wrt ∧ ∀ operator : Binary, token ≠ operator.token

end Projs.Asm

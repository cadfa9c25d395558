/-
This file embeds `exprlib.c` and the vector operations of `eval.c`: an expression is a vector of
components, each with its type and its multiple.
-/

import Mathlib.Algebra.Group.Nat.Defs
import Mathlib.Algebra.Group.Int.Defs

namespace Projs.Asm

def exprRegStart : Int := 1
def exprRegEnd : Int := 240
def exprUnknown : Int := exprRegEnd + 1
def exprSimple : Int := exprRegEnd + 2
def exprWrt : Int := exprRegEnd + 3
def exprRdsae : Int := exprRegEnd + 4
def exprSegbase : Int := exprRegEnd + 5

def noSeg : Int := -1
def segAbs : Nat := 0x40000000

/-- The types from here on are far-absolute segments. -/
def exprFar : Int := exprSegbase + segAbs

/-- The record with type zero that ends a vector is the end of the list. -/
structure Expr where
  type : Int
  value : BitVec 64
  deriving DecidableEq, Repr

/-- Components with value zero are skipped. -/
def skipZero : List Expr → List Expr
  | [] => []
  | term :: vect => if term.value = 0 then skipZero vect else term :: vect

def isSimple (vect : List Expr) : Bool :=
  match skipZero vect with
  | [] => true
  | term :: rest =>
      if term.type ≠ exprSimple then false
      else
        match skipZero rest with
        | [] => true
        | next :: _ => ¬next.type < exprFar

def isReallySimple (vect : List Expr) : Bool :=
  match skipZero vect with
  | [] => true
  | term :: rest => if term.type ≠ exprSimple then false else (skipZero rest).isEmpty

def isRelocLoop (locationSegment : Int) : Bool → Bool → List Expr → Bool
  | _, _, [] => true
  | hasRel, hasSeg, term :: vect =>
      if term.value = 0 then isRelocLoop locationSegment hasRel hasSeg vect
      else if term.type < exprSimple then false
      else if term.type = exprSimple then isRelocLoop locationSegment hasRel hasSeg vect
      else if term.type = exprWrt then isRelocLoop locationSegment hasRel hasSeg vect
      else if term.type < exprSegbase then false
      else if term.value = 1 then
        if hasSeg then false else isRelocLoop locationSegment hasRel true vect
      else if term.value = -1 then
        if term.type ≠ locationSegment + exprSegbase then false
        else if hasRel then false
        else isRelocLoop locationSegment true hasSeg vect
      else isRelocLoop locationSegment hasRel hasSeg vect

def isReloc (locationSegment : Int) (vect : List Expr) : Bool :=
  isRelocLoop locationSegment false false vect

def isUnknown : List Expr → Bool
  | [] => false
  | term :: vect => if term.type < exprUnknown then isUnknown vect else term.type = exprUnknown

def isJustUnknown (vect : List Expr) : Bool :=
  match skipZero vect with
  | [] => false
  | term :: _ => term.type = exprUnknown

def relocValue (vect : List Expr) : BitVec 64 :=
  match skipZero vect with
  | [] => 0
  | term :: _ => if term.type = exprSimple then term.value else 0

def relocSeg : List Expr → Int
  | [] => noSeg
  | term :: vect =>
      if exprSegbase ≤ term.type ∧ term.value = 1 then term.type - exprSegbase else relocSeg vect

inductive EvalHint where
  | noHint
  | makeBase
  | notBase
  | summed
  deriving DecidableEq, Repr

structure EvalHints where
  base : Int
  type : EvalHint
  deriving DecidableEq, Repr

/-- Of the rest of a vector the far-absolute segments are copied only if they are preserved. -/
def copyRest (preserve : Bool) (vect : List Expr) : List Expr :=
  if preserve then vect else vect.takeWhile fun term => decide (term.type < exprFar)

def addVectorsLoop (preserve : Bool) (hint : Option EvalHints) :
    List Expr → List Expr → List Expr × Option EvalHints
  | p :: ps, q :: qs =>
      if p.type < exprFar ∧ q.type < exprFar then
        if q.type < p.type then
          if q.type = exprUnknown then ([q], hint)
          else
            let (rest, hint) := addVectorsLoop preserve hint (p :: ps) qs
            (q :: rest, hint)
        else if p.type < q.type then
          if p.type = exprUnknown then ([p], hint)
          else
            let (rest, hint) := addVectorsLoop preserve hint ps (q :: qs)
            (p :: rest, hint)
        else
          let sum := p.value + q.value
          let added := if sum = 0 then [] else [{ type := p.type, value := sum }]
          let hint := if sum = 0 then hint else hint.map fun hint => { hint with type := .summed }
          if p.type = exprUnknown then (added, hint)
          else
            let (rest, hint) := addVectorsLoop preserve hint ps qs
            (added ++ rest, hint)
      else (copyRest preserve (p :: ps) ++ copyRest preserve (q :: qs), hint)
  | ps, qs => (copyRest preserve ps ++ copyRest preserve qs, hint)
  termination_by ps qs => ps.length + qs.length

def addVectors (hint : Option EvalHints) (p q : List Expr) : List Expr × Option EvalHints :=
  addVectorsLoop (isReallySimple p || isReallySimple q) hint p q

/-- A register that is multiplied is no longer the hinted base. -/
def affectHints (type : Int) (hint : Option EvalHints) : Option EvalHints :=
  hint.map fun hint =>
    if hint.type = .makeBase ∧ type = hint.base then { hint with type := .notBase } else hint

def scalarMult (hint : Option EvalHints) (affect : Bool) (scalar : BitVec 64) :
    List Expr → List Expr × Option EvalHints
  | [] => ([], hint)
  | term :: vect =>
      if term.type < exprFar then
        let hint := if affect then affectHints term.type hint else hint
        let (rest, hint) := scalarMult hint affect scalar vect
        ({ term with value := scalar * term.value } :: rest, hint)
      else ([], hint)

def scalarvect (scalar : BitVec 64) : List Expr := [{ type := exprSimple, value := scalar }]

def unknownExpr : List Expr := [{ type := exprUnknown, value := 1 }]

end Projs.Asm

/-
This file embeds `saa.c`, a byte array that grows by blocks and has a cursor for writing and a
cursor for reading.
-/

import Mathlib.Algebra.Group.Nat.Defs

namespace Projs.Nasmlib

def SAA_BLKSHIFT : Nat := 16

def SAA_BLKLEN : Nat := 1 <<< SAA_BLKSHIFT

/-- What can go wrong in a call: an assertion, memory that is not there or not written, and a loop
that makes no progress. -/
inductive SaaFault where
  | assertion
  | outOfBounds
  | uninitialized
  | endless
  deriving DecidableEq, Repr

/-- A byte of a block is nothing until it is written. -/
abbrev Block := Nat → Option UInt8

/-- The pointers into `blk_ptrs` are indices; the write pointer may stand before the first block. -/
structure Saa where
  elemLen : Nat
  blkLen : Nat
  nblks : Nat
  nblkptrs : Nat
  length : Nat
  datalen : Nat
  wblk : Int
  wpos : Nat
  wptr : Nat
  rblk : Nat
  rpos : Nat
  rptr : Nat
  blkPtrs : Nat → Option Block

/-- The sum of a position and a length from outside wraps as a `size_t`. All other sums are within
memory that was allocated. -/
def sizeSum (posn len : Nat) : Nat := (posn + len) % 2 ^ 64

def newBlock : Block := fun _ => none

def saaInit (elemLen : Nat) : Saa :=
  let blkLen := if SAA_BLKLEN ≤ elemLen then elemLen else SAA_BLKLEN - SAA_BLKLEN % elemLen
  { elemLen, blkLen, nblks := 1, nblkptrs := 1, length := blkLen, datalen := 0
    wblk := 0, wpos := 0, wptr := 0, rblk := 0, rpos := 0, rptr := 0
    blkPtrs := fun n => if n = 0 then some newBlock else none }

/-- The array of block pointers is doubled when it is full. -/
def saaExtend (s : Saa) : Except SaaFault Saa :=
  let blkn := s.nblks
  let nblkptrs := if s.nblkptrs ≤ blkn then s.nblkptrs <<< 1 else s.nblkptrs
  if blkn < nblkptrs then
    .ok { s with
      nblks := blkn + 1
      nblkptrs
      blkPtrs := fun n => if n = blkn then some newBlock else s.blkPtrs n
      length := s.length + s.blkLen }
  else .error .outOfBounds

/-- Bytes are copied to a place inside one block. -/
def copyIn (s : Saa) (blk : Int) (pos : Nat) (d : List UInt8) : Except SaaFault Saa :=
  if 0 ≤ blk ∧ pos + d.length ≤ s.blkLen then
    match s.blkPtrs blk.toNat with
    | none => .error .outOfBounds
    | some block =>
        let written : Block := fun n =>
          if pos ≤ n ∧ n < pos + d.length then d[n - pos]? else block n
        .ok { s with blkPtrs := fun n => if n = blk.toNat then some written else s.blkPtrs n }
  else .error .outOfBounds

/-- Bytes are read from a place inside one block. -/
def copyOut (s : Saa) (blk pos len : Nat) : Except SaaFault (List UInt8) :=
  if pos + len ≤ s.blkLen then
    match s.blkPtrs blk with
    | none => .error .outOfBounds
    | some block =>
        match (List.range len).mapM fun n => block (pos + n) with
        | none => .error .uninitialized
        | some bytes => .ok bytes
  else .error .outOfBounds

/-- The write cursor moves on, and the data grow with it. -/
def advance (s : Saa) (len : Nat) : Saa :=
  { s with
    wpos := s.wpos + len
    wptr := s.wptr + len
    datalen := if s.datalen < s.wptr + len then s.wptr + len else s.datalen }

/-- The write cursor goes to the next block, which is added when there is none. -/
def nextBlock (s : Saa) : Except SaaFault Saa := do
  let s ← if s.length ≤ s.wptr then saaExtend s else .ok s
  pure { s with wblk := s.wblk + 1, wpos := 0 }

/-- The loop of `saa_wbytes`; a null pointer for the data writes zeros and is the list of these. -/
def wbytesFrom : (steps : Nat) → Saa → List UInt8 → Except SaaFault Saa
  | _, s, [] => .ok s
  | 0, _, _ :: _ => .error .endless
  | steps + 1, s, d => do
      let l := min (s.blkLen - s.wpos) d.length
      let s ← if l = 0 then .ok s else
        (copyIn s s.wblk s.wpos (d.take l)).map fun s => advance s l
      let s ← if d.drop l = [] then .ok s else nextBlock s
      wbytesFrom steps s (d.drop l)

/-- At most the first step copies nothing. -/
def saaWbytes (s : Saa) (d : List UInt8) : Except SaaFault Saa := wbytesFrom (d.length + 1) s d

/-- The place of a new structure, which the caller fills. -/
def saaWstruct (s : Saa) : Except SaaFault ((Int × Nat) × Saa) := do
  if s.wpos % s.elemLen = 0 then
    let s ←
      if s.blkLen < s.wpos + s.elemLen then
        if s.wpos = s.blkLen then
          let s ← if s.length < s.wptr + s.elemLen then saaExtend s else .ok s
          pure { s with wblk := s.wblk + 1, wpos := 0 }
        else .error .assertion
      else .ok s
    pure ((s.wblk, s.wpos), advance s s.elemLen)
  else .error .assertion

def saaRewind (s : Saa) : Saa := { s with rblk := 0, rpos := 0, rptr := 0 }

/-- Without data for a whole structure the result is a null pointer. -/
def saaRstruct (s : Saa) : Except SaaFault (Option (List UInt8) × Saa) := do
  if s.datalen < s.rptr + s.elemLen then pure (none, s)
  else if s.rpos % s.elemLen = 0 then
    let s := if s.blkLen < s.rpos + s.elemLen then { s with rblk := s.rblk + 1, rpos := 0 } else s
    let bytes ← copyOut s s.rblk s.rpos s.elemLen
    pure (some bytes, { s with rpos := s.rpos + s.elemLen, rptr := s.rptr + s.elemLen })
  else .error .assertion

/-- At the end of the data the result is a null pointer. -/
def saaRbytes (s : Saa) (len : Nat) : Except SaaFault (Option (List UInt8) × Saa) := do
  if s.datalen ≤ s.rptr then pure (none, s)
  else
    let s := if s.blkLen ≤ s.rpos then { s with rblk := s.rblk + 1, rpos := 0 } else s
    let len := min (min len (s.datalen - s.rptr)) (s.blkLen - s.rpos)
    let bytes ← copyOut s s.rblk s.rpos len
    pure (some bytes, { s with rpos := s.rpos + len, rptr := s.rptr + len })

def rnbytesFrom : (steps : Nat) → Saa → (len : Nat) → Except SaaFault (List UInt8 × Saa)
  | _, s, 0 => .ok ([], s)
  | 0, _, _ + 1 => .error .endless
  | steps + 1, s, len => do
      let (p, s) ← saaRbytes s len
      let bytes := p.getD []
      let (rest, s) ← rnbytesFrom steps s (len - bytes.length)
      pure (bytes ++ rest, s)

def saaRnbytes (s : Saa) (len : Nat) : Except SaaFault (List UInt8 × Saa) :=
  if sizeSum s.rptr len ≤ s.datalen then rnbytesFrom len s len else .error .assertion

/-- The block of a position and the place inside of it. -/
def locate (s : Saa) (posn : Nat) : Nat × Nat :=
  if s.blkLen = SAA_BLKLEN then (posn >>> SAA_BLKSHIFT, posn &&& (SAA_BLKLEN - 1))
  else (posn / s.blkLen, posn % s.blkLen)

def saaFread (s : Saa) (posn len : Nat) : Except SaaFault (List UInt8 × Saa) :=
  if sizeSum posn len ≤ s.datalen then
    let (ix, rpos) := locate s posn
    saaRnbytes { s with rblk := ix, rpos, rptr := posn } len
  else .error .assertion

/-- A position at the start of a block is taken for the end of the block before it. -/
def saaFwrite (s : Saa) (posn : Nat) (d : List UInt8) : Except SaaFault Saa :=
  if posn ≤ s.datalen then
    let (ix, wpos) := locate s posn
    let s := { s with wblk := ix, wpos, wptr := posn }
    saaWbytes (if s.wpos = 0 then { s with wpos := s.blkLen, wblk := s.wblk - 1 } else s) d
  else .error .assertion

/-- The loop writes what a read returns until it returns nothing. -/
def fpwriteFrom : (steps : Nat) → Saa → Except SaaFault (List UInt8 × Saa)
  | 0, _ => .error .endless
  | steps + 1, s => do
      let (data, s) ← saaRbytes s s.datalen
      match data with
      | none => pure ([], s)
      | some bytes =>
          let (rest, s) ← fpwriteFrom steps s
          pure (bytes ++ rest, s)

def saaFpwrite (s : Saa) : Except SaaFault (List UInt8 × Saa) :=
  fpwriteFrom (s.datalen + 1) (saaRewind s)

end Projs.Nasmlib

/-
This file embeds `hashtbl.c`, a table of strings with open addressing and two hashes.
-/

import Projs.Construction.Nasmlib.Crc64

namespace Projs.Nasmlib

/-- A C string is the list of its bytes before the terminating null. -/
structure CString where
  bytes : List UInt8
  terminated : 0 ∉ bytes
  deriving DecidableEq

/-- The loop compares the bytes in lower case, and it stops at the first difference or null. -/
def stricmpBytes : List UInt8 → List UInt8 → Int
  | [], [] => 0
  | [], c2 :: _ => 0 - (nasmTolower c2).toNat
  | c1 :: _, [] => (nasmTolower c1).toNat - 0
  | c1 :: s1, c2 :: s2 =>
      if (nasmTolower c1).toNat = (nasmTolower c2).toNat then stricmpBytes s1 s2
      else (nasmTolower c1).toNat - (nasmTolower c2).toNat

def nasmStricmp (s1 s2 : CString) : Int := stricmpBytes s1.bytes s2.bytes

structure HashTblNode (Data : Type) where
  hash : UInt64
  key : CString
  data : Data

/-- A node without a key is free. -/
structure HashTable (Data : Type) where
  table : Nat → Option (HashTblNode Data)
  load : Nat
  size : Nat
  maxLoad : Nat

/-- A failed search leaves its hash and the free node where it ended. -/
structure HashInsert where
  hash : UInt64
  place : Nat
  deriving DecidableEq, Repr

def HASH_MAX_LOAD : Nat := 2

def hashCalc (key : CString) : UInt64 := crc64 CRC64_INIT key.bytes

def hashCalci (key : CString) : UInt64 := crc64i CRC64_INIT key.bytes

def hashMaxLoad (size : Nat) : Nat := size * (HASH_MAX_LOAD - 1) / HASH_MAX_LOAD

def hashExpand (size : Nat) : Nat := size <<< 1

def hashMask (size : Nat) : Nat := size - 1

def hashPos (hash : UInt64) (mask : Nat) : Nat := hash.toNat &&& mask

def hashInc (hash : UInt64) (mask : Nat) : Nat := ((hash.toNat >>> 32) &&& mask) ||| 1

def hashPosNext (pos inc mask : Nat) : Nat := (pos + inc) &&& mask

def isPower2 (value : Nat) : Bool := value ≠ 0 && (value &&& (value - 1)) = 0

variable {Data : Type}

def allocTable : Nat → Option (HashTblNode Data) := fun _ => none

/-- A size that is not a power of two fails the assertion. -/
def hashInit (size : Nat) : Option (HashTable Data) :=
  if isPower2 size then
    some { table := allocTable, load := 0, size, maxLoad := hashMaxLoad size }
  else none

inductive HashFound where
  | found (place : Nat)
  | missing (insert : HashInsert)
  deriving DecidableEq, Repr

/-- The loop of a search; one that has not ended after `steps` steps gives no result. -/
def hashFindFrom (same : CString → CString → Bool) (tbl : Nat → Option (HashTblNode Data))
    (hash : UInt64) (key : CString) (inc mask : Nat) : (steps pos : Nat) → Option HashFound
  | 0, _ => none
  | steps + 1, pos =>
      match tbl pos with
      | none => some (.missing ⟨hash, pos⟩)
      | some np =>
          if hash = np.hash ∧ same key np.key then some (.found pos)
          else hashFindFrom same tbl hash key inc mask steps (hashPosNext pos inc mask)

/-- Both searches differ in the hash and in the comparison only. A loop that has passed every node
of the table would never end. -/
def hashFindBy (hashOf : CString → UInt64) (same : CString → CString → Bool)
    (head : HashTable Data) (key : CString) : Option HashFound :=
  let hash := hashOf key
  let mask := hashMask head.size
  hashFindFrom same head.table hash key (hashInc hash mask) mask head.size (hashPos hash mask)

def hashFind : HashTable Data → CString → Option HashFound :=
  hashFindBy hashCalc fun key other => key.bytes = other.bytes

def hashFindi : HashTable Data → CString → Option HashFound :=
  hashFindBy hashCalci fun key other => nasmStricmp key other = 0

def writeNode (table : Nat → Option (HashTblNode Data)) (place : Nat) (node : HashTblNode Data) :
    Nat → Option (HashTblNode Data) :=
  fun other => if other = place then some node else table other

/-- The loop that looks for a free node of the new table. -/
def freeFrom (newtbl : Nat → Option (HashTblNode Data)) (inc mask : Nat) :
    (steps pos : Nat) → Option Nat
  | 0, _ => none
  | steps + 1, pos =>
      match newtbl pos with
      | none => some pos
      | some _ => freeFrom newtbl inc mask steps (hashPosNext pos inc mask)

/-- One node is moved, and the pointer to the inserted node follows it. -/
def moveNode (table : Nat → Option (HashTblNode Data)) (newsize np : Nat)
    (moved : (Nat → Option (HashTblNode Data)) × Nat) (i : Nat) :
    Option ((Nat → Option (HashTblNode Data)) × Nat) :=
  match table i with
  | none => some moved
  | some op => do
      let mask := hashMask newsize
      let xp ← freeFrom moved.1 (hashInc op.hash mask) mask newsize (hashPos op.hash mask)
      some (writeNode moved.1 xp op, if i = np then xp else moved.2)

/-- The node is inserted first, and then the table is expanded if it has become too full; the result
has the place of the inserted node. -/
def hashAdd (head : HashTable Data) (insert : HashInsert) (key : CString) (data : Data) :
    Option (HashTable Data × Nat) :=
  let table := writeNode head.table insert.place ⟨insert.hash, key, data⟩
  if head.maxLoad < head.load + 1 then do
    let newsize := hashExpand head.size
    let (newtbl, np) ← (List.range head.size).foldlM (moveNode table newsize insert.place)
      (allocTable, insert.place)
    some ({
      table := newtbl
      load := head.load + 1
      size := newsize
      maxLoad := hashMaxLoad newsize }, np)
  else some ({ head with table, load := head.load + 1 }, insert.place)

/-- The loop of an iteration skips the free nodes. -/
def iterateFrom (table : Nat → Option (HashTblNode Data)) :
    (left np : Nat) → Option (HashTblNode Data × Nat)
  | 0, _ => none
  | left + 1, np =>
      match table np with
      | some node => some (node, np + 1)
      | none => iterateFrom table left (np + 1)

/-- An iteration starts with a null iterator; its result has the node and the next iterator. -/
def hashIterate (head : HashTable Data) (iterator : Option Nat) :
    Option (HashTblNode Data × Nat) :=
  iterateFrom head.table (head.size - iterator.getD 0) (iterator.getD 0)

/-- The loop of the callers goes on while it gets data that is not null, so that it ends where no
node is left, and at a node whose data is the null pointer; `pointee` is what a pointer points to.
-/
def iterateAll {Value : Type} (pointee : Data → Option Value) (head : HashTable Data) :
    (steps : Nat) → Option Nat → List (CString × Value)
  | 0, _ => []
  | steps + 1, iterator =>
      match hashIterate head iterator with
      | none => []
      | some (node, next) =>
          match pointee node.data with
          | none => []
          | some value => (node.key, value) :: iterateAll pointee head steps (some next)

end Projs.Nasmlib

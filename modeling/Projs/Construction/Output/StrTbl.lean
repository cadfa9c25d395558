/-
This file embeds `strtbl.c`, the string table that the output formats write without duplicates.
-/

import Mathlib.Algebra.Group.Nat.Defs
import Projs.Construction.Nasmlib.HashTbl

namespace Projs.Output
open Nasmlib

def HASH_LARGE : Nat := 256

def STRTBL_NONE : Nat := 2 ^ 64 - 1

/-- The entry keeps the string with its terminating null. -/
structure StrtblEntry where
  index : Nat
  str : List UInt8
  deriving DecidableEq, Repr

structure NasmStrtbl where
  size : Nat
  hash : HashTable StrtblEntry

/-- A known string has its index already. -/
def strtblAdd (tbl : NasmStrtbl) (str : CString) : Option (NasmStrtbl × Nat) := do
  match ← hashFind tbl.hash str with
  | .found place =>
      let node ← tbl.hash.table place
      some (tbl, node.data.index)
  | .missing hi =>
      let bytes := str.bytes.length + 1
      let se : StrtblEntry := ⟨tbl.size, str.bytes ++ [0]⟩
      let added ← hashAdd tbl.hash hi str se
      some (⟨tbl.size + bytes, added.1⟩, se.index)

def emptyString : CString := ⟨[], List.not_mem_nil⟩

/-- Index 0 is always an empty string. -/
def strtblInit : Option NasmStrtbl := do
  let hash ← hashInit HASH_LARGE
  let added ← strtblAdd ⟨0, hash⟩ emptyString
  some added.1

def strtblFind (tbl : NasmStrtbl) (str : CString) : Option Nat := do
  match ← hashFind tbl.hash str with
  | .found place => (tbl.hash.table place).map fun node => node.data.index
  | .missing _ => some STRTBL_NONE

/-- Bytes outside the buffer must not be written. -/
def memcpy (size : Nat) (buf : Nat → Option UInt8) (se : StrtblEntry) :
    Option (Nat → Option UInt8) :=
  if se.index + se.str.length ≤ size then
    some fun place =>
      if se.index ≤ place ∧ place < se.index + se.str.length then se.str[place - se.index]?
      else buf place
  else none

/-- The buffer is not initialized before the strings are copied. The data of an entry is never the
null pointer. -/
def strtblGenerate (tbl : NasmStrtbl) : Option (Nat → Option UInt8) :=
  ((iterateAll some tbl.hash (tbl.hash.size + 1) none).map Prod.snd).foldlM (memcpy tbl.size)
    fun _ => none

end Projs.Output

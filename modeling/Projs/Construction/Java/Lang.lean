import Mathlib.Algebra.Group.Int.Defs
import Mathlib.Algebra.Group.Nat.Defs
import Mathlib.Data.List.Basic
import Mathlib.Data.List.DropRight
import Mathlib.Tactic.Common

namespace Projs.Java

/-- A Java char is one UTF-16 code unit, and a string is a sequence of them. -/
abbrev JavaChar := UInt16

abbrev JavaString := List JavaChar

/-- This is a string literal of the source, whose characters all fit one code unit. -/
def literal (text : String) : JavaString :=
  text.toList.map fun character => UInt16.ofNat character.toNat

/-- The int operators keep the low 32 bits, read as a signed number. -/
def wrapInt (value : Int) : Int := value.bmod (2 ^ 32)

theorem wrapInt_of_range {value : Int} (low : -2 ^ 31 ≤ value) (high : value < 2 ^ 31) :
    wrapInt value = value := by
  simp only [wrapInt, Int.bmod]
  omega

/-- These are the zeros of the decimal digit blocks that `Character.digit` knows in one code
unit. -/
def digitZeros : List Nat :=
  [0x0030, 0x0660, 0x06F0, 0x07C0, 0x0966, 0x09E6, 0x0A66, 0x0AE6, 0x0B66, 0x0BE6, 0x0C66, 0x0CE6,
    0x0D66, 0x0E50, 0x0ED0, 0x0F20, 0x1040, 0x1090, 0x17E0, 0x1810, 0x1946, 0x19D0, 0x1A80, 0x1A90,
    0x1B50, 0x1BB0, 0x1C40, 0x1C50, 0xA620, 0xA8D0, 0xA900, 0xA9D0, 0xAA50, 0xABF0, 0xFF10]

/-- This is `Character.digit(c, 10)`, with `none` for its result minus one. -/
def digit (character : JavaChar) : Option Nat :=
  digitZeros.findSome? fun start =>
    if start ≤ character.toNat ∧ character.toNat < start + 10 then some (character.toNat - start)
    else none

/-- The digits are read from the left, and one character that is no digit spoils them all. -/
def readDigits (total : Nat) : JavaString → Option Nat
  | [] => some total
  | character :: rest =>
      match digit character with
      | some value => readDigits (total * 10 + value) rest
      | none => none

/-- An int holds no number outside its range. -/
def inInt (value : Int) : Option Int :=
  if -2 ^ 31 ≤ value ∧ value < 2 ^ 31 then some value else none

/-- A magnitude needs at least one digit. -/
def magnitude (text : JavaString) : Option Nat :=
  if text = [] then none else readDigits 0 text

/-- This is `Integer.parseInt`, with `none` for its `NumberFormatException`. -/
def parseInt : JavaString → Option Int
  | [] => none
  | first :: rest =>
      if first = 0x2D then (magnitude rest).bind fun value => inInt (-value)
      else if first = 0x2B then (magnitude rest).bind fun value => inInt value
      else (magnitude (first :: rest)).bind fun value => inInt value

/-- This is `text.substring(text.indexOf(c) + 1)`: the whole text when the character is missing. -/
def afterFirst (character : JavaChar) (text : JavaString) : JavaString :=
  match text.idxOf? character with
  | some index => text.drop (index + 1)
  | none => text

/-- This is `text.replace(target, replacement)` for a target of one character. -/
def replace (target : JavaChar) (replacement text : JavaString) : JavaString :=
  text.flatMap fun character => if character = target then replacement else [character]

/-- This is `text.split(separator)` for a separator of one character that means itself in a pattern:
empty pieces at the end are dropped, and a text without the separator is its own only piece. -/
def split (separator : JavaChar) (text : JavaString) : List JavaString :=
  if separator ∈ text then (text.splitOn separator).rdropWhile List.isEmpty else [text]

/-- Only the empty text has an empty piece at the end. -/
theorem split_of_ne_nil (separator : JavaChar) {text : JavaString} (filled : text ≠ []) :
    split separator text = (text.splitOn separator).rdropWhile List.isEmpty := by
  unfold split
  split
  · rfl
  · next absent =>
      rw [List.splitOn_eq_singleton absent, List.rdropWhile_singleton,
        if_neg (by simpa using filled)]

end Projs.Java

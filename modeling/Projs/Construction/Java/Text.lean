/-
This file embeds the methods of `String` that find, cut and replace parts of a text.
-/

import Projs.Construction.Java.Lang

namespace Projs.Java

/-- Behind a target that was replaced, the scan skips the rest of it. -/
def replaceFrom (target replacement : JavaString) : Nat → JavaString → JavaString
  | _, [] => []
  | skip + 1, _ :: rest => replaceFrom target replacement skip rest
  | 0, character :: rest =>
      if target.isPrefixOf (character :: rest) then
        replacement ++ replaceFrom target replacement (target.length - 1) rest
      else character :: replaceFrom target replacement 0 rest

/-- This is `text.replace(target, replacement)` for a target that is not empty. -/
def replaceText (target replacement text : JavaString) : JavaString :=
  replaceFrom target replacement 0 text

/-- This is `text.trim()`, which takes every character up to the space for white space. -/
def trim (text : JavaString) : JavaString :=
  (text.dropWhile fun character => character ≤ 0x20).rdropWhile fun character => character ≤ 0x20

/-- This is `text.lastIndexOf(c)`, with its result minus one when the character is missing. -/
def lastIndexOf (character : JavaChar) (text : JavaString) : Int :=
  match text.reverse.idxOf? character with
  | some index => (text.length : Int) - 1 - index
  | none => -1

structure StringIndexOutOfBounds where
  deriving DecidableEq, Repr

/-- This is `text.substring(0, stop)`. -/
def substringTo (stop : Int) (text : JavaString) : Except StringIndexOutOfBounds JavaString :=
  if 0 ≤ stop ∧ stop ≤ text.length then .ok (text.take stop.toNat) else .error {}

end Projs.Java

/-
This file states how a form is read back from a query or from a body.
-/

import Projs.Construction.Java.Charset
import Projs.Library.Tokens

namespace Projs.JavaUtiler
open Java Tokens

/-- A hexadecimal digit has a value. -/
def hexValue (character : JavaChar) : Option Nat :=
  let code := character.toNat
  if 0x30 ≤ code ∧ code ≤ 0x39 then some (code - 0x30)
  else if 0x41 ≤ code ∧ code ≤ 0x46 then some (code - 0x41 + 10)
  else if 0x61 ≤ code ∧ code ≤ 0x66 then some (code - 0x61 + 10)
  else none

/-- A percent sign with two hexadecimal digits is an escape, and the text goes on behind it. -/
def escape : JavaString → Option (UInt8 × JavaString)
  | sign :: high :: low :: rest =>
      if sign = 0x25 then
        match hexValue high, hexValue low with
        | some first, some second => some (UInt8.ofNat (first * 0x10 + second), rest)
        | _, _ => none
      else none
  | _ => none

/-- Escapes in a row are the bytes of one text, and a percent sign without digits means itself;
`bytes` are the escapes read just before. -/
def percentDecode (bytes : List UInt8) : JavaString → JavaString
  | [] => decodeUtf8 bytes
  | [character] => decodeUtf8 bytes ++ [character]
  | [first, second] => decodeUtf8 bytes ++ [first, second]
  | sign :: high :: low :: rest =>
      match escape (sign :: high :: low :: rest) with
      | some (byte, _) => percentDecode (bytes ++ [byte]) rest
      | none => decodeUtf8 bytes ++ sign :: percentDecode [] (high :: low :: rest)

/-- A plus sign stands for a space. -/
def plusToSpace (text : JavaString) : JavaString :=
  text.map fun character => if character = 0x2B then 0x20 else character

def decodeComponent (text : JavaString) : JavaString := percentDecode [] (plusToSpace text)

/-- A piece is cut at its first equals sign; without one it is a key with an empty value. -/
def entryOf (piece : JavaString) : JavaString × JavaString :=
  (decodeComponent (piece.takeWhile fun character => character != 0x3D),
    decodeComponent (piece.dropWhile fun character => character != 0x3D).tail)

/-- A form is cut at its ampersands, and an empty piece is no entry. -/
def parseForm (text : JavaString) : List (JavaString × JavaString) :=
  (tokens (fun character => character == 0x26) text).map entryOf

/-- A body is read as a text in the charset it was written in. -/
def parseBody (charset : Charset) (body : List UInt8) : List (JavaString × JavaString) :=
  parseForm (charset.decode body)

end Projs.JavaUtiler

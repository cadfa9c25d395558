/-
This file embeds the decoding of UTF-8 by the constructors of `String`, and the encoding of a text
by a writer.
-/

import Projs.Construction.Java.Lang

namespace Projs.Java

/-- Every malformed sequence is decoded to this character. -/
def replacement : JavaChar := 0xFFFD

/-- A sequence that has begun owes continuation bytes, the next one of them in a range. -/
structure Pending where
  owed : Nat
  low : Nat
  high : Nat
  value : Nat
  deriving DecidableEq, Repr

/-- A code point is one code unit or two; the code points of surrogates are malformed. -/
def codeUnits (codePoint : Nat) : JavaString :=
  if codePoint < 0x10000 then
    if 0xD800 ≤ codePoint ∧ codePoint < 0xE000 then [replacement] else [UInt16.ofNat codePoint]
  else
    [UInt16.ofNat (0xD800 + (codePoint - 0x10000) / 0x400),
      UInt16.ofNat (0xDC00 + (codePoint - 0x10000) % 0x400)]

/-- A byte that begins a sequence is a character of its own, owes continuations or is malformed. -/
def decodeLead (byte : UInt8) : JavaString × Option Pending :=
  let lead := byte.toNat
  if lead < 0x80 then ([UInt16.ofNat lead], none)
  else if 0xC2 ≤ lead ∧ lead < 0xE0 then ([], some ⟨1, 0x80, 0xBF, lead - 0xC0⟩)
  else if 0xE0 ≤ lead ∧ lead < 0xF0 then
    ([], some ⟨2, if lead = 0xE0 then 0xA0 else 0x80, 0xBF, lead - 0xE0⟩)
  else if 0xF0 ≤ lead ∧ lead < 0xF5 then
    ([], some ⟨3, if lead = 0xF0 then 0x90 else 0x80, if lead = 0xF4 then 0x8F else 0xBF,
      lead - 0xF0⟩)
  else ([replacement], none)

/-- A byte that cannot continue a sequence ends it as malformed and begins the next one. -/
def decodeByte (pending : Option Pending) (byte : UInt8) : JavaString × Option Pending :=
  match pending with
  | none => decodeLead byte
  | some sequence =>
      if sequence.low ≤ byte.toNat ∧ byte.toNat ≤ sequence.high then
        let value := sequence.value * 0x40 + (byte.toNat - 0x80)
        if sequence.owed ≤ 1 then (codeUnits value, none)
        else ([], some ⟨sequence.owed - 1, 0x80, 0xBF, value⟩)
      else (replacement :: (decodeLead byte).1, (decodeLead byte).2)

/-- A sequence that is not complete at the end is malformed. -/
def decodeFrom (pending : Option Pending) : List UInt8 → JavaString
  | [] => if pending.isSome then [replacement] else []
  | byte :: rest =>
      (decodeByte pending byte).1 ++ decodeFrom (decodeByte pending byte).2 rest

/-- This is `new String(bytes)` for the charset UTF-8. -/
def decodeUtf8 (bytes : List UInt8) : JavaString := decodeFrom none bytes

def isHighSurrogate (unit : JavaChar) : Bool := 0xD800 ≤ unit && unit < 0xDC00

def isLowSurrogate (unit : JavaChar) : Bool := 0xDC00 ≤ unit && unit < 0xE000

/-- A high surrogate and a low one behind it are one character, and every other code unit is one. -/
def characters : JavaString → List JavaString
  | [] => []
  | [unit] => [[unit]]
  | first :: second :: rest =>
      if isHighSurrogate first ∧ isLowSurrogate second then [first, second] :: characters rest
      else [first] :: characters (second :: rest)

/-- A writer encodes the characters that its charset has, and a question mark for every other
one. -/
structure Charset where
  encodes : JavaString → Bool
  encode : JavaString → List UInt8
  decode : List UInt8 → JavaString
  ascii : ∀ unit : JavaChar, unit < 0x80 → encodes [unit] = true
  decode_encode : ∀ text, decode (encode text) =
    (characters text).flatMap fun character => if encodes character then character else [0x3F]

/-- A surrogate alone is no character of UTF-8. -/
def encodesUtf8 : JavaString → Bool
  | [unit] => !(isHighSurrogate unit || isLowSurrogate unit)
  | _ => true

/-- The bytes of a code point. -/
def bytesUtf8 (codePoint : Nat) : List UInt8 :=
  if codePoint < 0x80 then [UInt8.ofNat codePoint]
  else if codePoint < 0x800 then
    [UInt8.ofNat (0xC0 + codePoint / 0x40), UInt8.ofNat (0x80 + codePoint % 0x40)]
  else if codePoint < 0x10000 then
    [UInt8.ofNat (0xE0 + codePoint / 0x1000), UInt8.ofNat (0x80 + codePoint / 0x40 % 0x40),
      UInt8.ofNat (0x80 + codePoint % 0x40)]
  else
    [UInt8.ofNat (0xF0 + codePoint / 0x40000), UInt8.ofNat (0x80 + codePoint / 0x1000 % 0x40),
      UInt8.ofNat (0x80 + codePoint / 0x40 % 0x40), UInt8.ofNat (0x80 + codePoint % 0x40)]

def codePointOf : JavaString → Nat
  | [unit] => unit.toNat
  | [high, low] => 0x10000 + (high.toNat - 0xD800) * 0x400 + (low.toNat - 0xDC00)
  | _ => 0

/-- This is what a writer for the charset UTF-8 gives to its stream. -/
def encodeUtf8 (text : JavaString) : List UInt8 :=
  (characters text).flatMap fun character =>
    bytesUtf8 (if encodesUtf8 character then codePointOf character else 0x3F)

end Projs.Java

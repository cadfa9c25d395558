/-
This file embeds `quote.c`: a string is quoted for the preprocessor, and a quoted string is turned
back in its own memory.
-/

import Mathlib.Algebra.Group.Nat.Defs

namespace Projs.Asm

def SQUOTE : UInt8 := 39

def DQUOTE : UInt8 := 34

def BQUOTE : UInt8 := 96

def BACKSLASH : UInt8 := 92

/-- The control characters with a letter of their own. -/
def escapes : List (UInt8 × UInt8) :=
  [(7, 'a'.toUInt8), (8, 'b'.toUInt8), (9, 't'.toUInt8), (10, 'n'.toUInt8), (11, 'v'.toUInt8),
    (12, 'f'.toUInt8), (13, 'r'.toUInt8), (27, 'e'.toUInt8)]

def escapeLetter (c : UInt8) : Option UInt8 :=
  (escapes.find? fun escape => escape.1 = c).map Prod.snd

def escapeValue (letter : UInt8) : Option UInt8 :=
  (escapes.find? fun escape => escape.2 = letter).map Prod.fst

def isOctal (c : UInt8) : Bool := '0'.toUInt8 ≤ c ∧ c ≤ '7'.toUInt8

def isHex (c : UInt8) : Bool :=
  ('0'.toUInt8 ≤ c ∧ c ≤ '9'.toUInt8) ∨ ('A'.toUInt8 ≤ c ∧ c ≤ 'F'.toUInt8) ∨
    ('a'.toUInt8 ≤ c ∧ c ≤ 'f'.toUInt8)

def numvalue (c : UInt8) : Nat :=
  if 'a'.toUInt8 ≤ c then c.toNat - 97 + 10
  else if 'A'.toUInt8 ≤ c then c.toNat - 65 + 10
  else c.toNat - 48

def isPlain (c : UInt8) : Bool := ' '.toUInt8 ≤ c ∧ c ≤ '~'.toUInt8

/-- The number that decides how many octal digits are written. -/
def octalWidth (c : UInt8) (following : Option UInt8) : UInt8 :=
  if isOctal (following.getD 0) then 255 else c

/-- The first pass counts what one character takes between backquotes. -/
def quotedSize (c : UInt8) (following : Option UInt8) : Nat :=
  if c = SQUOTE ∨ c = DQUOTE then 1
  else if c = BQUOTE ∨ c = BACKSLASH then 2
  else if isPlain c then 1
  else if (escapeLetter c).isSome then 2
  else
    (if octalWidth c following > 63 then 1 else 0) +
      (if octalWidth c following > 7 then 1 else 0) + 2

/-- The first pass finds out what kinds of quotes can be used. -/
structure QuotePlan where
  sqOk : Bool
  dqOk : Bool
  qlen : Nat

def planFrom : QuotePlan → List UInt8 → QuotePlan
  | plan, [] => plan
  | plan, c :: rest =>
      planFrom
        { sqOk := plan.sqOk && c != SQUOTE && isPlain c
          dqOk := plan.dqOk && c != DQUOTE && isPlain c
          qlen := plan.qlen + quotedSize c rest.head? } rest

/-- The second pass writes one character between backquotes. -/
def quotedChar (c : UInt8) (following : Option UInt8) : List UInt8 :=
  if c = BQUOTE ∨ c = BACKSLASH then [BACKSLASH, c]
  else
    match escapeLetter c with
    | some letter => [BACKSLASH, letter]
    | none =>
        if isPlain c then [c]
        else
          [BACKSLASH] ++
            (if octalWidth c following > 63 then [(c >>> 6) + '0'.toUInt8] else []) ++
            (if octalWidth c following > 7 then [((c >>> 3) &&& 7) + '0'.toUInt8] else []) ++
            [(c &&& 7) + '0'.toUInt8]

def quotedFrom : List UInt8 → List UInt8
  | [] => []
  | c :: rest => quotedChar c rest.head? ++ quotedFrom rest

/-- What can go wrong: an assertion, memory outside of the string, and a loop that does not end. -/
inductive QuoteFault where
  | assertion
  | outOfBounds
  | endless
  deriving DecidableEq, Repr

/-- The result is a C string, with its terminating null. -/
def nasmQuote (str : List UInt8) : Except QuoteFault (List UInt8) :=
  let plan := planFrom { sqOk := true, dqOk := true, qlen := 0 } str
  if plan.sqOk ∨ plan.dqOk then
    let quote := if plan.sqOk then SQUOTE else DQUOTE
    .ok ([quote] ++ str ++ [quote, 0])
  else
    let nstr := [BQUOTE] ++ quotedFrom str ++ [BQUOTE, 0]
    if nstr.length = plan.qlen + 3 then .ok nstr else .error .assertion

/-- The bytes of a code point; a negative one has none. -/
def emitUtf8 (v : Nat) : List UInt8 :=
  if 2 ^ 31 ≤ v then []
  else if v ≤ 0x7f then [UInt8.ofNat v]
  else if v ≤ 0x7ff then [UInt8.ofNat (0xc0 ||| v >>> 6), UInt8.ofNat (0x80 ||| v &&& 63)]
  else if v ≤ 0xffff then
    [UInt8.ofNat (0xe0 ||| v >>> 12), UInt8.ofNat (0x80 ||| v >>> 6 &&& 63),
      UInt8.ofNat (0x80 ||| v &&& 63)]
  else if v ≤ 0x1fffff then
    [UInt8.ofNat (0xf0 ||| v >>> 18), UInt8.ofNat (0x80 ||| v >>> 12 &&& 63),
      UInt8.ofNat (0x80 ||| v >>> 6 &&& 63), UInt8.ofNat (0x80 ||| v &&& 63)]
  else if v ≤ 0x3ffffff then
    [UInt8.ofNat (0xf8 ||| v >>> 24), UInt8.ofNat (0x80 ||| v >>> 18 &&& 63),
      UInt8.ofNat (0x80 ||| v >>> 12 &&& 63), UInt8.ofNat (0x80 ||| v >>> 6 &&& 63),
      UInt8.ofNat (0x80 ||| v &&& 63)]
  else
    [UInt8.ofNat (0xfc ||| v >>> 30), UInt8.ofNat (0x80 ||| v >>> 24 &&& 63),
      UInt8.ofNat (0x80 ||| v >>> 18 &&& 63), UInt8.ofNat (0x80 ||| v >>> 12 &&& 63),
      UInt8.ofNat (0x80 ||| v >>> 6 &&& 63), UInt8.ofNat (0x80 ||| v &&& 63)]

inductive UnqState where
  | start
  | backslash
  | hex
  | oct
  | ucs
  deriving DecidableEq, Repr

/-- The string is read at `p` and written at `q`, in the same memory. -/
structure Unquote where
  mem : List UInt8
  p : Nat
  q : Nat
  escp : Nat
  state : UnqState
  ndig : Nat
  nval : Nat

def put (u : Unquote) (c : UInt8) : Except QuoteFault Unquote :=
  if u.q < u.mem.length then .ok { u with mem := u.mem.set u.q c, q := u.q + 1 }
  else .error .outOfBounds

def putAll (u : Unquote) (bytes : List UInt8) : Except QuoteFault Unquote := bytes.foldlM put u

def byteAt (u : Unquote) (place : Nat) : Except QuoteFault UInt8 :=
  match u.mem[place]? with
  | some c => .ok c
  | none => .error .outOfBounds

def backslashStep (u : Unquote) (c : UInt8) : Except QuoteFault Unquote :=
  let u := { u with state := .start, escp := u.p, nval := 0 }
  match escapeValue c with
  | some value => put u value
  | none =>
      if c = 'u'.toUInt8 then .ok { u with state := .ucs, ndig := 4 }
      else if c = 'U'.toUInt8 then .ok { u with state := .ucs, ndig := 8 }
      else if c = 'x'.toUInt8 ∨ c = 'X'.toUInt8 then .ok { u with state := .hex, ndig := 2 }
      else if isOctal c then .ok { u with state := .oct, ndig := 2, nval := c.toNat - 48 }
      else put u c

/-- What an escape sequence stands for when it ends. -/
def putEscape (u : Unquote) : Except QuoteFault Unquote :=
  match u.state with
  | .start | .backslash => .ok u
  | .oct => put u (UInt8.ofNat u.nval)
  | .hex =>
      if u.escp < u.p then put u (UInt8.ofNat u.nval)
      else do put u (← byteAt u (u.escp - 1))
  | .ucs =>
      if u.escp < u.p then putAll u (emitUtf8 u.nval)
      else do put u (← byteAt u (u.escp - 1))

/-- A digit is added, and the last one ends the sequence; another character is processed again. -/
def digitStep (u : Unquote) (isDigit : Bool) (nval : Nat) : Except QuoteFault Unquote :=
  if isDigit then
    let u := { u with nval, ndig := u.ndig - 1 }
    if u.ndig = 0 then (putEscape u).map fun u => { u with state := .start } else .ok u
  else (putEscape { u with p := u.p - 1 }).map fun u => { u with state := .start }

/-- One character has been read, and the flag tells whether the string ends there. -/
def unquoteStep (u : Unquote) (c : UInt8) : Except QuoteFault (Unquote × Bool) :=
  match u.state with
  | .start =>
      if c = BACKSLASH then .ok ({ u with state := .backslash }, false)
      else if c = BQUOTE then .ok ({ u with p := u.p - 1 }, true)
      else (put u c).map fun u => (u, false)
  | .backslash => (backslashStep u c).map fun u => (u, false)
  | .oct =>
      (digitStep u (isOctal c) (u.nval <<< 3 + (c.toNat - 48))).map fun u => (u, false)
  | .hex => (digitStep u (isHex c) (u.nval <<< 4 + numvalue c)).map fun u => (u, false)
  | .ucs =>
      (digitStep u (isHex c) ((u.nval <<< 4 + numvalue c) % 2 ^ 32)).map fun u => (u, false)

def unquoteFrom : (steps : Nat) → Unquote → Except QuoteFault Unquote
  | 0, _ => .error .endless
  | steps + 1, u => do
      let c ← byteAt u u.p
      if c = 0 then putEscape u
      else
        let (u, ended) ← unquoteStep { u with p := u.p + 1 } c
        if ended then .ok u else unquoteFrom steps u

/-- Between plain quotes the characters are moved, and a null is written behind them. -/
def movePlain (bq : UInt8) : (steps : Nat) → Unquote → Except QuoteFault Unquote
  | 0, _ => .error .endless
  | steps + 1, u => do
      let c ← byteAt u u.p
      if c = 0 ∨ c = bq then (put u 0).map fun after => { after with q := u.q }
      else movePlain bq steps (← put { u with p := u.p + 1 } c)

/-- The end pointer is not set for an empty string. -/
structure Unquoted where
  mem : List UInt8
  length : Nat
  ep : Option Nat
  deriving DecidableEq, Repr

/-- The loops read each character at most twice. -/
def nasmUnquote (str : List UInt8) : Except QuoteFault Unquoted :=
  let steps := 2 * str.length + 1
  let u : Unquote :=
    { mem := str, p := 1, q := 0, escp := 0, state := .start, ndig := 0, nval := 0 }
  match str with
  | [] => .error .outOfBounds
  | bq :: _ =>
      if bq = 0 then .ok { mem := str, length := 0, ep := none }
      else if bq = SQUOTE ∨ bq = DQUOTE then
        (movePlain bq steps u).map fun u => { mem := u.mem, length := u.q, ep := some u.p }
      else if bq = BQUOTE then
        (unquoteFrom steps u).map fun u => { mem := u.mem, length := u.q, ep := some u.p }
      else
        match str.findIdx? fun c => c = 0 with
        | some last => .ok { mem := str, length := last, ep := some last }
        | none => .error .outOfBounds

/-- The end of a string between plain quotes, counted from its first character. -/
def skipPlain (bq : UInt8) : List UInt8 → Option Nat
  | [] => none
  | c :: rest => if c = 0 ∨ c = bq then some 0 else (skipPlain bq rest).map (· + 1)

/-- Behind a backslash one character is taken as it is. -/
def skipBackquoted : (backslash : Bool) → List UInt8 → Option Nat
  | _, [] => none
  | backslash, c :: rest =>
      if c = 0 then some 0
      else if backslash then (skipBackquoted false rest).map (· + 1)
      else if c = BACKSLASH then (skipBackquoted true rest).map (· + 1)
      else if c = BQUOTE then some 0
      else (skipBackquoted false rest).map (· + 1)

/-- The place where the string ends. -/
def nasmSkipString : List UInt8 → Option Nat
  | [] => none
  | bq :: rest =>
      if bq = SQUOTE ∨ bq = DQUOTE then (skipPlain bq rest).map (· + 1)
      else if bq = BQUOTE then (skipBackquoted false rest).map (· + 1)
      else some 0

end Projs.Asm

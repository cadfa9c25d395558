/-
This file embeds `raa.c`, a sparse array that grows by layers of pointers above its blocks.
-/

namespace Projs.Nasmlib

def RAA_BLKSHIFT : Nat := 15

def RAA_BLKSIZE : Nat := 1 <<< RAA_BLKSHIFT

def RAA_LAYERSHIFT : Nat := 15

def RAA_LAYERSIZE : Nat := 1 <<< RAA_LAYERSHIFT

/-- What the language leaves undefined, and the assertion on a position. -/
inductive RaaFault where
  | shiftTooFar
  | outOfBounds
  | assertion
  deriving DecidableEq, Repr

/-- A `real_raa` is a leaf without layers below it, and a branch otherwise; `null` is the pointer to
no `real_raa`. -/
inductive Layer (Value : Type) : Nat → Type where
  | null {layers : Nat} : Layer Value layers
  | leaf (data : Nat → Value) : Layer Value 0
  | branch {layers : Nat} (shift : Nat) (data : Nat → Layer Value layers) :
      Layer Value (layers + 1)

variable {Value : Type}

def Layer.shift {layers : Nat} : Layer Value layers → Nat
  | null => 0
  | leaf _ => 0
  | branch shift _ => shift

/-- The layers of the array are known only at run time. -/
structure RealRaa (Value : Type) where
  layers : Nat
  layer : Layer Value layers

def layerShift (layers : Nat) : Nat := if layers = 0 then RAA_BLKSHIFT else RAA_LAYERSHIFT

theorem layerShift_pos (layers : Nat) : 0 < layerShift layers := by
  rw [layerShift]
  split
  · decide
  · decide

/-- `UINT32_C(1) << amount`. -/
def shiftedOne (amount : Nat) : Except RaaFault Nat :=
  if amount < 32 then .ok (1 <<< amount) else .error .shiftTooFar

/-- A new layer is cleared. -/
def raaInitLayer [Zero Value] : (layers : Nat) → Layer Value layers
  | 0 => .leaf fun _ => 0
  | layers + 1 =>
      .branch ((RAA_BLKSHIFT - RAA_LAYERSHIFT) + (layers + 1) * RAA_LAYERSHIFT) fun _ => .null

def realRaaInit [Zero Value] : RealRaa Value := ⟨0, raaInitLayer 0⟩

/-- The loop goes down until it reaches a leaf or a null pointer. -/
def Layer.readFrom {layers : Nat} :
    Layer Value layers → (posn : Nat) → Except RaaFault (Option Value)
  | null, _ => .ok none
  | leaf data, posn =>
      if posn < RAA_BLKSIZE then .ok (some (data posn)) else .error .outOfBounds
  | branch shift data, posn => do
      let mask ← shiftedOne shift
      let l := posn >>> shift
      if l < RAA_LAYERSIZE then (data l).readFrom (posn &&& (mask - 1)) else .error .outOfBounds

def realRaaRead (r : RealRaa Value) (posn : Int32) : Except RaaFault (Option Value) := do
  let size ← shiftedOne (r.layer.shift + layerShift r.layers)
  if size ≤ posn.toUInt32.toNat then .ok none else r.layer.readFrom posn.toUInt32.toNat

def raaRead [Zero Value] (r : RealRaa Value) (pos : Int32) : Except RaaFault Value := do
  pure ((← realRaaRead r pos).getD 0)

/-- An array has its last cell written over. -/
def store {Cell : Type} (data : Nat → Cell) (place : Nat) (cell : Cell) : Nat → Cell :=
  fun other => if other = place then cell else data other

/-- Layers are added above until the position fits below. -/
def grow (posn : Nat) (r : RealRaa Value) : Except RaaFault (RealRaa Value) :=
  if r.layer.shift + layerShift r.layers < 32 then
    if 1 <<< (r.layer.shift + layerShift r.layers) ≤ posn then
      grow posn ⟨r.layers + 1,
        .branch (layerShift r.layers + r.layer.shift) (store (fun _ => .null) 0 r.layer)⟩
    else .ok r
  else .error .shiftTooFar
termination_by 32 - (r.layer.shift + layerShift r.layers)
decreasing_by
  have below := layerShift_pos (r.layers + 1)
  change 32 - (layerShift r.layers + r.layer.shift + layerShift (r.layers + 1)) < _
  omega

/-- A missing layer is added. -/
def Layer.orInit [Zero Value] : {layers : Nat} → Layer Value layers → Layer Value layers
  | layers, null => raaInitLayer layers
  | _, leaf data => leaf data
  | _, branch shift data => branch shift data

/-- The loop goes down to a leaf and adds the layers that it does not find. -/
def Layer.writeFrom [Zero Value] (value : Value) :
    (layers : Nat) → Layer Value layers → (posn : Nat) → Except RaaFault (Layer Value layers)
  | _, null, _ => .error .outOfBounds
  | 0, leaf data, posn =>
      if posn < RAA_BLKSIZE then .ok (leaf (store data posn value)) else .error .outOfBounds
  | layers + 1, branch shift data, posn => do
      let mask ← shiftedOne shift
      let l := posn >>> shift
      if l < RAA_LAYERSIZE then
        let s ← writeFrom value layers (data l).orInit (posn &&& (mask - 1))
        pure (branch shift (store data l s))
      else .error .outOfBounds

def realRaaWrite [Zero Value] (r : RealRaa Value) (posn : Int32) (value : Value) :
    Except RaaFault (RealRaa Value) := do
  if 0 ≤ posn then
    let grown ← grow posn.toUInt32.toNat r
    pure ⟨grown.layers, ← grown.layer.writeFrom value grown.layers posn.toUInt32.toNat⟩
  else .error .assertion

end Projs.Nasmlib

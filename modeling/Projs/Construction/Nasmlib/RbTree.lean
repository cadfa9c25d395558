/-
This file embeds `rbtree.c`, a left-leaning red-black tree with 64-bit keys.
-/

namespace Projs.Nasmlib

/-- A node is embedded in a larger structure, and `owner` is what `container_of` finds around it. -/
inductive Rbtree (Owner : Type) where
  | null
  | node (key : UInt64) (left right : Rbtree Owner) (red : Bool) (owner : Owner)
  deriving DecidableEq, Repr

namespace Rbtree

variable {Owner : Type}

def size : Rbtree Owner → Nat
  | null => 0
  | node _ left right _ _ => left.size + right.size + 1

/-- A field of a null pointer is an invalid read. -/
def key : Rbtree Owner → Option UInt64
  | null => none
  | node key _ _ _ _ => some key

def left : Rbtree Owner → Option (Rbtree Owner)
  | null => none
  | node _ left _ _ _ => some left

def right : Rbtree Owner → Option (Rbtree Owner)
  | null => none
  | node _ _ right _ _ => some right

def paint (red : Bool) : Rbtree Owner → Option (Rbtree Owner)
  | null => none
  | node key left right _ owner => some (node key left right red owner)

def isRed : Rbtree Owner → Bool
  | null => false
  | node _ _ _ red _ => red

def rotateLeft : Rbtree Owner → Option (Rbtree Owner)
  | node key left (node rightKey inner outer _ rightOwner) red owner =>
      some (node rightKey (node key left inner true owner) outer red rightOwner)
  | _ => none

def rotateRight : Rbtree Owner → Option (Rbtree Owner)
  | node key (node leftKey outer inner _ leftOwner) right red owner =>
      some (node leftKey outer (node key inner right true owner) red leftOwner)
  | _ => none

def colorFlip : Rbtree Owner → Option (Rbtree Owner)
  | null => none
  | node key left right red owner => do
      let left ← left.paint (!left.isRed)
      let right ← right.paint (!right.isRed)
      some (node key left right (!red) owner)

/-- A node with two red children passes its colour to them on the way down. -/
def splitFull (tree : Rbtree Owner) : Option (Rbtree Owner) := do
  if (← tree.left).isRed && (← tree.right).isRed then tree.colorFlip else some tree

/-- A red right child is turned to the left. -/
def leanLeft (tree : Rbtree Owner) : Option (Rbtree Owner) := do
  if (← tree.right).isRed then tree.rotateLeft else some tree

/-- Two red left children in a row are spread to both sides. -/
def spread (tree : Rbtree Owner) : Option (Rbtree Owner) := do
  let left ← tree.left
  if left.isRed then
    if (← left.left).isRed then tree.rotateRight else some tree
  else some tree

theorem size_paint {tree painted : Rbtree Owner} {red : Bool}
    (same : tree.paint red = some painted) : painted.size = tree.size := by
  cases tree with
  | null => cases same
  | node key left right old owner =>
      cases same
      rfl

theorem size_splitFull {tree split : Rbtree Owner} (same : tree.splitFull = some split) :
    split.size = tree.size := by
  cases tree with
  | null => cases same
  | node key left right red owner =>
      simp only [splitFull, Rbtree.left, Rbtree.right, Option.bind_eq_bind,
        Option.bind_some] at same
      split at same
      · simp only [colorFlip, Option.bind_eq_bind, Option.bind_eq_some_iff] at same
        obtain ⟨paintedLeft, leftSame, paintedRight, rightSame, whole⟩ := same
        cases whole
        simp only [size, size_paint leftSame, size_paint rightSame]
      · cases same
        rfl

end Rbtree

open Rbtree

/-- Only the new node's key decides the side, and equal keys go to the right. -/
def rbInsert {Owner : Type} (tree node : Rbtree Owner) : Option (Rbtree Owner) :=
  match tree with
  | .null => node.paint true
  | .node key left right red owner =>
      match _same : (Rbtree.node key left right red owner).splitFull with
      | some (.node key left right red owner) => do
          let grown ←
            if (← node.key) < key then
              (rbInsert left node).map fun left => Rbtree.node key left right red owner
            else
              (rbInsert right node).map fun right => Rbtree.node key left right red owner
          (← grown.leanLeft).spread
      | _ => none
termination_by tree.size
decreasing_by
  all_goals
    have whole := size_splitFull _same
    simp only [Rbtree.size] at whole ⊢
    omega

/-- The loop keeps the last node below the key as `best`. -/
def rbSearchFrom {Owner : Type} (best : Rbtree Owner) (key : UInt64) :
    Rbtree Owner → Rbtree Owner
  | .null => best
  | .node nodeKey left right red owner =>
      if nodeKey = key then .node nodeKey left right red owner
      else if key < nodeKey then rbSearchFrom best key left
      else rbSearchFrom (.node nodeKey left right red owner) key right

def rbSearch {Owner : Type} (tree : Rbtree Owner) (key : UInt64) : Rbtree Owner :=
  rbSearchFrom .null key tree

end Projs.Nasmlib

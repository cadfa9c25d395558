import Projs.Construction.Nasmlib.RbTree
import Projs.Library.KeyedOrder

namespace Projs.Nasmlib
open KeyedOrder

namespace Rbtree

variable {Owner : Type}

/-- The caller clears a new node before it sets the key. -/
def fresh (key : UInt64) (owner : Owner) : Rbtree Owner := node key null null false owner

/-- The nodes from the left to the right. -/
def entries : Rbtree Owner → List (UInt64 × Owner)
  | null => []
  | node key left right _ owner => left.entries ++ (key, owner) :: right.entries

/-- What a caller reads through the pointer. -/
def entry : Rbtree Owner → Option (UInt64 × Owner)
  | null => none
  | node key _ _ _ owner => some (key, owner)

/-- The order of the keys is the order of their values. -/
def entryKey (entry : UInt64 × Owner) : Nat := entry.1.toNat

theorem entries_paint {tree painted : Rbtree Owner} {red : Bool}
    (same : tree.paint red = some painted) : painted.entries = tree.entries := by
  cases tree with
  | null => cases same
  | node key left right old owner =>
      cases same
      rfl

/-- A node with two red children is split, and any other node stays as it is. -/
theorem splitFull_cases (key : UInt64) (left right : Rbtree Owner) (red : Bool) (owner : Owner) :
    ((left.isRed && right.isRed) = false ∧
      (node key left right red owner).splitFull = some (node key left right red owner)) ∨
    ∃ paintedLeft paintedRight, (left.isRed && right.isRed) = true ∧
      left.paint false = some paintedLeft ∧ right.paint false = some paintedRight ∧
      (node key left right red owner).splitFull =
        some (node key paintedLeft paintedRight (!red) owner) := by
  cases full : left.isRed && right.isRed with
  | false =>
      refine Or.inl ⟨rfl, ?_⟩
      change (if (left.isRed && right.isRed) = true then _ else _) = _
      rw [full]
      rfl
  | true =>
      obtain ⟨leftRed, rightRed⟩ := Bool.and_eq_true_iff.mp full
      cases left with
      | null => cases leftRed
      | node leftKey leftLeft leftRight leftColor leftOwner =>
          cases right with
          | null => cases rightRed
          | node rightKey rightLeft rightRight rightColor rightOwner =>
              cases leftRed
              cases rightRed
              exact Or.inr ⟨_, _, rfl, rfl, rfl, rfl⟩

theorem entries_splitFull {tree split : Rbtree Owner} (same : tree.splitFull = some split) :
    split.entries = tree.entries := by
  cases tree with
  | null => cases same
  | node key left right red owner =>
      obtain ⟨-, whole⟩ | ⟨paintedLeft, paintedRight, -, leftSame, rightSame, whole⟩ :=
        splitFull_cases key left right red owner
      · rw [whole] at same
        cases same
        rfl
      · rw [whole] at same
        cases same
        rw [entries, entries_paint leftSame, entries_paint rightSame]
        rfl

theorem entries_rotateLeft {tree turned : Rbtree Owner} (same : tree.rotateLeft = some turned) :
    turned.entries = tree.entries := by
  cases tree with
  | null => cases same
  | node key left right red owner =>
      cases right with
      | null => cases same
      | node rightKey inner outer rightRed rightOwner =>
          cases same
          simp [entries]

theorem entries_rotateRight {tree turned : Rbtree Owner} (same : tree.rotateRight = some turned) :
    turned.entries = tree.entries := by
  cases tree with
  | null => cases same
  | node key left right red owner =>
      cases left with
      | null => cases same
      | node leftKey outer inner leftRed leftOwner =>
          cases same
          simp [entries]

/-- A node with a black right child stays as it is. -/
theorem leanLeft_of_black {key : UInt64} {left right : Rbtree Owner} {red : Bool} {owner : Owner}
    (black : right.isRed = false) :
    (node key left right red owner).leanLeft = some (node key left right red owner) := by
  change (if right.isRed = true then _ else _) = _
  rw [black]
  rfl

/-- A node without two red left children in a row stays as it is. -/
theorem spread_of_black {key : UInt64} {left right : Rbtree Owner} {red : Bool} {owner : Owner}
    (black : ∀ leftKey outer inner leftOwner, left = node leftKey outer inner true leftOwner →
      outer.isRed = false) :
    (node key left right red owner).spread = some (node key left right red owner) := by
  cases left with
  | null => rfl
  | node leftKey outer inner leftRed leftOwner =>
      cases leftRed with
      | false => rfl
      | true =>
          change (if outer.isRed = true then _ else _) = _
          rw [black _ _ _ _ rfl]
          rfl

theorem spread_of_red {key leftKey : UInt64} {outer inner right : Rbtree Owner} {red : Bool}
    {owner leftOwner : Owner} (outerRed : outer.isRed = true) :
    (node key (node leftKey outer inner true leftOwner) right red owner).spread =
      some (node leftKey outer (node key inner right true owner) red leftOwner) := by
  change (if outer.isRed = true then _ else _) = _
  rw [outerRed]
  rfl

/-- The first turn never reads through a null pointer, and it keeps the order of the nodes. -/
theorem leanLeft_entries (key : UInt64) (left right : Rbtree Owner) (red : Bool) (owner : Owner) :
    ∃ turnedKey turnedLeft turnedRight turnedRed turnedOwner,
      (node key left right red owner).leanLeft =
        some (node turnedKey turnedLeft turnedRight turnedRed turnedOwner) ∧
      (node turnedKey turnedLeft turnedRight turnedRed turnedOwner).entries =
        (node key left right red owner).entries := by
  cases right with
  | null => exact ⟨_, _, _, _, _, rfl, rfl⟩
  | node rightKey inner outer rightRed rightOwner =>
      cases rightRed with
      | false => exact ⟨_, _, _, _, _, rfl, rfl⟩
      | true => exact ⟨_, _, _, _, _, rfl, entries_rotateLeft rfl⟩

/-- Nor does the second turn. -/
theorem spread_entries (key : UInt64) (left right : Rbtree Owner) (red : Bool) (owner : Owner) :
    ∃ turned, (node key left right red owner).spread = some turned ∧
      turned.entries = (node key left right red owner).entries := by
  cases left with
  | null => exact ⟨_, rfl, rfl⟩
  | node leftKey outer inner leftRed leftOwner =>
      cases leftRed with
      | false => exact ⟨_, rfl, rfl⟩
      | true =>
          cases outerRed : outer.isRed with
          | false =>
              refine ⟨_, spread_of_black ?_, rfl⟩
              rintro _ _ _ _ ⟨⟩
              exact outerRed
          | true => exact ⟨_, spread_of_red outerRed, entries_rotateRight rfl⟩

/-- Both turns after an insertion into a child. -/
def settle (tree : Rbtree Owner) : Option (Rbtree Owner) := tree.leanLeft.bind spread

theorem settle_entries (key : UInt64) (left right : Rbtree Owner) (red : Bool) (owner : Owner) :
    ∃ settled, (node key left right red owner).settle = some settled ∧
      settled.entries = (node key left right red owner).entries := by
  obtain ⟨_, _, _, _, _, first, same⟩ := leanLeft_entries key left right red owner
  obtain ⟨settled, second, kept⟩ := spread_entries _ _ _ _ _
  exact ⟨settled, by rw [settle, first]; exact second, kept.trans same⟩

end Rbtree

open Rbtree

variable {Owner : Type}

/-- Below a node that is not full, the insertion continues on the side of the new key. -/
theorem rbInsert_node {key nodeKey splitKey : UInt64} {owner nodeOwner splitOwner : Owner}
    {left right splitLeft splitRight : Rbtree Owner} {red splitRed : Bool}
    (split : (node nodeKey left right red nodeOwner).splitFull =
      some (node splitKey splitLeft splitRight splitRed splitOwner)) :
    rbInsert (node nodeKey left right red nodeOwner) (fresh key owner) =
      if key < splitKey then
        (rbInsert splitLeft (fresh key owner)).bind fun grown =>
          (node splitKey grown splitRight splitRed splitOwner).settle
      else
        (rbInsert splitRight (fresh key owner)).bind fun grown =>
          (node splitKey splitLeft grown splitRed splitOwner).settle := by
  rw [rbInsert]
  split
  · next same =>
      rw [split] at same
      cases same
      change (if key < splitKey then _ else _) = _
      split
      · cases rbInsert splitLeft (fresh key owner) <;> rfl
      · cases rbInsert splitRight (fresh key owner) <;> rfl
  · next other => exact absurd split (other _ _ _ _ _)

/-- An insertion never reads through a null pointer, and it puts the node behind the last node that
is not above it. -/
theorem rbInsert_entries (key : UInt64) (owner : Owner) (tree : Rbtree Owner)
    (ascending : Ascending entryKey tree.entries) :
    ∃ grown, rbInsert tree (fresh key owner) = some grown ∧
      grown.entries = insertBehind entryKey (key, owner) tree.entries := by
  induction tree using rbInsert.induct with
  | case1 => exact ⟨node key null null true owner, by rw [rbInsert]; rfl, rfl⟩
  | case2 nodeKey left right red nodeOwner splitKey splitLeft splitRight splitRed splitOwner split
      inLeft inRight =>
      rw [rbInsert_node split]
      rw [← entries_splitFull split, entries] at ascending ⊢
      obtain ⟨front, back, between⟩ := List.pairwise_append.mp ascending
      split
      · next below =>
          obtain ⟨grown, found, same⟩ := inLeft front
          obtain ⟨settled, turned, whole⟩ :=
            settle_entries splitKey grown splitRight splitRed splitOwner
          refine ⟨settled, by rw [found]; exact turned, ?_⟩
          have before : entryKey (key, owner) < entryKey (splitKey, splitOwner) :=
            UInt64.lt_iff_toNat_lt.mp below
          rw [whole, entries, same, insertBehind_of_lt before]
      · next above =>
          have upTo : splitKey.toNat ≤ key.toNat := by
            rw [UInt64.lt_iff_toNat_lt] at above
            omega
          obtain ⟨grown, found, same⟩ := inRight (List.pairwise_cons.mp back).2
          obtain ⟨settled, turned, whole⟩ :=
            settle_entries splitKey splitLeft grown splitRed splitOwner
          refine ⟨settled, by rw [found]; exact turned, ?_⟩
          have far : ∀ first ∈ splitLeft.entries ++ [(splitKey, splitOwner)],
              entryKey first ≤ entryKey (key, owner) := by
            intro first member
            obtain member | member := List.mem_append.mp member
            · exact (between first member _ (List.mem_cons_self ..)).trans upTo
            · rw [List.mem_singleton.mp member]
              exact upTo
          rw [whole, entries, same, List.append_cons, ← insertBehind_of_le far, ← List.append_cons]
  | case3 nodeKey left right red nodeOwner none =>
      obtain ⟨-, whole⟩ | ⟨paintedLeft, paintedRight, -, -, -, whole⟩ :=
        splitFull_cases nodeKey left right red nodeOwner
      · exact (none _ _ _ _ _ whole).elim
      · exact (none _ _ _ _ _ whole).elim

/-- The search finds the nearest node up to the key. -/
theorem rbSearchFrom_isFloor (key : UInt64) (best tree : Rbtree Owner)
    (ascending : Ascending entryKey tree.entries) :
    ∃ found, IsFloor entryKey key.toNat tree.entries found ∧
      (rbSearchFrom best key tree).entry = found.or best.entry := by
  induction tree generalizing best with
  | null => exact ⟨none, fun entry member => absurd member List.not_mem_nil, rfl⟩
  | node nodeKey left right red owner inLeft inRight =>
      obtain ⟨front, back, -⟩ := List.pairwise_append.mp ascending
      rw [rbSearchFrom]
      split
      · next same =>
          refine ⟨some (nodeKey, owner), isFloor_of_eq ?_ (congrArg UInt64.toNat same), rfl⟩
          simp [entries]
      · split
        · next above =>
            obtain ⟨found, floor, same⟩ := inLeft best front
            exact ⟨found, floor.of_front ascending (UInt64.lt_iff_toNat_lt.mp above), same⟩
        · next above =>
            have below : nodeKey.toNat ≤ key.toNat := by
              rw [UInt64.lt_iff_toNat_lt] at above
              omega
            obtain ⟨found, floor, same⟩ :=
              inRight (node nodeKey left right red owner) (List.pairwise_cons.mp back).2
            refine ⟨_, floor.of_back ascending below, same.trans ?_⟩
            cases found <;> rfl

/-- Nodes are inserted one after another, starting from a null pointer. -/
def rbInsertAll (inserted : List (UInt64 × Owner)) : Option (Rbtree Owner) :=
  inserted.foldlM (fun tree entry => rbInsert tree (fresh entry.1 entry.2)) null

/-- The tree holds the inserted nodes in ascending order. -/
def Holds (inserted : List (UInt64 × Owner)) (tree : Rbtree Owner) : Prop :=
  Ascending entryKey tree.entries ∧ tree.entries.Perm inserted

theorem Holds.insert {inserted : List (UInt64 × Owner)} {tree : Rbtree Owner}
    (holds : Holds inserted tree) (entry : UInt64 × Owner) :
    ∃ grown, rbInsert tree (fresh entry.1 entry.2) = some grown ∧
      Holds (inserted ++ [entry]) grown := by
  obtain ⟨ascending, same⟩ := holds
  obtain ⟨grown, found, order⟩ := rbInsert_entries entry.1 entry.2 tree ascending
  refine ⟨grown, found, ?_, ?_⟩
  · rw [order]
    exact ascending.insertBehind
  · rw [order]
    exact insertBehind_perm.trans ((same.cons _).trans (List.perm_append_singleton ..).symm)

end Projs.Nasmlib

import Mathlib.Algebra.Group.Nat.Defs
import Mathlib.Data.List.Induction
import Projs.Proof.Nasmlib.SearchTree

namespace Projs.Nasmlib
open Rbtree KeyedOrder

namespace Rbtree

variable {Owner : Type}

/-- The nodes that a search passes at most. -/
def height : Rbtree Owner → Nat
  | null => 0
  | node _ left right _ _ => max left.height right.height + 1

/-- Every path passes as many black nodes, a red node has black children, and a red right child has
a red sibling. -/
def Balanced : Rbtree Owner → Nat → Prop
  | null, blacks => blacks = 0
  | node _ left right true _, blacks =>
      left.Balanced blacks ∧ right.Balanced blacks ∧ left.isRed = false ∧ right.isRed = false
  | node _ left right false _, blacks => ∃ below, blacks = below + 1 ∧
      left.Balanced below ∧ right.Balanced below ∧ (right.isRed = true → left.isRed = true)

/-- Nothing looks at the colour of the root, so a red root may have red children. -/
def Rooted : Rbtree Owner → Nat → Prop
  | null, blacks => blacks = 0
  | node _ left right _ _, blacks =>
      left.Balanced blacks ∧ right.Balanced blacks ∧ (right.isRed = true → left.isRed = true)

theorem Balanced.size_le {tree : Rbtree Owner} {blacks : Nat} (balanced : tree.Balanced blacks) :
    2 ^ blacks ≤ tree.size + 1 := by
  induction tree generalizing blacks with
  | null =>
      cases balanced
      rfl
  | node key left right red owner inLeft inRight =>
      cases red with
      | true =>
          have small := inLeft balanced.1
          rw [size]
          omega
      | false =>
          obtain ⟨below, rfl, leftBalanced, rightBalanced, -⟩ := balanced
          have first := inLeft leftBalanced
          have second := inRight rightBalanced
          rw [size, Nat.pow_succ]
          omega

theorem Balanced.height_le {tree : Rbtree Owner} {blacks : Nat} (balanced : tree.Balanced blacks) :
    tree.height ≤ 2 * blacks + tree.isRed.toNat := by
  induction tree generalizing blacks with
  | null => exact Nat.zero_le _
  | node key left right red owner inLeft inRight =>
      cases red with
      | true =>
          obtain ⟨leftBalanced, rightBalanced, leftBlack, rightBlack⟩ := balanced
          have first := inLeft leftBalanced
          have second := inRight rightBalanced
          rw [leftBlack] at first
          rw [rightBlack] at second
          rw [height, isRed]
          simp only [Bool.toNat_false, Bool.toNat_true] at first second ⊢
          omega
      | false =>
          obtain ⟨below, rfl, leftBalanced, rightBalanced, -⟩ := balanced
          have first := inLeft leftBalanced
          have second := inRight rightBalanced
          have leftColor := Bool.toNat_le left.isRed
          have rightColor := Bool.toNat_le right.isRed
          rw [height]
          omega

/-- A search in a rooted tree passes few nodes. -/
theorem Rooted.height_le {tree : Rbtree Owner} {blacks : Nat} (rooted : tree.Rooted blacks) :
    tree.height ≤ 2 * Nat.log2 (tree.size + 1) := by
  cases tree with
  | null => exact Nat.zero_le _
  | node key left right red owner =>
      obtain ⟨leftBalanced, rightBalanced, -⟩ := rooted
      have first := leftBalanced.height_le
      have second := rightBalanced.height_le
      have leftColor := Bool.toNat_le left.isRed
      have rightColor := Bool.toNat_le right.isRed
      have many : 2 ^ (blacks + 1) ≤ (node key left right red owner).size + 1 := by
        have leftMany := leftBalanced.size_le
        have rightMany := rightBalanced.size_le
        rw [size, Nat.pow_succ]
        omega
      have depth := (Nat.le_log2 (by omega)).mpr many
      rw [height]
      omega

/-- A full place turns red when a node is inserted there. -/
def full : Rbtree Owner → Bool
  | null => true
  | node _ left right _ _ => left.isRed && right.isRed

/-- A split child is black and has room. -/
theorem Balanced.paint {tree painted : Rbtree Owner} {blacks : Nat}
    (balanced : tree.Balanced blacks) (red : tree.isRed = true)
    (same : tree.paint false = some painted) :
    painted.Balanced (blacks + 1) ∧ painted.isRed = false ∧ painted.full = false := by
  cases tree with
  | null => cases red
  | node key left right color owner =>
      cases red
      cases same
      obtain ⟨leftBalanced, rightBalanced, leftBlack, rightBlack⟩ := balanced
      refine ⟨⟨blacks, rfl, leftBalanced, rightBalanced, fun red => ?_⟩, rfl, ?_⟩
      · rw [rightBlack] at red
        cases red
      · rw [full, leftBlack, Bool.false_and]

/-- What an insertion makes of a child of a given height. -/
def Grown (child grown : Rbtree Owner) (blacks : Nat) : Prop :=
  match child.isRed with
  | false => grown.Balanced blacks ∧ (grown.isRed = true → child.full = true)
  | true => ∃ key left right owner, grown = node key left right true owner ∧
      left.Balanced blacks ∧ right.Balanced blacks ∧ right.isRed = false

/-- What the turns make of a node with the children `left` and `right` before the insertion. -/
def Settled (left right settled : Rbtree Owner) (red : Bool) (blacks : Nat) : Prop :=
  ∃ key outer inner owner, settled = node key outer inner red owner ∧
    outer.Balanced blacks ∧ inner.Balanced blacks ∧
    (inner.isRed = true → outer.isRed = true) ∧ (left.isRed = false → inner.isRed = false) ∧
    (outer.isRed = true → left.isRed = true ∨ left.full = true ∨ right.full = true)

theorem settle_left {key : UInt64} {left grown right settled : Rbtree Owner} {red : Bool}
    {owner : Owner} {blacks : Nat} (change : Grown left grown blacks)
    (rightBalanced : right.Balanced blacks) (rightBlack : right.isRed = false)
    (same : (node key grown right red owner).settle = some settled) :
    Settled left right settled red blacks := by
  rw [settle, leanLeft_of_black rightBlack, Option.bind_some] at same
  cases leftRed : left.isRed with
  | false =>
      rw [Grown, leftRed] at change
      obtain ⟨balanced, turned⟩ := change
      have calm : (node key grown right red owner).spread =
          some (node key grown right red owner) := by
        apply spread_of_black
        rintro _ _ _ _ rfl
        exact balanced.2.2.1
      rw [calm] at same
      cases same
      refine ⟨key, grown, right, owner, rfl, balanced, rightBalanced, ?_, fun _ => rightBlack,
        fun color => Or.inr (Or.inl (turned color))⟩
      rw [rightBlack]
      exact fun wrong => by cases wrong
  | true =>
      rw [Grown, leftRed] at change
      obtain ⟨leftKey, outer, inner, leftOwner, rfl, outerBalanced, innerBalanced, innerBlack⟩ :=
        change
      cases outerRed : outer.isRed with
      | false =>
          have calm : (node key (node leftKey outer inner true leftOwner) right red owner).spread =
              some (node key (node leftKey outer inner true leftOwner) right red owner) := by
            apply spread_of_black
            rintro _ _ _ _ ⟨⟩
            exact outerRed
          rw [calm] at same
          cases same
          refine ⟨key, _, right, owner, rfl, ⟨outerBalanced, innerBalanced, outerRed, innerBlack⟩,
            rightBalanced, fun _ => rfl, fun _ => rightBlack, fun _ => Or.inl leftRed⟩
      | true =>
          rw [spread_of_red outerRed] at same
          cases same
          refine ⟨leftKey, outer, _, leftOwner, rfl, outerBalanced,
            ⟨innerBalanced, rightBalanced, innerBlack, rightBlack⟩, fun _ => outerRed, ?_,
            fun _ => Or.inl leftRed⟩
          rw [leftRed]
          exact fun wrong => by cases wrong

theorem settle_right {key : UInt64} {left right grown settled : Rbtree Owner} {red : Bool}
    {owner : Owner} {blacks : Nat} (leftBalanced : left.Balanced blacks)
    (rightBlack : right.isRed = false) (change : Grown right grown blacks)
    (same : (node key left grown red owner).settle = some settled) :
    Settled left right settled red blacks := by
  rw [Grown, rightBlack] at change
  obtain ⟨balanced, turned⟩ := change
  have calm : ∀ (other : Rbtree Owner),
      (node key left other red owner).spread = some (node key left other red owner) := by
    intro other
    apply spread_of_black
    rintro _ _ _ _ rfl
    exact leftBalanced.2.2.1
  cases grownRed : grown.isRed with
  | false =>
      rw [settle, leanLeft_of_black grownRed, Option.bind_some, calm] at same
      cases same
      refine ⟨key, left, grown, owner, rfl, leftBalanced, balanced, ?_, fun _ => grownRed, Or.inl⟩
      rw [grownRed]
      exact fun wrong => by cases wrong
  | true =>
      cases grown with
      | null => cases grownRed
      | node rightKey inner outer color rightOwner =>
          cases grownRed
          obtain ⟨innerBalanced, outerBalanced, innerBlack, outerBlack⟩ := id balanced
          cases leftRed : left.isRed with
          | true =>
              -- The first turn is undone by the second, so both children stay red.
              have turn :
                  (node key left (node rightKey inner outer true rightOwner) red owner).settle =
                  (node rightKey (node key left inner true owner) outer red rightOwner).spread :=
                rfl
              rw [turn, spread_of_red leftRed] at same
              cases same
              refine ⟨key, left, _, owner, rfl, leftBalanced, balanced, fun _ => leftRed, ?_,
                fun _ => Or.inl leftRed⟩
              rw [leftRed]
              exact fun wrong => by cases wrong
          | false =>
              have turn :
                  (node key left (node rightKey inner outer true rightOwner) red owner).settle =
                  some (node rightKey (node key left inner true owner) outer red rightOwner) := by
                change (node rightKey (node key left inner true owner) outer red
                  rightOwner).spread = _
                apply spread_of_black
                rintro _ _ _ _ ⟨⟩
                exact leftRed
              rw [turn] at same
              cases same
              refine ⟨rightKey, _, outer, rightOwner, rfl,
                ⟨leftBalanced, innerBalanced, leftRed, innerBlack⟩, outerBalanced, fun _ => rfl,
                fun _ => outerBlack, fun _ => Or.inr (Or.inr (turned rfl))⟩

/-- A node keeps its height through an insertion into one of two children that are not both red. -/
theorem rbInsert_settled {key nodeKey : UInt64} {owner nodeOwner : Owner}
    {left right grown : Rbtree Owner} {red : Bool} {blacks : Nat}
    (room : (left.isRed && right.isRed) = false) (leans : right.isRed = true → left.isRed = true)
    (leftBalanced : left.Balanced blacks) (rightBalanced : right.Balanced blacks)
    (inLeft : ∀ grown, rbInsert left (fresh key owner) = some grown → Grown left grown blacks)
    (inRight : ∀ grown, rbInsert right (fresh key owner) = some grown → Grown right grown blacks)
    (same : (if key < nodeKey then
        (rbInsert left (fresh key owner)).bind fun grown =>
          (node nodeKey grown right red nodeOwner).settle
      else
        (rbInsert right (fresh key owner)).bind fun grown =>
          (node nodeKey left grown red nodeOwner).settle) = some grown) :
    Settled left right grown red blacks := by
  have rightBlack : right.isRed = false := by
    cases rightRed : right.isRed with
    | false => rfl
    | true =>
        rw [leans rightRed, rightRed] at room
        cases room
  split at same
  · obtain ⟨child, found, settled⟩ := Option.bind_eq_some_iff.mp same
    exact settle_left (inLeft child found) rightBalanced rightBlack settled
  · obtain ⟨child, found, settled⟩ := Option.bind_eq_some_iff.mp same
    exact settle_right leftBalanced rightBlack (inRight child found) settled

/-- A node with room keeps its colour and its height. -/
theorem Grown.of_settled {key : UInt64} {left right grown : Rbtree Owner} {red : Bool}
    {owner : Owner} {blacks : Nat} (settled : ∀ below, left.Balanced below → right.Balanced below →
      (right.isRed = true → left.isRed = true) → Settled left right grown red below)
    (balanced : (node key left right red owner).Balanced blacks) :
    Grown (node key left right red owner) grown blacks := by
  cases red with
  | true =>
      obtain ⟨leftBalanced, rightBalanced, leftBlack, rightBlack⟩ := balanced
      obtain ⟨outerKey, outer, inner, outerOwner, rfl, outerBalanced, innerBalanced, -, calm, -⟩ :=
        settled blacks leftBalanced rightBalanced fun red => by rw [rightBlack] at red; cases red
      exact ⟨outerKey, outer, inner, outerOwner, rfl, outerBalanced, innerBalanced, calm leftBlack⟩
  | false =>
      obtain ⟨below, rfl, leftBalanced, rightBalanced, leans⟩ := balanced
      obtain ⟨_, outer, inner, _, rfl, outerBalanced, innerBalanced, still, -⟩ :=
        settled below leftBalanced rightBalanced leans
      exact ⟨⟨below, rfl, outerBalanced, innerBalanced, still⟩, fun red => by cases red⟩

end Rbtree

variable {Owner : Type}

/-- An insertion settles the children of the split node. -/
theorem rbInsert_grown (key : UInt64) (owner : Owner) (tree : Rbtree Owner) :
    ∀ (blacks : Nat) (grown : Rbtree Owner), rbInsert tree (fresh key owner) = some grown →
      (tree.Balanced blacks → Grown tree grown blacks) ∧
      (tree.Rooted blacks → ∃ more, grown.Rooted more) := by
  induction tree using rbInsert.induct with
  | case1 =>
      intro blacks grown same
      rw [rbInsert] at same
      cases same
      constructor
      · rintro rfl
        exact ⟨⟨rfl, rfl, rfl, rfl⟩, fun _ => rfl⟩
      · rintro rfl
        exact ⟨0, rfl, rfl, id⟩
  | case2 nodeKey left right red nodeOwner splitKey splitLeft splitRight splitRed splitOwner split
      inLeft inRight =>
      intro blacks grown same
      rw [rbInsert_node split] at same
      obtain ⟨room, whole⟩ | ⟨paintedLeft, paintedRight, crowded, leftSame, rightSame, whole⟩ :=
        splitFull_cases nodeKey left right red nodeOwner
      · rw [whole] at split
        cases split
        have settled (below : Nat) (leftBalanced : left.Balanced below)
            (rightBalanced : right.Balanced below)
            (leans : right.isRed = true → left.isRed = true) :=
          rbInsert_settled room leans leftBalanced rightBalanced
            (fun grown found => (inLeft below grown found).1 leftBalanced)
            (fun grown found => (inRight below grown found).1 rightBalanced) same
        constructor
        · exact Grown.of_settled settled
        · rintro ⟨leftBalanced, rightBalanced, leans⟩
          obtain ⟨_, _, _, _, rfl, outer, inner, still, -⟩ :=
            settled blacks leftBalanced rightBalanced leans
          exact ⟨blacks, outer, inner, still⟩
      · rw [whole] at split
        cases split
        obtain ⟨leftRed, rightRed⟩ := Bool.and_eq_true_iff.mp crowded
        have settled (below : Nat) (leftBalanced : left.Balanced below)
            (rightBalanced : right.Balanced below) :
            Settled splitLeft splitRight grown (!red) (below + 1) ∧
              splitLeft.isRed = false ∧ splitLeft.full = false ∧ splitRight.full = false := by
          obtain ⟨paintedBalanced, paintedBlack, paintedRoom⟩ := leftBalanced.paint leftRed leftSame
          obtain ⟨otherBalanced, otherBlack, otherRoom⟩ := rightBalanced.paint rightRed rightSame
          refine ⟨rbInsert_settled (by rw [paintedBlack, Bool.false_and])
            (fun red => absurd red (by rw [otherBlack]; exact Bool.false_ne_true))
            paintedBalanced otherBalanced
            (fun grown found => (inLeft (below + 1) grown found).1 paintedBalanced)
            (fun grown found => (inRight (below + 1) grown found).1 otherBalanced) same,
            paintedBlack, paintedRoom, otherRoom⟩
        constructor
        · intro balanced
          cases red with
          | true =>
              rw [balanced.2.2.1] at leftRed
              cases leftRed
          | false =>
              obtain ⟨below, rfl, leftBalanced, rightBalanced, -⟩ := balanced
              obtain ⟨⟨_, outer, inner, _, rfl, outerBalanced, innerBalanced, -, calm, turned⟩,
                black, leftRoom, rightRoom⟩ := settled below leftBalanced rightBalanced
              refine ⟨⟨outerBalanced, innerBalanced, ?_, calm black⟩, fun _ => crowded⟩
              by_contra outerRed
              rw [black, leftRoom, rightRoom] at turned
              simp [Bool.eq_true_of_not_eq_false outerRed] at turned
        · rintro ⟨leftBalanced, rightBalanced, leans⟩
          obtain ⟨⟨_, _, _, _, rfl, outer, inner, still, -⟩, -⟩ :=
            settled blacks leftBalanced rightBalanced
          exact ⟨blacks + 1, outer, inner, still⟩
  | case3 nodeKey left right red nodeOwner none =>
      obtain ⟨-, whole⟩ | ⟨paintedLeft, paintedRight, -, -, -, whole⟩ :=
        splitFull_cases nodeKey left right red nodeOwner
      · exact (none _ _ _ _ _ whole).elim
      · exact (none _ _ _ _ _ whole).elim

theorem Rbtree.length_entries (tree : Rbtree Owner) : tree.entries.length = tree.size := by
  induction tree with
  | null => rfl
  | node key left right red owner inLeft inRight =>
      rw [entries, List.length_append, List.length_cons, inLeft, inRight, size]
      rfl

/-- Whatever is inserted, the tree exists, holds it in order, and is balanced under its root. -/
theorem rbInsertAll_holds (inserted : List (UInt64 × Owner)) :
    ∃ tree, rbInsertAll inserted = some tree ∧ Holds inserted tree ∧
      ∃ blacks, tree.Rooted blacks := by
  induction inserted using List.reverseRecOn with
  | nil => exact ⟨null, rfl, ⟨List.Pairwise.nil, List.Perm.refl _⟩, 0, rfl⟩
  | append_singleton inserted entry inductionHypothesis =>
      obtain ⟨tree, built, holds, blacks, rooted⟩ := inductionHypothesis
      obtain ⟨grown, found, kept⟩ := holds.insert entry
      refine ⟨grown, ?_, kept, (rbInsert_grown entry.1 entry.2 tree blacks grown found).2 rooted⟩
      rw [rbInsertAll] at built ⊢
      rw [List.foldlM_append, built]
      change (rbInsert tree (fresh entry.1 entry.2)).bind some = some grown
      rw [found]
      rfl

/-- A search passes at most twice as many nodes as a search in a perfect tree. -/
theorem rbInsertAll_height (inserted : List (UInt64 × Owner)) :
    ∃ tree, rbInsertAll inserted = some tree ∧ tree.size = inserted.length ∧
      tree.height ≤ 2 * Nat.log2 (inserted.length + 1) := by
  obtain ⟨tree, built, ⟨-, same⟩, blacks, rooted⟩ := rbInsertAll_holds inserted
  have count : tree.size = inserted.length := by rw [← length_entries, same.length_eq]
  exact ⟨tree, built, count, count ▸ rooted.height_le⟩

/-- A search finds an inserted node with the greatest key up to the given one, or a null pointer
when every inserted key is above it. -/
theorem rbInsertAll_search (inserted : List (UInt64 × Owner)) :
    ∃ tree, rbInsertAll inserted = some tree ∧
      ∀ key, IsFloor entryKey key.toNat inserted (rbSearch tree key).entry := by
  obtain ⟨tree, built, ⟨ascending, same⟩, -⟩ := rbInsertAll_holds inserted
  refine ⟨tree, built, fun key => ?_⟩
  obtain ⟨found, floor, read⟩ := rbSearchFrom_isFloor key null tree ascending
  rw [rbSearch, read]
  simpa [entry] using floor.of_perm same

end Projs.Nasmlib

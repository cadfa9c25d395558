import Mathlib.Algebra.Group.Int.Defs
import Mathlib.Algebra.Group.Nat.Defs
import Mathlib.Data.List.Induction
import Mathlib.Tactic.Common
import Projs.Construction.Nasmlib.Raa
import Projs.Library.EventTrace
import Projs.Library.LabelledMachine

namespace Projs.Nasmlib
open EventTrace LabelledMachine

variable {Value : Type}

theorem layerShift_eq (layers : Nat) : layerShift layers = 15 := by
  rw [layerShift]
  split <;> rfl

theorem shiftedOne_of_lt {amount : Nat} (small : amount < 32) :
    shiftedOne amount = .ok (2 ^ amount) := by
  rw [shiftedOne, if_pos small, Nat.one_shiftLeft]

namespace Layer

/-- A branch is shifted by its depth. -/
def Fits : {layers : Nat} → Layer Value layers → Prop
  | _, null => True
  | _, leaf _ => True
  | layers + 1, branch shift data => shift = 15 * (layers + 1) ∧ ∀ place, (data place).Fits

/-- What a layer holds at a position, where a null pointer holds zeros. -/
def valueAt [Zero Value] : {layers : Nat} → Layer Value layers → Nat → Value
  | _, null, _ => 0
  | _, leaf data, posn => data posn
  | layers + 1, branch _ data, posn =>
      (data (posn / 2 ^ (15 * (layers + 1)))).valueAt (posn % 2 ^ (15 * (layers + 1)))

theorem place_lt {layers posn : Nat} (inside : posn < 2 ^ (15 * (layers + 1 + 1))) :
    posn / 2 ^ (15 * (layers + 1)) < 2 ^ 15 := by
  apply Nat.div_lt_of_lt_mul
  rw [← Nat.pow_add]
  exact inside

/-- The loop of a read finds the value of the position. -/
theorem readFrom_eq [Zero Value] {layers : Nat} (layer : Layer Value layers) (fits : layer.Fits)
    (shallow : layers ≤ 2) (posn : Nat) (inside : posn < 2 ^ (15 * (layers + 1))) :
    ∃ found, layer.readFrom posn = .ok found ∧ found.getD 0 = layer.valueAt posn := by
  induction layer generalizing posn with
  | null => exact ⟨none, rfl, rfl⟩
  | leaf data => exact ⟨some (data posn), if_pos inside, rfl⟩
  | @branch layers shift data inductionHypothesis =>
      obtain ⟨rfl, children⟩ := fits
      obtain ⟨found, read, same⟩ := inductionHypothesis (posn / 2 ^ (15 * (layers + 1)))
        (children _) (by omega) (posn % 2 ^ (15 * (layers + 1))) (Nat.mod_lt _ (Nat.two_pow_pos _))
      refine ⟨found, ?_, same⟩
      rw [readFrom, shiftedOne_of_lt (by omega)]
      change (if posn >>> _ < 2 ^ 15 then _ else _) = _
      rw [Nat.shiftRight_eq_div_pow, if_pos (place_lt inside), Nat.and_two_pow_sub_one_eq_mod]
      exact read

theorem fits_init [Zero Value] (layers : Nat) :
    (raaInitLayer layers : Layer Value layers).Fits := by
  cases layers with
  | zero => trivial
  | succ layers => exact ⟨by simp [RAA_BLKSHIFT, RAA_LAYERSHIFT, Nat.mul_comm], fun _ => trivial⟩

theorem leaf_ne_null {data : Nat → Value} : leaf data ≠ null := by
  intro same
  cases same

theorem branch_ne_null {layers shift : Nat} {data : Nat → Layer Value layers} :
    branch shift data ≠ null := by
  intro same
  cases same

theorem init_ne_null [Zero Value] (layers : Nat) :
    (raaInitLayer layers : Layer Value layers) ≠ null := by
  cases layers with
  | zero => exact leaf_ne_null
  | succ layers => exact branch_ne_null

theorem valueAt_init [Zero Value] (layers posn : Nat) :
    (raaInitLayer layers : Layer Value layers).valueAt posn = 0 := by
  cases layers with
  | zero => rfl
  | succ layers => rfl

/-- An added layer is as empty as the null pointer was. -/
theorem orInit_eq [Zero Value] {layers : Nat} (layer : Layer Value layers) (fits : layer.Fits) :
    layer.orInit.Fits ∧ layer.orInit ≠ null ∧
      ∀ posn, layer.orInit.valueAt posn = layer.valueAt posn := by
  cases layer with
  | null => exact ⟨fits_init layers, init_ne_null layers, valueAt_init layers⟩
  | leaf data => exact ⟨fits, leaf_ne_null, fun _ => rfl⟩
  | branch shift data => exact ⟨fits, branch_ne_null, fun _ => rfl⟩

theorem valueAt_store [Zero Value] {layers : Nat} (shift : Nat) (data : Nat → Layer Value layers)
    (child : Layer Value layers) (place posn : Nat) :
    (branch shift (store data place child)).valueAt posn =
      if posn / 2 ^ (15 * (layers + 1)) = place then child.valueAt (posn % 2 ^ (15 * (layers + 1)))
      else (branch shift data).valueAt posn := by
  rw [valueAt, store, valueAt]
  split <;> rfl

theorem fits_store [Zero Value] {layers : Nat} {shift place : Nat} {data : Nat → Layer Value layers}
    {child : Layer Value layers} (fits : (branch shift data).Fits) (childFits : child.Fits) :
    (branch shift (store data place child)).Fits := by
  obtain ⟨same, children⟩ := fits
  refine And.intro same fun other => ?_
  rw [store]
  split
  · exact childFits
  · exact children other

/-- The loop of a write changes the value of its position only. -/
theorem writeFrom_eq [Zero Value] (value : Value) {layers : Nat} (layer : Layer Value layers)
    (fits : layer.Fits) (present : layer ≠ null) (shallow : layers ≤ 2) (posn : Nat)
    (inside : posn < 2 ^ (15 * (layers + 1))) :
    ∃ written, writeFrom value layers layer posn = .ok written ∧ written.Fits ∧ written ≠ null ∧
      ∀ other, written.valueAt other = if other = posn then value else layer.valueAt other := by
  induction layers generalizing posn with
  | zero =>
      cases layer with
      | null => exact absurd rfl present
      | leaf data =>
          exact ⟨leaf (store data posn value), if_pos inside, trivial, leaf_ne_null, fun _ => rfl⟩
  | succ layers inductionHypothesis =>
      cases layer with
      | null => exact absurd rfl present
      | branch shift data =>
          obtain ⟨rfl, children⟩ := id fits
          obtain ⟨belowFits, belowPresent, sameValues⟩ :=
            orInit_eq (data (posn / 2 ^ (15 * (layers + 1)))) (children _)
          obtain ⟨written, found, writtenFits, -, values⟩ :=
            inductionHypothesis _ belowFits belowPresent (by omega)
              (posn % 2 ^ (15 * (layers + 1))) (Nat.mod_lt _ (Nat.two_pow_pos _))
          let place := posn / 2 ^ (15 * (layers + 1))
          refine ⟨branch (15 * (layers + 1)) (store data place written), ?_,
            fits_store fits writtenFits, branch_ne_null, fun other => ?_⟩
          · rw [writeFrom, shiftedOne_of_lt (by omega)]
            change (if posn >>> _ < 2 ^ 15 then _ else _) = _
            rw [Nat.shiftRight_eq_div_pow, if_pos (place_lt inside), Nat.and_two_pow_sub_one_eq_mod]
            change (writeFrom value layers _ _).bind _ = _
            rw [found]
            rfl
          · rw [valueAt_store, values, sameValues]
            by_cases same : other = posn
            · rw [if_pos same, same, if_pos rfl, if_pos rfl]
            · rw [if_neg same]
              split
              · next samePlace =>
                  have different :
                      other % 2 ^ (15 * (layers + 1)) ≠ posn % 2 ^ (15 * (layers + 1)) := by
                    intro sameRest
                    apply same
                    rw [← Nat.div_add_mod other, samePlace, sameRest, Nat.div_add_mod]
                  rw [if_neg different, valueAt, samePlace]
              · rfl

end Layer

/-- An array within two layers holds the contents, which are zero beyond its size. -/
structure RealRaa.Holds [Zero Value] (r : RealRaa Value) (contents : Nat → Value) : Prop where
  fits : r.layer.Fits
  present : r.layer ≠ .null
  shallow : r.layers ≤ 1
  values : ∀ posn, r.layer.valueAt posn = contents posn
  bounded : ∀ posn, 2 ^ (15 * (r.layers + 1)) ≤ posn → contents posn = 0

theorem RealRaa.size_eq {r : RealRaa Value} (fits : r.layer.Fits) (present : r.layer ≠ .null) :
    r.layer.shift + layerShift r.layers = 15 * (r.layers + 1) := by
  rw [layerShift_eq]
  obtain ⟨layers, layer⟩ := r
  cases layer with
  | null => exact absurd rfl present
  | leaf data => rfl
  | branch shift data =>
      obtain ⟨rfl, -⟩ := fits
      rfl

theorem holds_init [Zero Value] : (realRaaInit : RealRaa Value).Holds fun _ => 0 where
  fits := trivial
  present := Layer.leaf_ne_null
  shallow := Nat.zero_le _
  values := fun _ => rfl
  bounded := fun _ _ => rfl

/-- A layer above changes no value. -/
theorem RealRaa.Holds.deepen [Zero Value] {r : RealRaa Value} {contents : Nat → Value}
    (holds : r.Holds contents) (bottom : r.layers = 0) :
    RealRaa.Holds ⟨r.layers + 1,
      .branch (layerShift r.layers + r.layer.shift) (store (fun _ => .null) 0 r.layer)⟩
      contents := by
  have size := RealRaa.size_eq holds.fits holds.present
  have whole : layerShift r.layers + r.layer.shift = 15 * (r.layers + 1) := by omega
  have empty : (Layer.branch (15 * (r.layers + 1)) fun _ => (.null : Layer Value r.layers)).Fits :=
    ⟨rfl, fun _ => trivial⟩
  rw [whole]
  refine ⟨Layer.fits_store empty holds.fits, Layer.branch_ne_null, ?_, fun posn => ?_, ?_⟩
  · change r.layers + 1 ≤ 1
    omega
  · rw [Layer.valueAt_store]
    split
    · next first =>
        rw [← holds.values,
          Nat.mod_eq_of_lt ((Nat.div_eq_zero_iff_lt (Nat.two_pow_pos _)).mp first)]
    · next later =>
        have above : 2 ^ (15 * (r.layers + 1)) ≤ posn := by
          by_contra below
          exact later (Nat.div_eq_of_lt (Nat.not_le.mp below))
        exact (holds.bounded posn above).symm
  · intro posn above
    have deeper : 2 ^ (15 * (r.layers + 1)) ≤ 2 ^ (15 * (r.layers + 1 + 1)) :=
      Nat.pow_le_pow_right (by decide) (by omega)
    exact holds.bounded posn (Nat.le_trans deeper above)

/-- The loop of a write ends with a large enough array below 2^30, and never succeeds from there. -/
theorem grow_eq [Zero Value] {r : RealRaa Value} {contents : Nat → Value} (holds : r.Holds contents)
    (posn : Nat) :
    (posn < 2 ^ 30 → ∃ grown, grow posn r = .ok grown ∧ grown.Holds contents ∧
      posn < 2 ^ (15 * (grown.layers + 1))) ∧
    (2 ^ 30 ≤ posn → grow posn r = .error .shiftTooFar) := by
  have deep : ∀ (r : RealRaa Value), r.Holds contents → r.layers = 1 →
      grow posn r = if posn < 2 ^ 30 then .ok r else .error .shiftTooFar := by
    intro r holds top
    have size : r.layer.shift + layerShift r.layers = 30 := by
      rw [RealRaa.size_eq holds.fits holds.present, top]
    rw [grow, size, if_pos (by decide), Nat.one_shiftLeft]
    by_cases small : posn < 2 ^ 30
    · rw [if_pos small, if_neg (Nat.not_le.mpr small)]
    · rw [if_neg small, if_pos (Nat.not_lt.mp small), grow, if_neg]
      change ¬ layerShift r.layers + r.layer.shift + layerShift (r.layers + 1) < 32
      rw [Nat.add_comm (layerShift r.layers), size, layerShift_eq]
      decide
  obtain bottom | top := Nat.le_one_iff_eq_zero_or_eq_one.mp holds.shallow
  · have size : r.layer.shift + layerShift r.layers = 15 := by
      rw [RealRaa.size_eq holds.fits holds.present, bottom]
    have deeper := holds.deepen bottom
    rw [grow, size, if_pos (by decide), Nat.one_shiftLeft]
    by_cases fits : posn < 2 ^ 15
    · rw [if_neg (Nat.not_le.mpr fits)]
      refine ⟨fun _ => ⟨r, rfl, holds, ?_⟩, fun large => ?_⟩
      · rw [bottom]
        exact fits
      · omega
    · rw [if_pos (Nat.not_lt.mp fits), deep _ deeper (congrArg Nat.succ bottom)]
      refine ⟨fun small => ⟨_, if_pos small, deeper, ?_⟩,
        fun large => if_neg (Nat.not_lt.mpr large)⟩
      change posn < 2 ^ (15 * (r.layers + 1 + 1))
      rw [bottom]
      exact small
  · rw [deep r holds top]
    refine ⟨fun small => ⟨r, if_pos small, holds, ?_⟩, fun large => if_neg (Nat.not_lt.mpr large)⟩
    rw [top]
    exact small

/-- A position is its unsigned value. -/
def place (posn : Int32) : Nat := posn.toUInt32.toNat

theorem place_inj {first second : Int32} : place first = place second ↔ first = second := by
  constructor
  · intro same
    cases first
    cases second
    exact congrArg Int32.ofUInt32 (UInt32.toNat_inj.mp same)
  · rintro rfl
    rfl

/-- The positions that an array reaches. -/
def InReach (posn : Int32) : Prop := 0 ≤ posn.toInt ∧ posn.toInt < 2 ^ 30

theorem inReach_iff {posn : Int32} : InReach posn ↔ 0 ≤ posn ∧ place posn < 2 ^ 30 := by
  have value : posn.toInt = posn.toBitVec.toInt := rfl
  have unsigned : place posn = posn.toBitVec.toNat := rfl
  rw [InReach, Int32.le_iff_toInt_le, unsigned, value, BitVec.toInt_eq_toNat_cond]
  have bound := posn.toBitVec.isLt
  change (0 ≤ _ ∧ _) ↔ (0 ≤ posn.toBitVec.toInt ∧ _)
  rw [BitVec.toInt_eq_toNat_cond]
  split <;> omega

/-- What a write at a position out of reach ends in. -/
def outOfReach (posn : Int32) : RaaFault := if 0 ≤ posn then .shiftTooFar else .assertion

theorem realRaaRead_eq {r : RealRaa Value} {amount : Nat} {pos : Int32}
    (size : r.layer.shift + layerShift r.layers = amount) (small : amount < 32) :
    realRaaRead r pos =
      if 2 ^ amount ≤ place pos then .ok none else r.layer.readFrom (place pos) := by
  rw [realRaaRead, size, shiftedOne_of_lt small]
  rfl

/-- A read sees the contents at every position, also at those which the array does not reach. -/
theorem RealRaa.Holds.read [Zero Value] {r : RealRaa Value} {contents : Nat → Value}
    (holds : r.Holds contents) (pos : Int32) : raaRead r pos = .ok (contents (place pos)) := by
  have size := RealRaa.size_eq holds.fits holds.present
  have shallow := holds.shallow
  rw [raaRead, realRaaRead_eq size (by omega)]
  split
  · next above =>
      rw [holds.bounded _ above]
      rfl
  · next below =>
      obtain ⟨found, read, same⟩ :=
        r.layer.readFrom_eq holds.fits (by omega) (place pos) (Nat.not_le.mp below)
      rw [read, ← holds.values, ← same]
      rfl

/-- A write changes one position, and it succeeds at the positions from 0 below 2^30 only. -/
theorem RealRaa.Holds.write [Zero Value] {r : RealRaa Value} {contents : Nat → Value}
    (holds : r.Holds contents) (posn : Int32) (value : Value) :
    (InReach posn → ∃ written, realRaaWrite r posn value = .ok written ∧
      written.Holds fun other => if other = place posn then value else contents other) ∧
    (¬ InReach posn → realRaaWrite r posn value = .error (outOfReach posn)) := by
  obtain ⟨small, large⟩ := grow_eq holds (place posn)
  rw [inReach_iff]
  constructor
  · rintro ⟨nonneg, inside⟩
    obtain ⟨grown, found, grownHolds, fits⟩ := small inside
    have shallow := grownHolds.shallow
    obtain ⟨written, done, writtenFits, present, values⟩ :=
      grown.layer.writeFrom_eq value grownHolds.fits grownHolds.present (by omega) (place posn) fits
    refine ⟨⟨grown.layers, written⟩, ?_, writtenFits, present, shallow, fun other => ?_, ?_⟩
    · rw [realRaaWrite, if_pos nonneg]
      change (grow (place posn) r).bind _ = _
      rw [found]
      change (Layer.writeFrom value grown.layers grown.layer (place posn)).bind _ = _
      rw [done]
      rfl
    · rw [values, grownHolds.values]
    · intro other above
      rw [if_neg, grownHolds.bounded other above]
      rintro rfl
      exact absurd fits (Nat.not_lt.mpr above)
  · intro outside
    rw [realRaaWrite, outOfReach]
    split
    · next nonneg =>
        change (grow (place posn) r).bind _ = _
        rw [large (Nat.not_lt.mp fun inside => outside ⟨nonneg, inside⟩)]
        rfl
    · rfl

/-- Writes are made one after another into a new array. -/
def raaWriteAll [Zero Value] (writes : List (Int32 × Value)) : Except RaaFault (RealRaa Value) :=
  writes.foldlM (fun r write => realRaaWrite r write.1 write.2) realRaaInit

/-- The value that the latest write gave to a position. -/
def lastWritten [Zero Value] (writes : List (Int32 × Value)) (posn : Int32) : Value :=
  latest (fun write => if write.1 = posn then some write.2 else none) 0 writes

instance (posn : Int32) : Decidable (InReach posn) := inferInstanceAs (Decidable (_ ∧ _))

/-- The first write at a position out of reach. -/
def firstOutOfReach (writes : List (Int32 × Value)) : Option (Int32 × Value) :=
  writes.find? fun write => ¬ InReach write.1

theorem firstOutOfReach_eq_none_iff {writes : List (Int32 × Value)} :
    firstOutOfReach writes = none ↔ ∀ write ∈ writes, InReach write.1 := by
  simp [firstOutOfReach, List.find?_eq_none]

theorem firstOutOfReach_concat (writes : List (Int32 × Value)) (write : Int32 × Value) :
    firstOutOfReach (writes ++ [write]) =
      (firstOutOfReach writes).or (if InReach write.1 then none else some write) := by
  rw [firstOutOfReach, List.find?_append, ← firstOutOfReach]
  congr 1
  by_cases reach : InReach write.1
  · rw [if_pos reach, List.find?_cons_of_neg (by simpa using reach)]
    rfl
  · rw [if_neg reach, List.find?_cons_of_pos (by simpa using reach)]

theorem raaWriteAll_concat [Zero Value] (writes : List (Int32 × Value)) (write : Int32 × Value) :
    raaWriteAll (writes ++ [write]) =
      (raaWriteAll writes).bind fun r => realRaaWrite r write.1 write.2 := by
  rw [raaWriteAll, raaWriteAll, List.foldlM_append]
  change (_ : Except RaaFault _).bind _ = _
  congr 1
  funext r
  change (realRaaWrite r write.1 write.2).bind Except.ok = _
  cases realRaaWrite r write.1 write.2 <;> rfl

/-- Writes go on until one of them is out of reach. -/
theorem raaWriteAll_holds [Zero Value] (writes : List (Int32 × Value)) :
    match firstOutOfReach writes with
    | none => ∃ r contents, raaWriteAll writes = .ok r ∧ r.Holds contents ∧
        ∀ posn, contents (place posn) = lastWritten writes posn
    | some write => raaWriteAll writes = .error (outOfReach write.1) := by
  induction writes using List.reverseRecOn with
  | nil => exact ⟨realRaaInit, _, rfl, holds_init, fun _ => rfl⟩
  | append_singleton writes write inductionHypothesis =>
      rw [raaWriteAll_concat, firstOutOfReach_concat]
      cases earlier : firstOutOfReach writes with
      | some first =>
          rw [earlier] at inductionHypothesis
          change _ = _ at inductionHypothesis
          rw [inductionHypothesis]
          rfl
      | none =>
          rw [earlier] at inductionHypothesis
          obtain ⟨r, contents, made, holds, same⟩ := inductionHypothesis
          obtain ⟨inside, outside⟩ := holds.write write.1 write.2
          rw [made, Option.none_or]
          by_cases reach : InReach write.1
          · rw [if_pos reach]
            obtain ⟨after, found, kept⟩ := inside reach
            refine ⟨after, _, found, kept, fun posn => ?_⟩
            rw [lastWritten, latest_append, ← lastWritten, ← same]
            by_cases here : write.1 = posn
            · subst here
              rw [if_pos rfl, latest_cons, if_pos rfl]
              rfl
            · rw [if_neg fun same => here (place_inj.mp same).symm, latest_cons, if_neg here]
              rfl
          · rw [if_neg reach]
            exact outside reach

/-- Writes succeed exactly when every position is from 0 below 2^30, and then a read at any position
sees the latest value written there, or zero. Otherwise the first write out of reach fails the
assertion on a negative position, or a shift is too far. -/
theorem raaWriteAll_read [Zero Value] (writes : List (Int32 × Value)) :
    ((∃ r, raaWriteAll writes = .ok r ∧ ∀ pos, raaRead r pos = .ok (lastWritten writes pos)) ↔
      ∀ write ∈ writes, InReach write.1) ∧
    ∀ write, firstOutOfReach writes = some write →
      raaWriteAll writes = .error (if 0 ≤ write.1 then .shiftTooFar else .assertion) := by
  have holds := raaWriteAll_holds writes
  rw [← firstOutOfReach_eq_none_iff]
  cases first : firstOutOfReach writes with
  | none =>
      rw [first] at holds
      obtain ⟨r, contents, made, holds, same⟩ := holds
      refine ⟨iff_of_true ⟨r, made, fun pos => ?_⟩ rfl, fun write none => by cases none⟩
      rw [holds.read, same]
  | some write =>
      rw [first] at holds
      refine ⟨iff_of_false ?_ (by simp), ?_⟩
      · rintro ⟨r, made, -⟩
        rw [show raaWriteAll writes = _ from holds] at made
        cases made
      · rintro other ⟨⟩
        exact holds

end Projs.Nasmlib

import Mathlib.Algebra.Group.Int.Defs
import Mathlib.Algebra.Group.Nat.Defs
import Projs.Construction.Nasmlib.Saa
import Projs.Library.LabelledMachine
import Projs.Library.Overwrite

namespace Projs.Nasmlib
open Overwrite LabelledMachine

/-- The byte that the blocks hold at a position. -/
def Saa.cell (s : Saa) (posn : Nat) : Option UInt8 :=
  (s.blkPtrs (posn / s.blkLen)).bind fun block => block (posn % s.blkLen)

/-- The blocks are there, and they hold the data. -/
structure Saa.Stores (s : Saa) (content : List UInt8) : Prop where
  blkLen : 0 < s.blkLen
  elem : s.elemLen ∣ s.blkLen
  length : s.length = s.nblks * s.blkLen
  present : 0 < s.nblks
  ptrs : s.nblks ≤ s.nblkptrs
  blocks : ∀ n, n < s.nblks → (s.blkPtrs n).isSome = true
  datalen : s.datalen = content.length
  inside : content.length ≤ s.length
  cells : ∀ posn, posn < content.length → s.cell posn = content[posn]?

/-- The write cursor stands in the data; at the end of a block it may also be in the block before.
-/
structure Saa.WritesAt (s : Saa) (place : Nat) : Prop where
  wptr : s.wptr = place
  cursor : (place : Int) = s.wblk * s.blkLen + s.wpos
  wpos : s.wpos ≤ s.blkLen
  wblk : s.wblk < s.nblks

/-- The read cursor, which stands at the end of a block or at the start of the next one. -/
structure Saa.ReadsAt (s : Saa) (place : Nat) : Prop where
  rptr : s.rptr = place
  cursor : place = s.rblk * s.blkLen + s.rpos
  rpos : s.rpos ≤ s.blkLen

/-- A write leaves the read cursor and the lengths alone. -/
structure SameReader (s next : Saa) : Prop where
  elemLen : next.elemLen = s.elemLen
  blkLen : next.blkLen = s.blkLen
  rblk : next.rblk = s.rblk
  rpos : next.rpos = s.rpos
  rptr : next.rptr = s.rptr

theorem SameReader.refl (s : Saa) : SameReader s s := ⟨rfl, rfl, rfl, rfl, rfl⟩

theorem SameReader.trans {s middle next : Saa} (first : SameReader s middle)
    (second : SameReader middle next) : SameReader s next where
  elemLen := second.elemLen.trans first.elemLen
  blkLen := second.blkLen.trans first.blkLen
  rblk := second.rblk.trans first.rblk
  rpos := second.rpos.trans first.rpos
  rptr := second.rptr.trans first.rptr

theorem Saa.ReadsAt.of_same {s next : Saa} {place : Nat} (reads : s.ReadsAt place)
    (same : SameReader s next) : next.ReadsAt place where
  rptr := same.rptr.trans reads.rptr
  cursor := by rw [same.rblk, same.blkLen, same.rpos]; exact reads.cursor
  rpos := by rw [same.blkLen, same.rpos]; exact reads.rpos

variable {s : Saa} {content : List UInt8}

/-- A new block is added behind the others. -/
theorem Saa.Stores.extend (stores : s.Stores content) :
    ∃ next, saaExtend s = .ok next ∧ next.Stores content ∧ SameReader s next ∧
      next.nblks = s.nblks + 1 ∧ next.wblk = s.wblk ∧ next.wpos = s.wpos ∧ next.wptr = s.wptr := by
  have present := stores.present
  have ptrs := stores.ptrs
  let nblkptrs := if s.nblkptrs ≤ s.nblks then s.nblkptrs <<< 1 else s.nblkptrs
  have room : s.nblks < nblkptrs := by
    simp only [nblkptrs, Nat.shiftLeft_eq]
    split <;> omega
  refine ⟨_, if_pos room, ?_, ⟨rfl, rfl, rfl, rfl, rfl⟩, rfl, rfl, rfl, rfl⟩
  refine ⟨stores.blkLen, stores.elem, ?_, Nat.succ_pos _, room, ?_, stores.datalen, ?_, ?_⟩
  · change s.length + s.blkLen = (s.nblks + 1) * s.blkLen
    rw [stores.length, Nat.succ_mul]
  · intro n before
    change (if n = s.nblks then some newBlock else s.blkPtrs n).isSome = true
    split
    · rfl
    · exact stores.blocks n (by change n < s.nblks + 1 at before; omega)
  · exact Nat.le_trans stores.inside (Nat.le_add_right _ _)
  · intro posn before
    rw [← stores.cells posn before]
    have block : posn / s.blkLen < s.nblks := by
      apply Nat.div_lt_of_lt_mul
      rw [Nat.mul_comm, ← stores.length]
      exact Nat.lt_of_lt_of_le before stores.inside
    change (if posn / s.blkLen = s.nblks then some newBlock
      else s.blkPtrs (posn / s.blkLen)).bind _ = _
    rw [if_neg (Nat.ne_of_lt block)]
    rfl

/-- The blocks of the data are all there. -/
theorem Saa.Stores.exists_block (stores : s.Stores content) {blk : Nat} (inside : blk < s.nblks) :
    ∃ block, s.blkPtrs blk = some block :=
  Option.isSome_iff_exists.mp (stores.blocks blk inside)

/-- A copy into one block at the place of the cursor writes over the data there. -/
theorem Saa.Stores.copyIn (stores : s.Stores content) {blk : Int} {pos place : Nat}
    {d : List UInt8} (nonneg : 0 ≤ blk) (before : blk < s.nblks)
    (cursor : (place : Int) = blk * s.blkLen + pos) (fits : pos + d.length ≤ s.blkLen)
    (within : place ≤ content.length) :
    ∃ blocks, copyIn s blk pos d = .ok { s with blkPtrs := blocks } ∧
      (∀ n, n < s.nblks → (blocks n).isSome = true) ∧
      ∀ posn, (posn < content.length ∨ posn < place + d.length) →
        Saa.cell { s with blkPtrs := blocks } posn = (overwrite content place d)[posn]? := by
  obtain ⟨n, rfl⟩ := Int.eq_ofNat_of_zero_le nonneg
  obtain ⟨block, found⟩ := stores.exists_block (Int.ofNat_lt.mp before)
  have here : place = n * s.blkLen + pos := by exact_mod_cast cursor
  have positive := stores.blkLen
  let written : Block := fun m => if pos ≤ m ∧ m < pos + d.length then d[m - pos]? else block m
  refine ⟨fun m => if m = n then some written else s.blkPtrs m, ?_, ?_, ?_⟩
  · rw [Nasmlib.copyIn, if_pos ⟨nonneg, fits⟩, Int.toNat_natCast, found]
  · intro m inside
    change (if m = n then some written else s.blkPtrs m).isSome = true
    split
    · rfl
    · exact stores.blocks m inside
  · intro posn reached
    rw [getElem?_overwrite within]
    change (if posn / s.blkLen = n then some written else s.blkPtrs (posn / s.blkLen)).bind
      (fun block => block (posn % s.blkLen)) = _
    have split := Nat.div_add_mod posn s.blkLen
    have small := Nat.mod_lt posn positive
    by_cases same : posn / s.blkLen = n
    · have whole : posn = n * s.blkLen + posn % s.blkLen := by rw [← same, Nat.mul_comm, split]
      rw [if_pos same, Option.bind_some]
      by_cases inWrite : pos ≤ posn % s.blkLen ∧ posn % s.blkLen < pos + d.length
      · have offset : posn % s.blkLen - pos = posn - place := by omega
        rw [if_pos ⟨by omega, by omega⟩]
        exact (if_pos inWrite).trans (by rw [offset])
      · rw [if_neg (by omega)]
        have inside : posn < content.length := by omega
        rw [← stores.cells posn inside, Saa.cell, same, found]
        exact if_neg inWrite
    · have apart : ¬ (place ≤ posn ∧ posn < place + d.length) := by
        rintro ⟨low, high⟩
        apply same
        apply Nat.div_eq_of_lt_le
        · omega
        · rw [Nat.succ_mul]
          omega
      rw [if_neg same, if_neg apart, ← stores.cells posn (by omega)]
      rfl

/-- A copy at the write cursor writes over the data, and the cursor moves behind it. -/
theorem Saa.Stores.write (stores : s.Stores content) {place : Nat} (writes : s.WritesAt place)
    (within : place ≤ content.length) {d : List UInt8} (some : d ≠ [])
    (fits : s.wpos + d.length ≤ s.blkLen) :
    ∃ next, (Nasmlib.copyIn s s.wblk s.wpos d).map (fun s => advance s d.length) = .ok next ∧
      next.Stores (overwrite content place d) ∧ next.WritesAt (place + d.length) ∧
      SameReader s next ∧ next.wpos = s.wpos + d.length := by
  have positive : 0 < d.length := List.length_pos_iff.mpr some
  have cursor := writes.cursor
  have nonneg : 0 ≤ s.wblk := by
    by_contra negative
    have low : s.wblk ≤ -1 := by omega
    have product : s.wblk * (s.blkLen : Int) ≤ -1 * (s.blkLen : Int) :=
      Int.mul_le_mul_of_nonneg_right low (Int.natCast_nonneg _)
    omega
  obtain ⟨blocks, copied, still, cells⟩ :=
    stores.copyIn nonneg writes.wblk cursor fits within
  have wptr := writes.wptr
  have datalen := stores.datalen
  have inside := stores.inside
  have grown : (overwrite content place d).length = max content.length (place + d.length) :=
    length_overwrite within
  have longest : (if s.datalen < s.wptr + d.length then s.wptr + d.length else s.datalen) =
      (overwrite content place d).length := by
    rw [grown]
    split <;> omega
  have reach : place + d.length ≤ s.length := by
    have next : (place + d.length : Int) ≤ (s.wblk + 1) * s.blkLen := by
      rw [Int.add_mul, Int.one_mul]
      omega
    have last : (s.wblk + 1) * (s.blkLen : Int) ≤ s.nblks * s.blkLen :=
      Int.mul_le_mul_of_nonneg_right (by have before := writes.wblk; omega) (Int.natCast_nonneg _)
    have whole : (s.length : Int) = s.nblks * s.blkLen := by exact_mod_cast stores.length
    omega
  refine ⟨advance { s with blkPtrs := blocks } d.length, by rw [copied]; rfl, ?_, ?_, ?_, rfl⟩
  · refine ⟨stores.blkLen, stores.elem, stores.length, stores.present, stores.ptrs, still, longest,
      ?_, fun posn before => ?_⟩
    · rw [grown]
      exact Nat.max_le.mpr ⟨inside, reach⟩
    · apply cells
      rw [grown] at before
      omega
  · refine ⟨congrArg (· + d.length) wptr, ?_, fits, writes.wblk⟩
    change ((place + d.length : Nat) : Int) = s.wblk * s.blkLen + (s.wpos + d.length : Nat)
    omega
  · exact ⟨rfl, rfl, rfl, rfl, rfl⟩

/-- At the end of a block the cursor can be put at the start of the next one. -/
theorem Saa.Stores.nextBlock (stores : s.Stores content) {place : Nat} (writes : s.WritesAt place)
    (full : s.wpos = s.blkLen) :
    ∃ next, Nasmlib.nextBlock s = .ok next ∧ next.Stores content ∧ next.WritesAt place ∧
      SameReader s next ∧ next.wpos = 0 := by
  have cursor := writes.cursor
  have start : (place : Int) = (s.wblk + 1) * s.blkLen + 0 := by
    rw [Int.add_mul, Int.one_mul, Int.add_zero, cursor, full]
  have whole : (s.length : Int) = s.nblks * s.blkLen := by exact_mod_cast stores.length
  have wptr := writes.wptr
  rw [Nasmlib.nextBlock]
  split
  · next ended =>
      obtain ⟨next, extended, kept, same, more, wblk, wpos, ptr⟩ := stores.extend
      rw [extended]
      refine ⟨_, rfl, ⟨kept.blkLen, kept.elem, kept.length, kept.present, kept.ptrs, kept.blocks,
        kept.datalen, kept.inside, kept.cells⟩, ?_, ⟨same.elemLen, same.blkLen, same.rblk,
        same.rpos, same.rptr⟩, rfl⟩
      refine ⟨ptr.trans wptr, ?_, Nat.zero_le _, ?_⟩
      · change (place : Int) = (next.wblk + 1) * next.blkLen + 0
        rw [wblk, same.blkLen]
        exact start
      · change next.wblk + 1 < next.nblks
        rw [wblk, more]
        have before := writes.wblk
        omega
  · next inside =>
      refine ⟨_, rfl, ⟨stores.blkLen, stores.elem, stores.length, stores.present, stores.ptrs,
        stores.blocks, stores.datalen, stores.inside, stores.cells⟩, ?_,
        ⟨rfl, rfl, rfl, rfl, rfl⟩, rfl⟩
      refine ⟨wptr, start, Nat.zero_le _, ?_⟩
      change s.wblk + 1 < s.nblks
      have product : (s.wblk + 1) * (s.blkLen : Int) < s.nblks * s.blkLen := by omega
      exact Int.lt_of_mul_lt_mul_right product (Int.natCast_nonneg _)

theorem wbytesFrom_nil (steps : Nat) (s : Saa) : wbytesFrom steps s [] = .ok s := by
  cases steps <;> rfl

theorem wbytesFrom_succ (steps : Nat) (s : Saa) {d : List UInt8} (present : d ≠ []) :
    wbytesFrom (steps + 1) s d = (do
      let l := min (s.blkLen - s.wpos) d.length
      let s ← if l = 0 then .ok s else
        (Nasmlib.copyIn s s.wblk s.wpos (d.take l)).map fun s => advance s l
      let s ← if d.drop l = [] then .ok s else Nasmlib.nextBlock s
      wbytesFrom steps s (d.drop l)) := by
  cases d with
  | nil => exact absurd rfl present
  | cons first rest => rfl

/-- The loop of a write ends, and it writes over the data at the cursor. -/
theorem wbytesFrom_eq (steps : Nat) (d : List UInt8) {place : Nat} (stores : s.Stores content)
    (writes : s.WritesAt place) (within : place ≤ content.length)
    (enough : d.length + (if s.wpos = s.blkLen then 1 else 0) ≤ steps) :
    ∃ next, wbytesFrom steps s d = .ok next ∧ next.Stores (overwrite content place d) ∧
      next.WritesAt (place + d.length) ∧ SameReader s next := by
  induction steps generalizing s content d place with
  | zero =>
      have empty : d = [] := List.length_eq_zero_iff.mp (by omega)
      subst empty
      rw [overwrite_nil]
      exact ⟨s, rfl, stores, writes, SameReader.refl s⟩
  | succ steps inductionHypothesis =>
      by_cases empty : d = []
      · subst empty
        rw [overwrite_nil]
        exact ⟨s, rfl, stores, writes, SameReader.refl s⟩
      · have positive : 0 < d.length := List.length_pos_iff.mpr empty
        have wpos := writes.wpos
        have blkLen := stores.blkLen
        rw [wbytesFrom_succ steps s empty]
        generalize size : min (s.blkLen - s.wpos) d.length = l
        by_cases none : l = 0
        · have full : s.wpos = s.blkLen := by omega
          obtain ⟨next, moved, kept, cursor, same, start⟩ := stores.nextBlock writes full
          have rest : d.length + (if next.wpos = next.blkLen then 1 else 0) ≤ steps := by
            rw [if_pos full] at enough
            rw [start, same.blkLen, if_neg (by omega)]
            omega
          obtain ⟨final, written, stored, reached, still⟩ :=
            inductionHypothesis d kept cursor within rest
          refine ⟨final, ?_, stored, reached, same.trans still⟩
          subst none
          simp only [if_true, List.drop_zero, bind, Except.bind, if_neg empty, moved, written]
        · have taken : (d.take l).length = l := by
            rw [List.length_take]
            omega
          have some : d.take l ≠ [] := List.length_pos_iff.mp (by omega)
          obtain ⟨middle, copied, kept, cursor, same, moved⟩ :=
            stores.write writes within some (by omega)
          have reach : place + (d.take l).length ≤ (overwrite content place (d.take l)).length := by
            rw [length_overwrite within]
            exact Nat.le_max_right _ _
          rw [taken] at copied cursor moved reach
          rw [if_neg none, copied]
          by_cases done : d.drop l = []
          · have all : d.length ≤ l := List.drop_eq_nil_iff.mp done
            have whole : d.take l = d := List.take_of_length_le all
            have count : l = d.length := by omega
            rw [whole] at kept
            rw [count] at cursor
            refine ⟨middle, ?_, kept, cursor, same⟩
            simp only [bind, Except.bind, if_true, done, wbytesFrom_nil]
          · have more : l < d.length := by
              by_contra all
              exact done (List.drop_eq_nil_iff.mpr (by omega))
            have full : middle.wpos = middle.blkLen := by
              rw [moved, same.blkLen]
              omega
            obtain ⟨next, crossed, held, start, still, zero⟩ := kept.nextBlock cursor full
            have rest : (d.drop l).length + (if next.wpos = next.blkLen then 1 else 0) ≤ steps := by
              rw [zero, still.blkLen, same.blkLen, if_neg (by omega), List.length_drop]
              omega
            obtain ⟨final, written, stored, reached, last⟩ :=
              inductionHypothesis (d.drop l) held start reach rest
            have joined : overwrite (overwrite content place (d.take l))
                (place + (d.take l).length) (d.drop l) =
                overwrite content place (d.take l ++ d.drop l) := overwrite_append within
            rw [taken, List.take_append_drop] at joined
            have last' : place + l + (d.drop l).length = place + d.length := by
              rw [List.length_drop]
              omega
            rw [joined] at stored
            rw [last'] at reached
            refine ⟨final, ?_, stored, reached, (same.trans still).trans last⟩
            simp only [bind, Except.bind, if_neg done, crossed, written]

end Projs.Nasmlib

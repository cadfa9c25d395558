import Mathlib.Algebra.Group.Nat.Defs
import Projs.Proof.Nasmlib.SaaBlocks

namespace Projs.Nasmlib
open Overwrite

/-- The read cursor is put somewhere else. -/
def Saa.movedTo (s : Saa) (rblk rpos rptr : Nat) : Saa := { s with rblk, rpos, rptr }

variable {s : Saa} {content : List UInt8} {place : Nat}

theorem Saa.Stores.movedTo (stores : s.Stores content) (rblk rpos rptr : Nat) :
    (s.movedTo rblk rpos rptr).Stores content :=
  ⟨stores.blkLen, stores.elem, stores.length, stores.present, stores.ptrs, stores.blocks,
    stores.datalen, stores.inside, stores.cells⟩

theorem Saa.WritesAt.movedTo (writes : s.WritesAt place) (rblk rpos rptr : Nat) :
    (s.movedTo rblk rpos rptr).WritesAt place :=
  ⟨writes.wptr, writes.cursor, writes.wpos, writes.wblk⟩

/-- A place with data behind it is in a block that is there. -/
theorem Saa.Stores.lt_nblks (stores : s.Stores content) {blk pos : Nat}
    (inside : blk * s.blkLen + pos < content.length) : blk < s.nblks := by
  have reach : blk * s.blkLen < s.nblks * s.blkLen := by
    have short := stores.inside
    rw [stores.length] at short
    omega
  exact Nat.lt_of_mul_lt_mul_right reach

/-- A read inside one block returns the data there. -/
theorem Saa.Stores.copyOut (stores : s.Stores content) {blk pos len : Nat} (before : blk < s.nblks)
    (cursor : place = blk * s.blkLen + pos) (fits : pos + len ≤ s.blkLen)
    (within : place + len ≤ content.length) :
    Nasmlib.copyOut s blk pos len = .ok ((content.drop place).take len) := by
  obtain ⟨block, found⟩ := stores.exists_block before
  have positive := stores.blkLen
  have slice : (List.range len).mapM (fun n => block (pos + n)) =
      some ((content.drop place).take len) := by
    apply mapM_slice within
    intro offset inside
    have quotient : (place + offset) / s.blkLen = blk := by
      apply Nat.div_eq_of_lt_le
      · omega
      · rw [Nat.succ_mul]
        omega
    have remainder : (place + offset) % s.blkLen = pos + offset := by
      have split := Nat.div_add_mod (place + offset) s.blkLen
      rw [quotient, Nat.mul_comm] at split
      omega
    rw [← stores.cells (place + offset) (by omega), Saa.cell, quotient, remainder, found]
    rfl
  rw [Nasmlib.copyOut, if_pos fits, found]
  simp only [slice]

/-- The place inside the block where the next read starts. -/
theorem Saa.ReadsAt.mod_blkLen (reads : s.ReadsAt place) :
    place % s.blkLen = if s.blkLen ≤ s.rpos then 0 else s.rpos := by
  have rpos := reads.rpos
  rw [reads.cursor, Nat.mul_add_mod']
  split
  · next full =>
      rw [Nat.le_antisymm rpos full, Nat.mod_self]
  · next room => exact Nat.mod_eq_of_lt (Nat.lt_of_not_le room)

/-- Before a read the cursor goes from the end of a block to the start of the next one. -/
theorem Saa.ReadsAt.normalize (reads : s.ReadsAt place) :
    place = (if s.blkLen ≤ s.rpos then s.rblk + 1 else s.rblk) * s.blkLen +
      (if s.blkLen ≤ s.rpos then 0 else s.rpos) := by
  have cursor := reads.cursor
  have rpos := reads.rpos
  split
  · rw [Nat.succ_mul]
    omega
  · exact cursor

/-- The number of bytes that one read returns, which stays inside one block. -/
def readable (blkLen : Nat) (content : List UInt8) (place len : Nat) : Nat :=
  min (min len (content.length - place)) (blkLen - place % blkLen)

theorem saaRbytes_end (stores : s.Stores content) (reads : s.ReadsAt place) (len : Nat)
    (ended : content.length ≤ place) : saaRbytes s len = .ok (none, s) := by
  rw [saaRbytes, if_pos (by rw [stores.datalen, reads.rptr]; exact ended)]
  rfl

theorem saaRbytes_eq (stores : s.Stores content) (reads : s.ReadsAt place) (len : Nat)
    (inside : place < content.length) :
    ∃ rblk rpos rptr, saaRbytes s len = .ok
        (some ((content.drop place).take (readable s.blkLen content place len)),
          s.movedTo rblk rpos rptr) ∧
      (s.movedTo rblk rpos rptr).ReadsAt (place + readable s.blkLen content place len) := by
  let rblk := if s.blkLen ≤ s.rpos then s.rblk + 1 else s.rblk
  let rpos := if s.blkLen ≤ s.rpos then 0 else s.rpos
  let n := readable s.blkLen content place len
  have positive := stores.blkLen
  have cursor : place = rblk * s.blkLen + rpos := reads.normalize
  have start : place % s.blkLen = rpos := reads.mod_blkLen
  have low : rpos < s.blkLen := by
    rw [← start]
    exact Nat.mod_lt _ positive
  have short : n ≤ s.blkLen - rpos := by
    rw [← start]
    exact Nat.min_le_right _ _
  have fits : rpos + n ≤ s.blkLen := by omega
  have left : n ≤ content.length - place :=
    Nat.le_trans (Nat.min_le_left _ _) (Nat.min_le_right _ _)
  have reach : rblk * s.blkLen + rpos < content.length := by omega
  have before : rblk < s.nblks := stores.lt_nblks reach
  have copied := stores.copyOut before cursor fits (by omega)
  refine ⟨rblk, rpos + n, place + n, ?_, rfl, ?_, fits⟩
  · have count : min (min len (s.datalen - s.rptr)) (s.blkLen - rpos) = n := by
      rw [stores.datalen, reads.rptr, ← start]
      rfl
    have unread : ¬ s.datalen ≤ s.rptr := by
      rw [stores.datalen, reads.rptr]
      omega
    have moved : (if s.blkLen ≤ s.rpos then { s with rblk := s.rblk + 1, rpos := 0 } else s) =
        { s with rblk, rpos } := by
      simp only [rblk, rpos]
      split <;> rfl
    have unfolded : saaRbytes s len =
        (Nasmlib.copyOut s rblk rpos (min (min len (s.datalen - s.rptr)) (s.blkLen - rpos))).map
          fun bytes => (some bytes, s.movedTo rblk
            (rpos + min (min len (s.datalen - s.rptr)) (s.blkLen - rpos))
            (s.rptr + min (min len (s.datalen - s.rptr)) (s.blkLen - rpos))) := by
      rw [saaRbytes, if_neg unread, moved]
      rfl
    rw [unfolded, count, copied, reads.rptr]
    rfl
  · change place + n = rblk * s.blkLen + (rpos + n)
    omega

theorem rnbytesFrom_succ (steps : Nat) (s : Saa) {len : Nat} (present : len ≠ 0) :
    rnbytesFrom (steps + 1) s len = (do
      let (p, s) ← saaRbytes s len
      let bytes := p.getD []
      let (rest, s) ← rnbytesFrom steps s (len - bytes.length)
      pure (bytes ++ rest, s)) := by
  cases len with
  | zero => exact absurd rfl present
  | succ count => rfl

/-- The loop of a read ends, and it collects the data behind the cursor. -/
theorem rnbytesFrom_eq (steps len : Nat) (stores : s.Stores content) (reads : s.ReadsAt place)
    (within : place + len ≤ content.length) (enough : len ≤ steps) :
    ∃ rblk rpos rptr, rnbytesFrom steps s len =
        .ok ((content.drop place).take len, s.movedTo rblk rpos rptr) ∧
      (s.movedTo rblk rpos rptr).ReadsAt (place + len) := by
  induction steps generalizing s place len with
  | zero =>
      have empty : len = 0 := Nat.le_zero.mp enough
      subst empty
      exact ⟨s.rblk, s.rpos, s.rptr, rfl, reads⟩
  | succ steps inductionHypothesis =>
      cases len with
      | zero => exact ⟨s.rblk, s.rpos, s.rptr, rfl, reads⟩
      | succ count =>
          obtain ⟨rblk, rpos, rptr, first, moved⟩ :=
            saaRbytes_eq stores reads (count + 1) (by omega)
          have size : ((content.drop place).take
              (readable s.blkLen content place (count + 1))).length =
              readable s.blkLen content place (count + 1) := by
            rw [List.length_take, List.length_drop]
            exact Nat.min_eq_left (Nat.le_trans (Nat.min_le_left _ _) (Nat.min_le_right _ _))
          have short : readable s.blkLen content place (count + 1) ≤ count + 1 :=
            Nat.le_trans (Nat.min_le_left _ _) (Nat.min_le_left _ _)
          have progress : 0 < readable s.blkLen content place (count + 1) := by
            have small := Nat.mod_lt place stores.blkLen
            rw [readable]
            omega
          generalize readable s.blkLen content place (count + 1) = n at *
          obtain ⟨rblk', rpos', rptr', rest, last⟩ :=
            inductionHypothesis (count + 1 - n) (stores.movedTo rblk rpos rptr) moved (by omega)
              (by omega)
          have joined : (content.drop place).take n ++
              (content.drop (place + n)).take (count + 1 - n) =
              (content.drop place).take (count + 1) := by
            rw [← List.drop_drop, ← List.take_add]
            congr 1
            omega
          have whole : place + n + (count + 1 - n) = place + (count + 1) := by omega
          rw [whole] at last
          refine ⟨rblk', rpos', rptr', ?_, last⟩
          rw [rnbytesFrom_succ steps s (Nat.succ_ne_zero count), first]
          simp only [bind, Except.bind, Option.getD_some, size, rest, ← joined]
          rfl

theorem sizeSum_of_lt {posn len : Nat} (fits : posn + len < 2 ^ 64) :
    sizeSum posn len = posn + len := Nat.mod_eq_of_lt fits

theorem saaRnbytes_eq (stores : s.Stores content) (reads : s.ReadsAt place) (len : Nat)
    (fits : place + len < 2 ^ 64) (within : place + len ≤ content.length) :
    ∃ rblk rpos rptr, saaRnbytes s len =
        .ok ((content.drop place).take len, s.movedTo rblk rpos rptr) ∧
      (s.movedTo rblk rpos rptr).ReadsAt (place + len) := by
  rw [saaRnbytes, if_pos (by rw [stores.datalen, reads.rptr, sizeSum_of_lt fits]; exact within)]
  exact rnbytesFrom_eq len len stores reads within (Nat.le_refl len)

/-- The loop that writes everything to a file ends behind the data. -/
theorem fpwriteFrom_eq (steps : Nat) (stores : s.Stores content) (reads : s.ReadsAt place)
    (within : place ≤ content.length) (enough : content.length - place < steps) :
    ∃ rblk rpos rptr, fpwriteFrom steps s = .ok (content.drop place, s.movedTo rblk rpos rptr) ∧
      (s.movedTo rblk rpos rptr).ReadsAt content.length := by
  induction steps generalizing s place with
  | zero => omega
  | succ steps inductionHypothesis =>
      by_cases ended : content.length ≤ place
      · have here : place = content.length := Nat.le_antisymm within ended
        refine ⟨s.rblk, s.rpos, s.rptr, ?_, here ▸ reads⟩
        rw [fpwriteFrom, saaRbytes_end stores reads _ ended, List.drop_eq_nil_of_le ended]
        rfl
      · obtain ⟨rblk, rpos, rptr, first, moved⟩ :=
          saaRbytes_eq stores reads s.datalen (by omega)
        have left : readable s.blkLen content place s.datalen ≤ content.length - place :=
          Nat.le_trans (Nat.min_le_left _ _) (Nat.min_le_right _ _)
        have progress : 0 < readable s.blkLen content place s.datalen := by
          have small := Nat.mod_lt place stores.blkLen
          have datalen := stores.datalen
          rw [readable]
          omega
        generalize readable s.blkLen content place s.datalen = n at *
        obtain ⟨rblk', rpos', rptr', rest, last⟩ :=
          inductionHypothesis (stores.movedTo rblk rpos rptr) moved (by omega) (by omega)
        refine ⟨rblk', rpos', rptr', ?_, last⟩
        rw [fpwriteFrom, first]
        simp only [bind, Except.bind, rest]
        rw [← List.drop_drop, List.take_append_drop]
        rfl

theorem saaRewind_readsAt (s : Saa) : (saaRewind s).ReadsAt 0 :=
  ⟨rfl, by change 0 = 0 * s.blkLen + 0; rw [Nat.zero_mul], Nat.zero_le _⟩

theorem saaFpwrite_eq (stores : s.Stores content) :
    ∃ rblk rpos rptr, saaFpwrite s = .ok (content, s.movedTo rblk rpos rptr) ∧
      (s.movedTo rblk rpos rptr).ReadsAt content.length := by
  apply fpwriteFrom_eq (s.datalen + 1) (stores.movedTo 0 0 0) (saaRewind_readsAt s) (Nat.zero_le _)
  rw [stores.datalen]
  omega

/-- A structure that does not fit into its block starts at the end of the block. -/
theorem eq_of_aligned {elemLen blkLen pos : Nat} (dvd : elemLen ∣ blkLen) (low : pos ≤ blkLen)
    (aligned : pos % elemLen = 0) (crosses : blkLen < pos + elemLen) : pos = blkLen := by
  have rest : elemLen ∣ blkLen - pos := Nat.dvd_sub dvd (Nat.dvd_of_mod_eq_zero aligned)
  have none : blkLen - pos = 0 := Nat.eq_zero_of_dvd_of_lt rest (by omega)
  omega

theorem Saa.ReadsAt.mod_elemLen (reads : s.ReadsAt place) (dvd : s.elemLen ∣ s.blkLen) :
    place % s.elemLen = s.rpos % s.elemLen := by
  obtain ⟨count, whole⟩ := dvd
  rw [reads.cursor, whole, Nat.mul_left_comm, Nat.mul_add_mod]

theorem saaRstruct_end (stores : s.Stores content) (reads : s.ReadsAt place)
    (short : content.length < place + s.elemLen) : saaRstruct s = .ok (none, s) := by
  rw [saaRstruct, if_pos (by rw [stores.datalen, reads.rptr]; exact short)]
  rfl

theorem saaRstruct_assertion (stores : s.Stores content) (reads : s.ReadsAt place)
    (inside : place + s.elemLen ≤ content.length) (unaligned : place % s.elemLen ≠ 0) :
    saaRstruct s = .error .assertion := by
  rw [reads.mod_elemLen stores.elem] at unaligned
  rw [saaRstruct, if_neg (by rw [stores.datalen, reads.rptr]; omega), if_neg unaligned]

/-- A structure is read when there are data for it. -/
theorem saaRstruct_eq (stores : s.Stores content) (reads : s.ReadsAt place)
    (positive : 0 < s.elemLen) (inside : place + s.elemLen ≤ content.length)
    (aligned : place % s.elemLen = 0) :
    ∃ rblk rpos rptr, saaRstruct s =
        .ok (some ((content.drop place).take s.elemLen), s.movedTo rblk rpos rptr) ∧
      (s.movedTo rblk rpos rptr).ReadsAt (place + s.elemLen) := by
  rw [reads.mod_elemLen stores.elem] at aligned
  let rblk := if s.blkLen < s.rpos + s.elemLen then s.rblk + 1 else s.rblk
  let rpos := if s.blkLen < s.rpos + s.elemLen then 0 else s.rpos
  have cursor := reads.cursor
  have fitted : s.elemLen ≤ s.blkLen := Nat.le_of_dvd stores.blkLen stores.elem
  have moved : place = rblk * s.blkLen + rpos ∧ rpos + s.elemLen ≤ s.blkLen := by
    simp only [rblk, rpos]
    split
    · next crosses =>
        have full := eq_of_aligned stores.elem reads.rpos aligned crosses
        rw [Nat.succ_mul]
        omega
    · next room => exact ⟨cursor, Nat.le_of_not_lt room⟩
  have reach : rblk * s.blkLen + rpos < content.length := by omega
  have before : rblk < s.nblks := stores.lt_nblks reach
  have copied := stores.copyOut before moved.1 moved.2 inside
  refine ⟨rblk, rpos + s.elemLen, place + s.elemLen, ?_, rfl, ?_, moved.2⟩
  · have normal : (if s.blkLen < s.rpos + s.elemLen then { s with rblk := s.rblk + 1, rpos := 0 }
        else s) = { s with rblk, rpos } := by
      simp only [rblk, rpos]
      split <;> rfl
    have unfolded : saaRstruct s = (Nasmlib.copyOut s rblk rpos s.elemLen).map
        fun bytes => (some bytes, s.movedTo rblk (rpos + s.elemLen) (s.rptr + s.elemLen)) := by
      rw [saaRstruct, if_neg (by rw [stores.datalen, reads.rptr]; omega), if_pos aligned, normal]
      rfl
    rw [unfolded, copied, reads.rptr]
    rfl
  · change place + s.elemLen = rblk * s.blkLen + (rpos + s.elemLen)
    omega

end Projs.Nasmlib

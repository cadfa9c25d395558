import Mathlib.Algebra.Group.Int.Defs
import Mathlib.Algebra.Group.Nat.Defs
import Projs.Proof.Nasmlib.SaaReads

namespace Projs.Nasmlib
open Overwrite LabelledMachine

/-- The array stands for the data with a cursor for writing and a cursor for reading. -/
structure Saa.Holds (s : Saa) (content : List UInt8) (wplace rplace : Nat) : Prop where
  stores : s.Stores content
  writes : s.WritesAt wplace
  reads : s.ReadsAt rplace
  wplace : wplace ≤ content.length
  rplace : rplace ≤ content.length

/-- The length of a block is fixed by the length of an element. -/
def blkLenOf (elemLen : Nat) : Nat :=
  if SAA_BLKLEN ≤ elemLen then elemLen else SAA_BLKLEN - SAA_BLKLEN % elemLen

theorem blkLenOf_pos {elemLen : Nat} (positive : 0 < elemLen) : 0 < blkLenOf elemLen := by
  rw [blkLenOf]
  split
  · exact positive
  · have small := Nat.mod_lt SAA_BLKLEN positive
    omega

theorem dvd_blkLenOf (elemLen : Nat) : elemLen ∣ blkLenOf elemLen := by
  rw [blkLenOf]
  split
  · exact Nat.dvd_refl elemLen
  · exact Nat.dvd_sub_mod SAA_BLKLEN

theorem saaInit_holds {elemLen : Nat} (positive : 0 < elemLen) :
    (saaInit elemLen).Holds [] 0 0 := by
  have blkLen := blkLenOf_pos positive
  refine ⟨⟨blkLen, dvd_blkLenOf elemLen, (Nat.one_mul _).symm, Nat.one_pos, Nat.le_refl 1, ?_, rfl,
    Nat.zero_le _, ?_⟩, ⟨rfl, ?_, Nat.zero_le _, Int.zero_lt_one⟩,
    saaRewind_readsAt (saaInit elemLen), Nat.le_refl 0, Nat.le_refl 0⟩
  · intro n before
    have first : n = 0 := Nat.lt_one_iff.mp before
    subst first
    rfl
  · intro posn before
    exact absurd before (Nat.not_lt_zero posn)
  · change (0 : Int) = 0 * (blkLenOf elemLen : Int) + 0
    rw [Int.zero_mul, Int.add_zero]

/-- The shift and the mask are the division by the length of a block. -/
theorem locate_eq (s : Saa) (posn : Nat) : locate s posn = (posn / s.blkLen, posn % s.blkLen) := by
  rw [locate]
  split
  · next usual =>
      have quotient : posn >>> SAA_BLKSHIFT = posn / SAA_BLKLEN := Nat.shiftRight_eq_div_pow posn 16
      have remainder : posn &&& (SAA_BLKLEN - 1) = posn % SAA_BLKLEN :=
        Nat.and_two_pow_sub_one_eq_mod posn 16
      rw [quotient, remainder, usual]
  · rfl

variable {s : Saa} {content : List UInt8} {place : Nat}

theorem saaWbytes_eq (stores : s.Stores content) (writes : s.WritesAt place)
    (within : place ≤ content.length) (d : List UInt8) :
    ∃ next, saaWbytes s d = .ok next ∧ next.Stores (overwrite content place d) ∧
      next.WritesAt (place + d.length) ∧ SameReader s next := by
  apply wbytesFrom_eq (d.length + 1) d stores writes within
  split <;> omega

/-- The write cursor is put somewhere else. -/
def Saa.writesTo (s : Saa) (wblk : Int) (wpos wptr : Nat) : Saa := { s with wblk, wpos, wptr }

theorem Saa.Stores.writesTo (stores : s.Stores content) (wblk : Int) (wpos wptr : Nat) :
    (s.writesTo wblk wpos wptr).Stores content :=
  ⟨stores.blkLen, stores.elem, stores.length, stores.present, stores.ptrs, stores.blocks,
    stores.datalen, stores.inside, stores.cells⟩

/-- The cursor that a positioned write starts with. -/
theorem Saa.Stores.locate (stores : s.Stores content) {posn : Nat}
    (within : posn ≤ content.length) :
    (if posn % s.blkLen = 0 then s.writesTo ((posn / s.blkLen : Nat) - 1) s.blkLen posn
      else s.writesTo (posn / s.blkLen : Nat) (posn % s.blkLen) posn).WritesAt posn := by
  have positive := stores.blkLen
  have split := Nat.div_add_mod posn s.blkLen
  have small := Nat.mod_lt posn positive
  have reach : posn / s.blkLen * s.blkLen + posn % s.blkLen ≤ s.nblks * s.blkLen := by
    have inside := stores.inside
    rw [← stores.length, Nat.mul_comm, split]
    omega
  have whole : (posn : Int) = (posn / s.blkLen : Nat) * s.blkLen + (posn % s.blkLen : Nat) := by
    rw [Nat.mul_comm] at split
    exact_mod_cast split.symm
  split
  · next start =>
      have last : posn / s.blkLen ≤ s.nblks := by
        apply Nat.le_of_mul_le_mul_right _ positive
        omega
      refine ⟨rfl, ?_, Nat.le_refl _, ?_⟩
      · change (posn : Int) = ((posn / s.blkLen : Nat) - 1) * s.blkLen + s.blkLen
        rw [Int.sub_mul, Int.one_mul]
        omega
      · change ((posn / s.blkLen : Nat) : Int) - 1 < s.nblks
        omega
  · next middle =>
      have before : posn / s.blkLen < s.nblks := by
        apply Nat.lt_of_mul_lt_mul_right (a := s.blkLen)
        omega
      exact ⟨rfl, whole, Nat.le_of_lt small, Int.ofNat_lt.mpr before⟩

theorem saaFwrite_eq (stores : s.Stores content) (posn : Nat) (d : List UInt8)
    (within : posn ≤ content.length) :
    ∃ next, saaFwrite s posn d = .ok next ∧ next.Stores (overwrite content posn d) ∧
      next.WritesAt (posn + d.length) ∧ SameReader s next := by
  have cursor := stores.locate within
  rw [saaFwrite, if_pos (by rw [stores.datalen]; exact within), locate_eq]
  change ∃ next, saaWbytes (if posn % s.blkLen = 0
    then s.writesTo ((posn / s.blkLen : Nat) - 1) s.blkLen posn
    else s.writesTo (posn / s.blkLen : Nat) (posn % s.blkLen) posn) d = .ok next ∧ _
  split at cursor
  · next start =>
      rw [if_pos start]
      obtain ⟨next, written, kept, moved, same⟩ :=
        saaWbytes_eq (stores.writesTo _ _ _) cursor within d
      have unread : SameReader s next :=
        ⟨same.elemLen, same.blkLen, same.rblk, same.rpos, same.rptr⟩
      exact ⟨next, written, kept, moved, unread⟩
  · next middle =>
      rw [if_neg middle]
      obtain ⟨next, written, kept, moved, same⟩ :=
        saaWbytes_eq (stores.writesTo _ _ _) cursor within d
      have unread : SameReader s next :=
        ⟨same.elemLen, same.blkLen, same.rblk, same.rpos, same.rptr⟩
      exact ⟨next, written, kept, moved, unread⟩

theorem saaFread_eq (stores : s.Stores content) (posn len : Nat) (fits : posn + len < 2 ^ 64)
    (within : posn + len ≤ content.length) :
    ∃ rblk rpos rptr, saaFread s posn len =
        .ok ((content.drop posn).take len, s.movedTo rblk rpos rptr) ∧
      (s.movedTo rblk rpos rptr).ReadsAt (posn + len) := by
  have start : (s.movedTo (posn / s.blkLen) (posn % s.blkLen) posn).ReadsAt posn := by
    refine ⟨rfl, ?_, Nat.le_of_lt (Nat.mod_lt posn stores.blkLen)⟩
    change posn = posn / s.blkLen * s.blkLen + posn % s.blkLen
    rw [Nat.mul_comm, Nat.div_add_mod]
  rw [saaFread, if_pos (by rw [stores.datalen, sizeSum_of_lt fits]; exact within), locate_eq]
  exact saaRnbytes_eq (stores.movedTo _ _ _) start len fits within

theorem copyIn_advance (s : Saa) (blk : Int) (pos len : Nat) (d : List UInt8) :
    copyIn (advance s len) blk pos d = (copyIn s blk pos d).map fun s => advance s len := by
  have ptrs : (advance s len).blkPtrs = s.blkPtrs := rfl
  have blkLen : (advance s len).blkLen = s.blkLen := rfl
  rw [copyIn, copyIn, ptrs, blkLen]
  split
  · cases s.blkPtrs blk.toNat <;> rfl
  · rfl

theorem Saa.WritesAt.mod_elemLen (writes : s.WritesAt place) (dvd : s.elemLen ∣ s.blkLen) :
    place % s.elemLen = s.wpos % s.elemLen := by
  obtain ⟨count, whole⟩ := dvd
  have cursor : (place : Int) = s.wpos + s.elemLen * (count * s.wblk) := by
    rw [writes.cursor, whole, Int.natCast_mul, Int.add_comm, Int.mul_comm, Int.mul_assoc]
  have same : (place : Int) % s.elemLen = (s.wpos : Int) % s.elemLen := by
    rw [cursor, Int.add_mul_emod_self_left]
  exact_mod_cast same

theorem saaWstruct_assertion (stores : s.Stores content) (writes : s.WritesAt place)
    (unaligned : place % s.elemLen ≠ 0) : saaWstruct s = .error .assertion := by
  rw [writes.mod_elemLen stores.elem] at unaligned
  rw [saaWstruct, if_neg unaligned]

/-- A structure goes to the cursor, or to the start of the next block when this one is full. -/
theorem saaWstruct_unfold (stores : s.Stores content) (writes : s.WritesAt place)
    (positive : 0 < s.elemLen) (aligned : place % s.elemLen = 0) :
    saaWstruct s = (if s.wpos = s.blkLen then nextBlock s else .ok s).map
      fun s => ((s.wblk, s.wpos), advance s s.elemLen) := by
  have fitted : s.elemLen ≤ s.blkLen := Nat.le_of_dvd stores.blkLen stores.elem
  rw [writes.mod_elemLen stores.elem] at aligned
  rw [saaWstruct, if_pos aligned]
  by_cases full : s.wpos = s.blkLen
  · have ended : s.length < s.wptr + s.elemLen ↔ s.length ≤ s.wptr := by
      refine ⟨fun short => ?_, fun short => by omega⟩
      by_contra inside
      have length : (s.length : Int) = s.nblks * s.blkLen := by exact_mod_cast stores.length
      have cursor := writes.cursor
      have wptr := writes.wptr
      have start : ((s.wblk + 1) * s.blkLen : Int) = s.wblk * s.blkLen + s.blkLen := by
        rw [Int.add_mul, Int.one_mul]
      have before : s.wblk + 1 < s.nblks := by
        apply Int.lt_of_mul_lt_mul_right (a := (s.blkLen : Int)) _ (Int.natCast_nonneg _)
        omega
      have next : (s.wblk + 1 + 1) * (s.blkLen : Int) ≤ s.nblks * s.blkLen :=
        Int.mul_le_mul_of_nonneg_right before (Int.natCast_nonneg _)
      rw [Int.add_mul, Int.one_mul] at next
      omega
    rw [if_pos full, if_pos (by omega), if_pos full, nextBlock]
    by_cases last : s.length ≤ s.wptr
    · rw [if_pos last, if_pos (ended.mpr last)]
      cases saaExtend s <;> rfl
    · rw [if_neg last, if_neg (fun short => last (ended.mp short))]
      rfl
  · have room : ¬ s.blkLen < s.wpos + s.elemLen :=
      fun crosses => full (eq_of_aligned stores.elem writes.wpos aligned crosses)
    rw [if_neg full, if_neg room]
    rfl

/-- The place that is returned for a structure is the place of the cursor. -/
theorem saaWstruct_eq (stores : s.Stores content) (writes : s.WritesAt place)
    (within : place ≤ content.length) (positive : 0 < s.elemLen)
    (aligned : place % s.elemLen = 0) {d : List UInt8} (filled : d.length = s.elemLen) :
    ∃ blk pos middle next, saaWstruct s = .ok ((blk, pos), middle) ∧
      copyIn middle blk pos d = .ok next ∧ middle.elemLen = s.elemLen ∧
      next.Stores (overwrite content place d) ∧
      next.WritesAt (place + d.length) ∧ SameReader s next := by
  have some : d ≠ [] := List.length_pos_iff.mp (by omega)
  have ready : ∃ start, (if s.wpos = s.blkLen then nextBlock s else .ok s) = .ok start ∧
      start.Stores content ∧ start.WritesAt place ∧ SameReader s start ∧
      start.wpos + d.length ≤ start.blkLen := by
    have fitted : s.elemLen ≤ s.blkLen := Nat.le_of_dvd stores.blkLen stores.elem
    split
    · next full =>
        obtain ⟨start, moved, kept, cursor, same, zero⟩ := stores.nextBlock writes full
        refine ⟨start, moved, kept, cursor, same, ?_⟩
        rw [zero, same.blkLen]
        omega
    · next room =>
        refine ⟨s, rfl, stores, writes, SameReader.refl s, ?_⟩
        by_contra crosses
        rw [writes.mod_elemLen stores.elem] at aligned
        exact room (eq_of_aligned stores.elem writes.wpos aligned (by omega))
  obtain ⟨start, moved, kept, cursor, same, fits⟩ := ready
  obtain ⟨next, copied, held, last, still, -⟩ := kept.write cursor within some fits
  refine ⟨start.wblk, start.wpos, advance start s.elemLen, next, ?_, ?_, same.elemLen, held, last,
    same.trans still⟩
  · rw [saaWstruct_unfold stores writes positive aligned, moved]
    change Except.ok ((start.wblk, start.wpos), advance start start.elemLen) = _
    rw [same.elemLen]
  · rw [copyIn_advance, ← filled]
    exact copied

/-- The calls that other files make; a structure is filled by its caller. -/
inductive SaaCall where
  | wbytes (data : List UInt8)
  | wstruct (fill : Nat → UInt8)
  | fwrite (posn : Nat) (data : List UInt8)
  | rewind
  | rstruct
  | rbytes (len : Nat)
  | rnbytes (len : Nat)
  | fread (posn len : Nat)
  | fpwrite

/-- A call returns the bytes that it reads, or nothing for a null pointer or no result. -/
def saaCall (s : Saa) : SaaCall → Except SaaFault (Option (List UInt8) × Saa)
  | .wbytes data => (saaWbytes s data).map fun s => (none, s)
  | .wstruct fill => do
      let ((blk, pos), s) ← saaWstruct s
      let s ← copyIn s blk pos ((List.range s.elemLen).map fill)
      pure (none, s)
  | .fwrite posn data => (saaFwrite s posn data).map fun s => (none, s)
  | .rewind => .ok (none, saaRewind s)
  | .rstruct => saaRstruct s
  | .rbytes len => saaRbytes s len
  | .rnbytes len => (saaRnbytes s len).map fun (bytes, s) => (some bytes, s)
  | .fread posn len => (saaFread s posn len).map fun (bytes, s) => (some bytes, s)
  | .fpwrite => (saaFpwrite s).map fun (bytes, s) => (some bytes, s)

/-- What the array is for: bytes behind each other, and two positions. -/
structure ByteFile where
  content : List UInt8
  wptr : Nat
  rptr : Nat

def ByteFile.write (file : ByteFile) (posn : Nat) (data : List UInt8) : ByteFile :=
  { file with content := overwrite file.content posn data, wptr := posn + data.length }

def ByteFile.read (file : ByteFile) (posn len : Nat) : Option (List UInt8) × ByteFile :=
  (some ((file.content.drop posn).take len), { file with rptr := posn + len })

/-- Nothing but the assertions of the source can fail. -/
def ByteFile.call (elemLen : Nat) (file : ByteFile) :
    SaaCall → Except SaaFault (Option (List UInt8) × ByteFile)
  | .wbytes data => .ok (none, file.write file.wptr data)
  | .wstruct fill =>
      if file.wptr % elemLen = 0 then
        .ok (none, file.write file.wptr ((List.range elemLen).map fill))
      else .error .assertion
  | .fwrite posn data =>
      if posn ≤ file.content.length then .ok (none, file.write posn data) else .error .assertion
  | .rewind => .ok (none, { file with rptr := 0 })
  | .rstruct =>
      if file.content.length < file.rptr + elemLen then .ok (none, file)
      else if file.rptr % elemLen = 0 then .ok (file.read file.rptr elemLen)
      else .error .assertion
  | .rbytes len =>
      if file.content.length ≤ file.rptr then .ok (none, file)
      else .ok (file.read file.rptr (readable (blkLenOf elemLen) file.content file.rptr len))
  | .rnbytes len =>
      if file.rptr + len ≤ file.content.length then .ok (file.read file.rptr len)
      else .error .assertion
  | .fread posn len =>
      if posn + len ≤ file.content.length then .ok (file.read posn len) else .error .assertion
  | .fpwrite => .ok (file.read 0 file.content.length)

/-- A position and a length that a read adds fit a `size_t`. -/
def ByteFile.Fits (file : ByteFile) : SaaCall → Prop
  | .rnbytes len => file.rptr + len < 2 ^ 64
  | .fread posn len => posn + len < 2 ^ 64
  | _ => True

/-- The array stands for the file. -/
def Refined (elemLen : Nat) (s : Saa) (file : ByteFile) : Prop :=
  s.Holds file.content file.wptr file.rptr ∧ s.elemLen = elemLen ∧ s.blkLen = blkLenOf elemLen

variable {elemLen : Nat} {file : ByteFile}

/-- A write that leaves the readers alone is a write to the file. -/
theorem Refined.write {next : Saa} (refined : Refined elemLen s file) {posn : Nat}
    {data : List UInt8} (within : posn ≤ file.content.length)
    (kept : next.Stores (overwrite file.content posn data))
    (moved : next.WritesAt (posn + data.length)) (same : SameReader s next) :
    Refined elemLen next (file.write posn data) := by
  have grown : (overwrite file.content posn data).length =
      max file.content.length (posn + data.length) := length_overwrite within
  have rplace := refined.1.rplace
  refine ⟨⟨kept, moved, refined.1.reads.of_same same, ?_, ?_⟩,
    same.elemLen.trans refined.2.1, same.blkLen.trans refined.2.2⟩
  · change posn + data.length ≤ (overwrite file.content posn data).length
    omega
  · change file.rptr ≤ (overwrite file.content posn data).length
    omega

/-- A moved read cursor is the cursor of the file after a read. -/
theorem Refined.read (refined : Refined elemLen s file) {posn len rblk rpos rptr : Nat}
    (within : posn + len ≤ file.content.length)
    (moved : (s.movedTo rblk rpos rptr).ReadsAt (posn + len)) :
    Refined elemLen (s.movedTo rblk rpos rptr) (file.read posn len).2 :=
  ⟨⟨refined.1.stores.movedTo _ _ _, refined.1.writes.movedTo _ _ _, moved, refined.1.wplace,
    within⟩, refined.2⟩

/-- A call returns what the file returns, and it keeps the two together. -/
def SameAnswer (elemLen : Nat) (answer : Option (List UInt8) × Saa)
    (expected : Option (List UInt8) × ByteFile) : Prop :=
  answer.1 = expected.1 ∧ Refined elemLen answer.2 expected.2

/-- Every call whose sums fit answers as the file does. -/
theorem saaCall_agree (positive : 0 < elemLen) (refined : Refined elemLen s file) {call : SaaCall}
    (fits : file.Fits call) :
    Agree (SameAnswer elemLen) (saaCall s call) (file.call elemLen call) := by
  have holds := refined.1
  have stores := holds.stores
  have elem := refined.2.1
  have datalen := stores.datalen
  subst elem
  cases call with
  | wbytes data =>
      obtain ⟨next, written, kept, moved, same⟩ :=
        saaWbytes_eq stores holds.writes holds.wplace data
      rw [saaCall, written]
      exact .ok ⟨rfl, refined.write holds.wplace kept moved same⟩
  | wstruct fill =>
      rw [ByteFile.call]
      split
      · next aligned =>
          have size : ((List.range s.elemLen).map fill).length = s.elemLen := by
            rw [List.length_map, List.length_range]
          obtain ⟨blk, pos, middle, next, placed, copied, width, kept, moved, same⟩ :=
            saaWstruct_eq stores holds.writes holds.wplace positive aligned size
          have called : saaCall s (.wstruct fill) = .ok (none, next) := by
            rw [saaCall, placed]
            simp only [bind, Except.bind]
            rw [width, copied]
            rfl
          rw [called]
          exact .ok ⟨rfl, refined.write holds.wplace kept moved same⟩
      · next unaligned =>
          rw [saaCall, saaWstruct_assertion stores holds.writes unaligned]
          exact .error _
  | fwrite posn data =>
      rw [ByteFile.call, saaCall]
      split
      · next within =>
          obtain ⟨next, written, kept, moved, same⟩ := saaFwrite_eq stores posn data within
          rw [written]
          exact .ok ⟨rfl, refined.write within kept moved same⟩
      · next beyond =>
          rw [saaFwrite, if_neg (by omega)]
          exact .error _
  | rewind =>
      exact .ok ⟨rfl, ⟨stores.movedTo 0 0 0, holds.writes.movedTo 0 0 0, saaRewind_readsAt s,
        holds.wplace, Nat.zero_le _⟩, refined.2⟩
  | rstruct =>
      rw [ByteFile.call, saaCall]
      split
      · next short =>
          rw [saaRstruct_end stores holds.reads short]
          exact .ok ⟨rfl, refined⟩
      · next inside =>
          have room := Nat.le_of_not_lt inside
          split
          · next aligned =>
              obtain ⟨_, _, _, read, moved⟩ :=
                saaRstruct_eq stores holds.reads positive room aligned
              rw [read]
              exact .ok ⟨rfl, refined.read room moved⟩
          · next unaligned =>
              rw [saaRstruct_assertion stores holds.reads room unaligned]
              exact .error _
  | rbytes len =>
      rw [ByteFile.call, saaCall, ← refined.2.2]
      split
      · next ended =>
          rw [saaRbytes_end stores holds.reads len ended]
          exact .ok ⟨rfl, refined⟩
      · next inside =>
          obtain ⟨_, _, _, read, moved⟩ :=
            saaRbytes_eq stores holds.reads len (Nat.lt_of_not_le inside)
          have left : readable s.blkLen file.content file.rptr len ≤
              file.content.length - file.rptr :=
            Nat.le_trans (Nat.min_le_left _ _) (Nat.min_le_right _ _)
          rw [read]
          exact .ok ⟨rfl, refined.read (by omega) moved⟩
  | rnbytes len =>
      rw [ByteFile.call, saaCall]
      split
      · next within =>
          obtain ⟨_, _, _, read, moved⟩ := saaRnbytes_eq stores holds.reads len fits within
          rw [read]
          exact .ok ⟨rfl, refined.read within moved⟩
      · next beyond =>
          have sum : sizeSum s.rptr len = file.rptr + len := by
            rw [holds.reads.rptr]
            exact sizeSum_of_lt fits
          rw [saaRnbytes, if_neg (by omega)]
          exact .error _
  | fread posn len =>
      rw [ByteFile.call, saaCall]
      split
      · next within =>
          obtain ⟨_, _, _, read, moved⟩ := saaFread_eq stores posn len fits within
          rw [read]
          exact .ok ⟨rfl, refined.read within moved⟩
      · next beyond =>
          have sum : sizeSum posn len = posn + len := sizeSum_of_lt fits
          rw [saaFread, if_neg (by omega)]
          exact .error _
  | fpwrite =>
      obtain ⟨rblk, rpos, rptr, read, moved⟩ := saaFpwrite_eq stores
      have whole : (file.content.drop 0).take file.content.length = file.content := by
        rw [List.drop_zero, List.take_length]
      rw [ByteFile.call, saaCall, read]
      refine .ok ⟨congrArg some whole.symm, refined.read (Nat.le_of_eq (Nat.zero_add _)) ?_⟩
      rw [Nat.zero_add]
      exact moved

/-- A run keeps the answers of its calls. -/
def saaMachine : Machine (List (Option (List UInt8)) × Saa) SaaCall SaaFault where
  step state call := (saaCall state.2 call).map fun answer => (state.1 ++ [answer.1], answer.2)

def fileMachine (elemLen : Nat) :
    Machine (List (Option (List UInt8)) × ByteFile) SaaCall SaaFault where
  step state call :=
    (state.2.call elemLen call).map fun answer => (state.1 ++ [answer.1], answer.2)

/-- Two runs have given the same answers so far. -/
def SameRun (elemLen : Nat) (state : List (Option (List UInt8)) × Saa)
    (expected : List (Option (List UInt8)) × ByteFile) : Prop :=
  state.1 = expected.1 ∧ Refined elemLen state.2 expected.2

theorem saa_refines (positive : 0 < elemLen) :
    saaMachine.RefinesWhile (fun state call => state.2.Fits call) (fileMachine elemLen)
      (SameRun elemLen) fun call => [call] := by
  intro state expected call same fits
  rw [run_singleton]
  apply (saaCall_agree positive same.2 fits).map
  intro answer reply held
  exact ⟨congrArg₂ (fun log bytes => log ++ [bytes]) same.1 held.1, held.2⟩

/-- The assertions are the only faults of the file. -/
theorem ByteFile.call_fault {call : SaaCall} {fault : SaaFault}
    (stopped : file.call elemLen call = .error fault) : fault = .assertion := by
  cases call <;> rw [ByteFile.call] at stopped <;> (try split at stopped) <;>
    (try split at stopped) <;> cases stopped <;> rfl

/-- In a run of the file, every sum of a position and a length fits a `size_t`. -/
def FitsAlong (elemLen : Nat) (calls : List SaaCall) : Prop :=
  (fileMachine elemLen).Along (fun state call => state.2.Fits call) ([], ⟨[], 0, 0⟩) calls

/-- Whatever is called, the array answers as the file, and only an assertion can fail, as long as
the positions and lengths of the reads fit. -/
theorem saaRun_eq (elemLen : Nat) (positive : 0 < elemLen) (calls : List SaaCall)
    (fits : FitsAlong elemLen calls) :
    (saaMachine.run ([], saaInit elemLen) calls).map Prod.fst =
        ((fileMachine elemLen).run ([], ⟨[], 0, 0⟩) calls).map Prod.fst ∧
      ∀ fault, saaMachine.run ([], saaInit elemLen) calls = .error fault → fault = .assertion := by
  have start : SameRun elemLen ([], saaInit elemLen) ([], ⟨[], 0, 0⟩) :=
    ⟨rfl, saaInit_holds positive, rfl, rfl⟩
  have agree := (saa_refines positive).run start fits
  rw [List.flatMap_singleton'] at agree
  constructor
  · exact agree.map_eq fun state expected same => same.1
  · intro fault stopped
    rw [stopped] at agree
    obtain ⟨-, call, -, middle, -, -, failed⟩ :=
      exists_step_of_run_error (fileMachine elemLen) agree.error_of_error
    change (middle.2.call elemLen call).map _ = _ at failed
    cases called : middle.2.call elemLen call with
    | ok reply =>
        rw [called] at failed
        cases failed
    | error found =>
        rw [called] at failed
        cases failed
        exact ByteFile.call_fault called

theorem saaRun_eq_three : 0 < 3 ∧
    (saaMachine.run ([], saaInit 3) [.wbytes [7, 8, 9], .fwrite 1 [5, 6, 4], .fread 2 2, .rewind,
      .rstruct, .rbytes 8, .rbytes 8]).map Prod.fst =
        .ok [none, none, some [6, 4], none, some [7, 5, 6], some [4], none] := by
  refine ⟨by decide, (saaRun_eq 3 (by decide) _ ?_).1⟩
  have sum : 2 + 2 < 2 ^ 64 := by decide
  iterate 2
    refine (along_cons_iff _).mpr ⟨trivial, fun _ stepped => ?_⟩
    cases stepped
  refine (along_cons_iff _).mpr ⟨sum, fun _ stepped => ?_⟩
  cases stepped
  iterate 4
    refine (along_cons_iff _).mpr ⟨trivial, fun _ stepped => ?_⟩
    cases stepped
  exact along_nil _ _

end Projs.Nasmlib

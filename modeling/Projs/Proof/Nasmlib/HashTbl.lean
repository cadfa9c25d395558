import Mathlib.Data.Nat.Bitwise
import Projs.Construction.Nasmlib.HashTbl
import Projs.Library.OddStride
import Projs.Library.ProbeTable
import Projs.Proof.Nasmlib.Crc64

namespace Projs.Nasmlib
open ProbeTable

variable {Data Class : Type} {power : Nat}

theorem hashPos_eq (hash : UInt64) (power : Nat) :
    hashPos hash (hashMask (2 ^ power)) = hash.toNat % 2 ^ power :=
  Nat.and_two_pow_sub_one_eq_mod _ _

theorem hashPosNext_eq (pos inc power : Nat) :
    hashPosNext pos inc (hashMask (2 ^ power)) = (pos + inc) % 2 ^ power :=
  Nat.and_two_pow_sub_one_eq_mod _ _

theorem hashInc_odd (hash : UInt64) (mask : Nat) : hashInc hash mask % 2 = 1 := by
  rw [hashInc]
  simp [Nat.or_mod_two_eq_one]

/-- The places that a hash goes through. -/
def nodeProbe (power : Nat) : Probe UInt64 (2 ^ power) where
  place := fun hash =>
    OddStride.place (2 ^ power) hash.toNat (hashInc hash (hashMask (2 ^ power)))
  inside := fun hash => OddStride.place_lt (Nat.two_pow_pos power) hash.toNat _
  covers := fun hash _ => OddStride.exists_place_eq (hashInc_odd hash _)

theorem nodeProbe_zero (hash : UInt64) (power : Nat) :
    hashPos hash (hashMask (2 ^ power)) = (nodeProbe power).place hash 0 := by
  rw [hashPos_eq]
  exact (OddStride.place_zero _ _ _).symm

theorem nodeProbe_succ (hash : UInt64) (power index : Nat) :
    hashPosNext ((nodeProbe power).place hash index) (hashInc hash (hashMask (2 ^ power)))
      (hashMask (2 ^ power)) = (nodeProbe power).place hash (index + 1) := by
  rw [hashPosNext_eq]
  exact OddStride.place_succ _ _ _ _

/-- A search tells keys apart by a class of theirs, which also fixes the hash. -/
structure Keying (Class : Type) where
  hashOf : CString → UInt64
  same : CString → CString → Bool
  classOf : CString → Class
  same_iff : ∀ key other, same key other = true ↔ classOf other = classOf key
  hash_eq : ∀ key other, classOf other = classOf key → hashOf other = hashOf key

/-- The plain search tells all keys apart. -/
def exactKeying : Keying (List UInt8) where
  hashOf := hashCalc
  same := fun key other => key.bytes = other.bytes
  classOf := CString.bytes
  same_iff := fun key other => by rw [decide_eq_true_iff, eq_comm]
  hash_eq := fun key other same => congrArg (crc64 CRC64_INIT) same

theorem stricmpBytes_eq_zero_iff {first second : List UInt8} (firstEnds : 0 ∉ first)
    (secondEnds : 0 ∉ second) :
    stricmpBytes first second = 0 ↔ second.map nasmTolower = first.map nasmTolower := by
  have positive : ∀ c : UInt8, c ≠ 0 → (nasmTolower c).toNat ≠ 0 := by
    intro c nonzero zero
    apply nonzero
    have low : nasmTolower c = 0 := UInt8.toNat_inj.mp zero
    rw [nasmTolower] at low
    split at low
    · next letter =>
        have value := congrArg UInt8.toNat low
        have above := UInt8.le_iff_toNat_le.mp letter.1
        have below := UInt8.le_iff_toNat_le.mp letter.2
        simp only [UInt8.toNat_add, UInt8.reduceToNat] at value above below
        omega
    · exact low
  induction first generalizing second with
  | nil =>
      cases second with
      | nil => simp [stricmpBytes]
      | cons c2 second =>
          have nonzero := positive c2 fun zero => secondEnds (by simp [zero])
          simp [stricmpBytes, nonzero]
  | cons c1 first inductionHypothesis =>
      cases second with
      | nil =>
          have nonzero := positive c1 fun zero => firstEnds (by simp [zero])
          simp [stricmpBytes, nonzero]
      | cons c2 second =>
          rw [List.mem_cons, not_or] at firstEnds secondEnds
          have rest := inductionHypothesis firstEnds.2 secondEnds.2
          rw [stricmpBytes, List.map_cons, List.map_cons, List.cons.injEq]
          split
          · next same =>
              exact rest.trans (and_iff_right (UInt8.toNat_inj.mp same).symm).symm
          · next different =>
              apply iff_of_false
              · omega
              · exact fun same => different (congrArg UInt8.toNat same.1.symm)

/-- The other search tells keys apart by their lower case. -/
def caselessKeying : Keying (List UInt8) where
  hashOf := hashCalci
  same := fun key other => nasmStricmp key other = 0
  classOf := fun key => key.bytes.map nasmTolower
  same_iff := fun key other => by
    rw [decide_eq_true_iff]
    exact stricmpBytes_eq_zero_iff key.terminated other.terminated
  hash_eq := fun key other same => by
    rw [hashCalci, hashCalci, crc64i_eq, crc64i_eq, same]

variable (keying : Keying Class)

def nodeClass (node : HashTblNode Data) : Class := keying.classOf node.key

/-- A sound table has half of its places free at least, keeps the hash of every key, and reaches
each of its entries. -/
structure Sound (head : HashTable Data) (entries : List (CString × Data)) (power : Nat) : Prop where
  size : head.size = 2 ^ power
  maxLoad : head.maxLoad = 2 ^ power / 2
  load : head.load = (occupied head.table (2 ^ power)).length
  room : head.load ≤ head.maxLoad
  hashes : ∀ node ∈ occupied head.table (2 ^ power), node.hash = keying.hashOf node.key
  settled : Settled (nodeClass keying) HashTblNode.hash (nodeProbe power) head.table
  holds : ((occupied head.table (2 ^ power)).map fun node => (node.key, node.data)).Perm entries

variable {keying} {head : HashTable Data} {entries : List (CString × Data)}

theorem Sound.length_lt (sound : Sound keying head entries power) :
    (occupied head.table (2 ^ power)).length < 2 ^ power := by
  have positive := Nat.two_pow_pos power
  have load := sound.load
  have room := sound.room
  have half := sound.maxLoad
  omega

/-- The loop of a search goes on past nodes with other keys. -/
theorem hashFindFrom_skip {same : CString → CString → Bool} {tbl : Nat → Option (HashTblNode Data)}
    {hash : UInt64} {key : CString} {start : Nat} (distance steps : Nat)
    (passes : ∀ offset, offset < distance → ∃ node,
      tbl ((nodeProbe power).place hash (start + offset)) = some node ∧ same key node.key = false) :
    hashFindFrom same tbl hash key (hashInc hash (hashMask (2 ^ power))) (hashMask (2 ^ power))
        (distance + steps) ((nodeProbe power).place hash start) =
      hashFindFrom same tbl hash key (hashInc hash (hashMask (2 ^ power))) (hashMask (2 ^ power))
        steps ((nodeProbe power).place hash (start + distance)) := by
  induction distance generalizing start with
  | zero => rw [Nat.zero_add, Nat.add_zero]
  | succ distance inductionHypothesis =>
      obtain ⟨node, holds, differs⟩ := passes 0 (Nat.zero_lt_succ distance)
      rw [Nat.add_zero] at holds
      rw [Nat.succ_add, hashFindFrom, holds]
      change (if hash = node.hash ∧ same key node.key = true then _ else _) = _
      rw [if_neg (fun both => by rw [differs] at both; exact absurd both.2 Bool.false_ne_true),
        nodeProbe_succ, inductionHypothesis, Nat.add_right_comm, Nat.add_assoc]
      intro offset before
      rw [Nat.add_assoc, Nat.add_comm 1]
      exact passes (offset + 1) (Nat.succ_lt_succ before)

/-- Within the table, the loop of a search gets past the nodes with other keys. -/
theorem hashFindFrom_walk {same : CString → CString → Bool} {tbl : Nat → Option (HashTblNode Data)}
    {hash : UInt64} {key : CString} {distance steps : Nat} (below : distance < steps)
    (passes : ∀ offset, offset < distance → ∃ node,
      tbl ((nodeProbe power).place hash offset) = some node ∧ same key node.key = false) :
    ∃ left,
      hashFindFrom same tbl hash key (hashInc hash (hashMask (2 ^ power))) (hashMask (2 ^ power))
        steps (hashPos hash (hashMask (2 ^ power))) =
      hashFindFrom same tbl hash key (hashInc hash (hashMask (2 ^ power))) (hashMask (2 ^ power))
        (left + 1) ((nodeProbe power).place hash distance) := by
  have walk : hashFindFrom same tbl hash key (hashInc hash (hashMask (2 ^ power)))
      (hashMask (2 ^ power)) (distance + (steps - distance - 1 + 1))
        ((nodeProbe power).place hash 0) = hashFindFrom same tbl hash key
          (hashInc hash (hashMask (2 ^ power))) (hashMask (2 ^ power)) (steps - distance - 1 + 1)
            ((nodeProbe power).place hash (0 + distance)) := by
    apply hashFindFrom_skip
    intro offset before
    rw [Nat.zero_add]
    exact passes offset before
  have whole : distance + (steps - distance - 1 + 1) = steps := by omega
  rw [whole, Nat.zero_add] at walk
  exact ⟨steps - distance - 1, by rw [nodeProbe_zero]; exact walk⟩

/-- A search for a key of the table ends at the node of its class. -/
theorem Sound.find_found (sound : Sound keying head entries power) {entry : CString × Data}
    {key : CString} (member : entry ∈ entries)
    (same : keying.classOf entry.1 = keying.classOf key) :
    ∃ place node, hashFindBy keying.hashOf keying.same head key = some (.found place) ∧
      place < head.size ∧ head.table place = some node ∧ (node.key, node.data) = entry := by
  obtain ⟨node, inside, rfl⟩ := List.mem_map.mp (sound.holds.mem_iff.mpr member)
  obtain ⟨index, below, passes, found⟩ := sound.settled.exists_found inside
  have start : keying.hashOf key = node.hash := by
    rw [sound.hashes node inside]
    exact (keying.hash_eq key node.key same).symm
  have others : ∀ offset, offset < index → ∃ other,
      head.table ((nodeProbe power).place node.hash offset) = some other ∧
        keying.same key other.key = false := by
    intro offset before
    obtain ⟨other, holds, differs⟩ := passes offset before
    refine ⟨other, holds, ?_⟩
    rw [Bool.eq_false_iff, Ne, keying.same_iff]
    exact fun equal => differs (equal.trans same.symm)
  obtain ⟨left, walk⟩ := hashFindFrom_walk below others
  refine ⟨_, node, ?_, ?_, found, rfl⟩
  · rw [hashFindBy, sound.size, start, walk, hashFindFrom, found]
    exact if_pos ⟨rfl, (keying.same_iff key node.key).mpr same⟩
  · rw [sound.size]
    exact (nodeProbe power).inside _ _

/-- A search for another key ends at the first free place of the key. -/
theorem Sound.find_missing (sound : Sound keying head entries power) {key : CString}
    (absent : ∀ entry ∈ entries, keying.classOf entry.1 ≠ keying.classOf key) :
    ∃ index, hashFindBy keying.hashOf keying.same head key =
        some (.missing ⟨keying.hashOf key, (nodeProbe power).place (keying.hashOf key) index⟩) ∧
      head.table ((nodeProbe power).place (keying.hashOf key) index) = none ∧
      ∀ earlier, earlier < index →
        (head.table ((nodeProbe power).place (keying.hashOf key) earlier)).isSome = true := by
  have others : ∀ node ∈ occupied head.table (2 ^ power),
      nodeClass keying node ≠ keying.classOf key :=
    fun node member => absent _ (sound.holds.mem_iff.mp (List.mem_map.mpr ⟨node, member, rfl⟩))
  obtain ⟨index, below, passes, free⟩ := exists_missing sound.length_lt others
  have differing : ∀ offset, offset < index → ∃ other,
      head.table ((nodeProbe power).place (keying.hashOf key) offset) = some other ∧
        keying.same key other.key = false := by
    intro offset before
    obtain ⟨other, holds, differs⟩ := passes offset before
    refine ⟨other, holds, ?_⟩
    rw [Bool.eq_false_iff, Ne, keying.same_iff]
    exact differs
  obtain ⟨left, walk⟩ := hashFindFrom_walk below differing
  refine ⟨index, ?_, free, ?_⟩
  · rw [hashFindBy, sound.size, walk, hashFindFrom, free]
  · intro earlier before
    obtain ⟨other, holds, -⟩ := passes earlier before
    rw [holds]
    rfl

/-- The loop over the new table ends at the first free place. -/
theorem freeFrom_eq {newtbl : Nat → Option (HashTblNode Data)} {hash : UInt64} {start : Nat}
    (distance steps : Nat) (below : distance < steps)
    (free : newtbl ((nodeProbe power).place hash (start + distance)) = none)
    (passed : ∀ offset, offset < distance →
      (newtbl ((nodeProbe power).place hash (start + offset))).isSome = true) :
    freeFrom newtbl (hashInc hash (hashMask (2 ^ power))) (hashMask (2 ^ power)) steps
        ((nodeProbe power).place hash start) =
      some ((nodeProbe power).place hash (start + distance)) := by
  induction distance generalizing start steps with
  | zero =>
      cases steps with
      | zero => exact absurd below (Nat.lt_irrefl 0)
      | succ steps =>
          rw [Nat.add_zero] at free ⊢
          rw [freeFrom, free]
          rfl
  | succ distance inductionHypothesis =>
      cases steps with
      | zero => exact absurd below (Nat.not_lt_zero _)
      | succ steps =>
          obtain ⟨node, holds⟩ := Option.isSome_iff_exists.mp (passed 0 (Nat.zero_lt_succ distance))
          have next : start + (distance + 1) = start + 1 + distance := by omega
          rw [Nat.add_zero] at holds
          rw [next] at free ⊢
          rw [freeFrom, holds]
          change freeFrom newtbl _ _ steps (hashPosNext _ _ _) = _
          rw [nodeProbe_succ]
          apply inductionHypothesis steps (Nat.lt_of_succ_lt_succ below) free
          intro offset before
          rw [Nat.add_assoc, Nat.add_comm 1]
          exact passed (offset + 1) (Nat.succ_lt_succ before)

/-- A move writes the node to the first free place of its hash in the new table. -/
theorem moveNode_some {table newtbl : Nat → Option (HashTblNode Data)} {np last i : Nat}
    {op : HashTblNode Data} (holds : table i = some op)
    (room : (occupied newtbl (2 ^ power)).length < 2 ^ power) :
    ∃ index, newtbl ((nodeProbe power).place op.hash index) = none ∧
      (∀ earlier, earlier < index →
        (newtbl ((nodeProbe power).place op.hash earlier)).isSome = true) ∧
      moveNode table (2 ^ power) np (newtbl, last) i =
        some (update newtbl ((nodeProbe power).place op.hash index) op,
          if i = np then (nodeProbe power).place op.hash index else last) := by
  obtain ⟨index, below, free, passed⟩ := exists_first_free room op.hash
  refine ⟨index, free, passed, ?_⟩
  have walk : freeFrom newtbl (hashInc op.hash (hashMask (2 ^ power))) (hashMask (2 ^ power))
      (2 ^ power) ((nodeProbe power).place op.hash 0) =
        some ((nodeProbe power).place op.hash (0 + index)) := by
    apply freeFrom_eq index (2 ^ power) below
    · rw [Nat.zero_add]
      exact free
    · intro offset before
      rw [Nat.zero_add]
      exact passed offset before
  rw [moveNode, holds]
  change (freeFrom newtbl _ _ _ (hashPos op.hash (hashMask (2 ^ power)))).bind _ = _
  rw [nodeProbe_zero, walk, Nat.zero_add]
  rfl

/-- What the moves of the first places leave: the new table is settled, it holds their nodes, and
the pointer has followed the inserted node. -/
structure Moved (keying : Keying Class) (table newtbl : Nat → Option (HashTblNode Data))
    (place newPlace count power : Nat) : Prop where
  settled : Settled (nodeClass keying) HashTblNode.hash (nodeProbe power) newtbl
  holds : (occupied newtbl (2 ^ power)).Perm (occupied table count)
  follows : place < count → newtbl newPlace = table place

theorem Moved.next {table newtbl : Nat → Option (HashTblNode Data)}
    {place newPlace count size : Nat} (moved : Moved keying table newtbl place newPlace count power)
    (distinct : (occupied table size).Pairwise fun first second =>
      nodeClass keying first ≠ nodeClass keying second)
    (inside : count < size) (room : size < 2 ^ power) (present : (table place).isSome = true) :
    ∃ afterTbl after, moveNode table (2 ^ power) place (newtbl, newPlace) count =
        some (afterTbl, after) ∧ Moved keying table afterTbl place after (count + 1) power := by
  have grown := occupied_succ table count
  cases here : table count with
  | none =>
      refine ⟨newtbl, newPlace, by rw [moveNode, here], moved.settled, ?_, fun before => ?_⟩
      · rw [grown, here]
        exact moved.holds.trans (List.Perm.of_eq (List.append_nil _).symm)
      · apply moved.follows
        have other : place ≠ count := by
          rintro rfl
          rw [here] at present
          cases present
        omega
  | some op =>
      have few : (occupied newtbl (2 ^ power)).length < 2 ^ power := by
        rw [moved.holds.length_eq]
        have most : (occupied table count).length ≤ count := by
          simpa [occupied] using List.length_filterMap_le table (List.range count)
        omega
      obtain ⟨index, free, passed, step⟩ := moveNode_some here few
      have absent : ∀ other ∈ occupied newtbl (2 ^ power),
          nodeClass keying other ≠ nodeClass keying op := by
        intro other member same
        obtain ⟨earlier, before, holds⟩ := mem_occupied.mp (moved.holds.mem_iff.mp member)
        have equal := place_unique distinct (Nat.lt_trans before inside) inside holds here same
        omega
      refine ⟨_, _, step, moved.settled.update absent free passed, ?_, fun before => ?_⟩
      · rw [grown, here]
        exact (occupied_update ((nodeProbe power).inside _ _) free).trans
          ((moved.holds.cons op).trans (List.perm_append_singleton ..).symm)
      · rw [update]
        by_cases last : count = place
        · rw [if_pos last, if_pos rfl, ← last, here]
        · have kept := moved.follows (by omega)
          have other : newPlace ≠ (nodeProbe power).place op.hash index := by
            rintro rfl
            rw [← kept, free] at present
            cases present
          rw [if_neg last, if_neg other, kept]

theorem moveNode_foldlM {table : Nat → Option (HashTblNode Data)} {place size : Nat}
    (distinct : (occupied table size).Pairwise fun first second =>
      nodeClass keying first ≠ nodeClass keying second)
    (room : size < 2 ^ power) (present : (table place).isSome = true) (count : Nat)
    (inside : count ≤ size) :
    ∃ newtbl newPlace, (List.range count).foldlM (moveNode table (2 ^ power) place)
        (allocTable, place) = some (newtbl, newPlace) ∧
      Moved keying table newtbl place newPlace count power := by
  induction count with
  | zero =>
      refine ⟨allocTable, place, rfl, settled_empty, ?_, ?_⟩
      · exact List.Perm.of_eq occupied_empty
      · exact fun before => absurd before (Nat.not_lt_zero _)
  | succ count inductionHypothesis =>
      obtain ⟨newtbl, newPlace, ran, moved⟩ := inductionHypothesis (Nat.le_of_succ_le inside)
      obtain ⟨afterTbl, after, step, kept⟩ := moved.next distinct inside room present
      refine ⟨afterTbl, after, ?_, kept⟩
      rw [List.range_succ, List.foldlM_append, ran]
      change (moveNode table (2 ^ power) place (newtbl, newPlace) count).bind some = _
      rw [step]
      rfl

/-- After a failed search, an insertion adds the entry, whether or not the table is expanded, and
returns the place where its data can be found. -/
theorem Sound.add (sound : Sound keying head entries power) {key : CString} (data : Data)
    {index : Nat} (absent : ∀ entry ∈ entries, keying.classOf entry.1 ≠ keying.classOf key)
    (free : head.table ((nodeProbe power).place (keying.hashOf key) index) = none)
    (passed : ∀ earlier, earlier < index →
      (head.table ((nodeProbe power).place (keying.hashOf key) earlier)).isSome = true) :
    ∃ after place more, hashAdd head
        ⟨keying.hashOf key, (nodeProbe power).place (keying.hashOf key) index⟩ key data =
          some (after, place) ∧
      Sound keying after (entries ++ [(key, data)]) more ∧
      after.table place = some ⟨keying.hashOf key, key, data⟩ := by
  let place := (nodeProbe power).place (keying.hashOf key) index
  let node : HashTblNode Data := ⟨keying.hashOf key, key, data⟩
  let table := update head.table place node
  have inside : place < 2 ^ power := (nodeProbe power).inside _ _
  have others : ∀ other ∈ occupied head.table (2 ^ power),
      nodeClass keying other ≠ nodeClass keying node :=
    fun other member => absent _ (sound.holds.mem_iff.mp (List.mem_map.mpr ⟨other, member, rfl⟩))
  have settled : Settled (nodeClass keying) HashTblNode.hash (nodeProbe power) table :=
    sound.settled.update others free passed
  have grown : (occupied table (2 ^ power)).Perm (node :: occupied head.table (2 ^ power)) :=
    occupied_update inside free
  have here : table place = some node := if_pos rfl
  have hashes : ∀ other ∈ occupied table (2 ^ power), other.hash = keying.hashOf other.key := by
    intro other member
    obtain rfl | member := List.mem_cons.mp (grown.mem_iff.mp member)
    · rfl
    · exact sound.hashes other member
  have listed : ((occupied table (2 ^ power)).map fun node => (node.key, node.data)).Perm
      (entries ++ [(key, data)]) :=
    (grown.map _).trans ((sound.holds.cons _).trans (List.perm_append_singleton ..).symm)
  have count : head.load + 1 = (occupied table (2 ^ power)).length := by
    rw [grown.length_eq, List.length_cons, sound.load]
  have half := sound.maxLoad
  have room := sound.room
  have positive := Nat.two_pow_pos power
  by_cases fits : head.load + 1 ≤ head.maxLoad
  · refine ⟨{ head with table, load := head.load + 1 }, place, power, ?_, ?_, here⟩
    · rw [hashAdd, if_neg (Nat.not_lt.mpr fits)]
      rfl
    · exact ⟨sound.size, sound.maxLoad, count, fits, hashes, settled, listed⟩
  · have double : hashExpand head.size = 2 ^ (power + 1) := by
      rw [sound.size, hashExpand, Nat.shiftLeft_eq, ← Nat.pow_add]
    have larger : 2 ^ power < 2 ^ (power + 1) :=
      Nat.pow_lt_pow_right (by decide) (Nat.lt_succ_self _)
    have present : (table place).isSome = true := by rw [here]; rfl
    obtain ⟨newtbl, newPlace, ran, moved⟩ :=
      moveNode_foldlM settled.distinct larger present (2 ^ power) (Nat.le_refl _)
    refine ⟨⟨newtbl, head.load + 1, 2 ^ (power + 1), hashMaxLoad (2 ^ (power + 1))⟩, newPlace,
      power + 1, ?_, ?_, (moved.follows inside).trans here⟩
    · rw [hashAdd, if_pos (Nat.not_le.mp fits), double, sound.size]
      change ((List.range (2 ^ power)).foldlM (moveNode table _ place) _).bind _ = _
      rw [ran]
      rfl
    · have most : hashMaxLoad (2 ^ (power + 1)) = 2 ^ (power + 1) / 2 := by
        rw [hashMaxLoad, HASH_MAX_LOAD, Nat.mul_one]
      refine ⟨rfl, most, ?_, ?_, ?_, moved.settled, (moved.holds.map _).trans listed⟩
      · rw [moved.holds.length_eq]
        exact count
      · change head.load + 1 ≤ hashMaxLoad (2 ^ (power + 1))
        rw [most, Nat.pow_succ]
        omega
      · exact fun other member => hashes other (moved.holds.mem_iff.mp member)

end Projs.Nasmlib

import Mathlib.Data.List.Induction
import Projs.Proof.Nasmlib.HashTbl

namespace Projs.Nasmlib
open ProbeTable

variable {Data Class : Type} {power : Nat} {keying : Keying Class} {head : HashTable Data}
  {entries kept : List (CString × Data)}

theorem isPower2_two_pow (power : Nat) : isPower2 (2 ^ power) = true := by
  rw [isPower2, Nat.and_two_pow_sub_one_eq_mod, Nat.mod_self]
  simp [Nat.pow_eq_zero]

theorem sound_init (keying : Keying Class) (power : Nat) :
    ∃ head : HashTable Data, hashInit (2 ^ power) = some head ∧ Sound keying head [] power := by
  have empty : occupied (allocTable : Nat → Option (HashTblNode Data)) (2 ^ power) = [] :=
    occupied_empty
  refine ⟨_, if_pos (isPower2_two_pow power), rfl, ?_, ?_, Nat.zero_le _, ?_, settled_empty, ?_⟩
  · change hashMaxLoad (2 ^ power) = _
    rw [hashMaxLoad, HASH_MAX_LOAD, Nat.mul_one]
  · exact (congrArg List.length empty).symm
  · intro node member
    change node ∈ occupied allocTable (2 ^ power) at member
    rw [empty] at member
    exact absurd member List.not_mem_nil
  · change ((occupied allocTable (2 ^ power)).map _).Perm _
    rw [empty]
    exact List.Perm.nil

/-- The callers search first, and they add what is not there. -/
def enter (hashOf : CString → UInt64) (same : CString → CString → Bool) (head : HashTable Data)
    (entry : CString × Data) : Option (HashTable Data) :=
  match hashFindBy hashOf same head entry.1 with
  | none => none
  | some (.found _) => some head
  | some (.missing insert) => (hashAdd head insert entry.1 entry.2).map Prod.fst

/-- What a caller reads where a search ended. -/
def entryAt (head : HashTable Data) : HashFound → Option (CString × Data)
  | .found place => (head.table place).map fun node => (node.key, node.data)
  | .missing _ => none

/-- The first entry with a key of the wanted class. -/
def firstEntry (same : CString → CString → Bool) (entries : List (CString × Data))
    (key : CString) : Option (CString × Data) :=
  entries.find? fun entry => same key entry.1

theorem firstEntry_eq_none_iff {key : CString} : firstEntry keying.same entries key = none ↔
    ∀ entry ∈ entries, keying.classOf entry.1 ≠ keying.classOf key := by
  rw [firstEntry, List.find?_eq_none]
  apply forall₂_congr
  intro entry _
  rw [keying.same_iff]

theorem firstEntry_some {key : CString} {entry : CString × Data}
    (first : firstEntry keying.same entries key = some entry) :
    entry ∈ entries ∧ keying.classOf entry.1 = keying.classOf key := by
  rw [firstEntry] at first
  have found := List.find?_some first
  exact ⟨List.mem_of_find?_eq_some first, (keying.same_iff key entry.1).mp found⟩

/-- A failed search leaves the hash of its key and a free node of the table. -/
def LeavesFree (hashOf : CString → UInt64) (head : HashTable Data) (key : CString)
    (result : HashFound) : Prop :=
  ∃ place, result = .missing ⟨hashOf key, place⟩ ∧ place < head.size ∧ head.table place = none

/-- A sound table answers with the first entry of the class, or with a free node. -/
theorem Sound.find (sound : Sound keying head entries power) (key : CString) :
    ∃ result, hashFindBy keying.hashOf keying.same head key = some result ∧
      entryAt head result = firstEntry keying.same entries key ∧
      (entryAt head result = none → LeavesFree keying.hashOf head key result) := by
  cases first : firstEntry keying.same entries key with
  | none =>
      obtain ⟨index, ended, free, -⟩ := sound.find_missing (firstEntry_eq_none_iff.mp first)
      refine ⟨_, ended, rfl, fun _ => ⟨_, rfl, ?_, free⟩⟩
      rw [sound.size]
      exact (nodeProbe power).inside _ _
  | some entry =>
      obtain ⟨member, equal⟩ := firstEntry_some first
      obtain ⟨place, node, ended, -, holds, same⟩ := sound.find_found member equal
      have answer : entryAt head (.found place) = some entry := by
        rw [entryAt, holds, Option.map_some, same]
      refine ⟨_, ended, answer, fun none => ?_⟩
      rw [answer] at none
      cases none

/-- An entered key changes nothing, and a new one is added behind the others. -/
theorem Sound.enter (sound : Sound keying head entries power) (entry : CString × Data) :
    ∃ after more, Nasmlib.enter keying.hashOf keying.same head entry = some after ∧
      Sound keying after (if firstEntry keying.same entries entry.1 = none then entries ++ [entry]
        else entries) more := by
  cases first : firstEntry keying.same entries entry.1 with
  | none =>
      have absent := firstEntry_eq_none_iff.mp first
      obtain ⟨index, ended, free, passed⟩ := sound.find_missing absent
      obtain ⟨after, place, more, added, kept, -⟩ := sound.add entry.2 absent free passed
      refine ⟨after, more, ?_, kept⟩
      rw [Nasmlib.enter, ended]
      change (hashAdd _ _ _ _).map Prod.fst = _
      rw [added]
      rfl
  | some found =>
      obtain ⟨member, equal⟩ := firstEntry_some first
      obtain ⟨place, node, ended, -⟩ := sound.find_found member equal
      refine ⟨head, power, ?_, sound⟩
      rw [Nasmlib.enter, ended]

/-- Entries are entered one after another into a new table. -/
def enterAll (hashOf : CString → UInt64) (same : CString → CString → Bool) (size : Nat)
    (entries : List (CString × Data)) : Option (HashTable Data) := do
  entries.foldlM (enter hashOf same) (← hashInit size)

theorem enterAll_sound (keying : Keying Class) (start : Nat) (entries : List (CString × Data)) :
    ∃ head kept power, enterAll keying.hashOf keying.same (2 ^ start) entries = some head ∧
      Sound keying head kept power ∧
      ∀ key, firstEntry keying.same kept key = firstEntry keying.same entries key := by
  obtain ⟨empty, made, sound⟩ :
      ∃ empty : HashTable Data, hashInit (2 ^ start) = some empty ∧ Sound keying empty [] start :=
    sound_init keying start
  have whole : ∀ entries : List (CString × Data),
      enterAll keying.hashOf keying.same (2 ^ start) entries =
        entries.foldlM (Nasmlib.enter keying.hashOf keying.same) empty := by
    intro entries
    rw [enterAll, made]
    rfl
  rw [whole]
  induction entries using List.reverseRecOn with
  | nil => exact ⟨empty, [], start, rfl, sound, fun _ => rfl⟩
  | append_singleton entries entry inductionHypothesis =>
      obtain ⟨head, kept, power, ran, sound, same⟩ := inductionHypothesis
      obtain ⟨after, more, step, next⟩ := sound.enter entry
      refine ⟨after, _, more, ?_, next, fun key => ?_⟩
      · rw [List.foldlM_append, ran]
        change (Nasmlib.enter keying.hashOf keying.same head entry).bind some = _
        rw [step]
        rfl
      · have last : firstEntry keying.same (entries ++ [entry]) key =
            (firstEntry keying.same kept key).or (firstEntry keying.same [entry] key) := by
          rw [same, firstEntry, List.find?_append]
          rfl
        rw [last]
        split
        · rw [firstEntry, List.find?_append]
          rfl
        · next present =>
            -- A key of the same class has found an earlier entry.
            cases here : firstEntry keying.same kept key with
            | some found => rfl
            | none =>
                have other : keying.same key entry.1 = false := by
                  rw [Bool.eq_false_iff, Ne, keying.same_iff]
                  intro equal
                  apply present
                  rw [firstEntry_eq_none_iff] at here ⊢
                  exact fun earlier member => (here earlier member).trans_eq equal.symm
                rw [Option.none_or, firstEntry, List.find?_cons_of_neg (by rw [other]; decide)]
                rfl

/-- The loop over a table ends at its next node. -/
theorem iterateFrom_eq (table : Nat → Option (HashTblNode Data)) (left np : Nat) :
    (iterateFrom table left np = none ∧ (List.range' np left).filterMap table = []) ∨
    ∃ node next rest, iterateFrom table left np = some (node, next) ∧ next + rest = np + left ∧
      np < next ∧
      (List.range' np left).filterMap table = node :: (List.range' next rest).filterMap table := by
  induction left generalizing np with
  | zero => exact Or.inl ⟨rfl, rfl⟩
  | succ left inductionHypothesis =>
      rw [iterateFrom, List.range'_succ]
      cases here : table np with
      | none =>
          rw [List.filterMap_cons_none here]
          obtain ended | ⟨node, next, rest, found, same, above, listed⟩ :=
            inductionHypothesis (np + 1)
          · exact Or.inl ended
          · exact Or.inr ⟨node, next, rest, found, by omega, by omega, listed⟩
      | some node =>
          rw [List.filterMap_cons_some here]
          exact Or.inr ⟨node, np + 1, left, rfl, by omega, by omega, rfl⟩

/-- What the callers see of the nodes: those before the first null pointer. -/
def untilNull {Value : Type} (pointee : Data → Option Value) :
    List (HashTblNode Data) → List (CString × Value)
  | [] => []
  | node :: rest =>
      match pointee node.data with
      | none => []
      | some value => (node.key, value) :: untilNull pointee rest

/-- Without null pointers, the callers see all nodes. -/
theorem untilNull_eq {Value : Type} {pointee : Data → Option Value}
    {nodes : List (HashTblNode Data)} (filled : ∀ node ∈ nodes, pointee node.data ≠ none) :
    (untilNull pointee nodes).map (fun entry => (entry.1, some entry.2)) =
      nodes.map fun node => (node.key, pointee node.data) := by
  induction nodes with
  | nil => rfl
  | cons node rest inductionHypothesis =>
      obtain ⟨first, others⟩ := List.forall_mem_cons.mp filled
      obtain ⟨value, points⟩ := Option.ne_none_iff_exists'.mp first
      rw [untilNull, List.map_cons, points]
      exact congrArg ((node.key, some value) :: ·) (inductionHypothesis others)

theorem iterateAll_eq {Value : Type} (pointee : Data → Option Value) (head : HashTable Data)
    (left steps : Nat) (iterator : Option Nat)
    (inside : iterator.getD 0 + left = head.size) (enough : left < steps) :
    iterateAll pointee head steps iterator =
      untilNull pointee ((List.range' (iterator.getD 0) left).filterMap head.table) := by
  induction steps generalizing left iterator with
  | zero => exact absurd enough (Nat.not_lt_zero _)
  | succ steps inductionHypothesis =>
      have rest : head.size - iterator.getD 0 = left := by omega
      rw [iterateAll, hashIterate, rest]
      obtain ⟨ended, listed⟩ | ⟨node, next, rest, found, same, above, listed⟩ :=
        iterateFrom_eq head.table left (iterator.getD 0)
      · rw [ended, listed]
        rfl
      · have later := inductionHypothesis rest (some next) (by
          change next + rest = head.size
          omega) (by omega)
        rw [found, listed, untilNull]
        change (match pointee node.data with
          | none => []
          | some value => (node.key, value) :: iterateAll pointee head steps (some next)) = _
        rw [later]
        rfl

theorem Sound.iterateAll_eq {Value : Type} (pointee : Data → Option Value)
    (sound : Sound keying head entries power) :
    iterateAll pointee head (head.size + 1) none =
      untilNull pointee (occupied head.table (2 ^ power)) := by
  rw [Nasmlib.iterateAll_eq pointee head head.size (head.size + 1) none (Nat.zero_add _)
    (Nat.lt_succ_self _), sound.size, occupied, List.range_eq_range']
  rfl

/-- A sound table without null pointers lists its entries. -/
theorem Sound.iterate_some (sound : Sound keying head entries power) :
    (iterateAll some head (head.size + 1) none).Perm entries := by
  have injective : Function.Injective fun entry : CString × Data => (entry.1, some entry.2) := by
    rintro ⟨key, data⟩ ⟨other, value⟩ same
    cases same
    rfl
  have all : untilNull some (occupied head.table (2 ^ power)) =
      (occupied head.table (2 ^ power)).map fun node => (node.key, node.data) := by
    apply List.map_injective_iff.mpr injective
    rw [untilNull_eq fun node _ => Option.some_ne_none node.data, List.map_map]
    rfl
  rw [sound.iterateAll_eq, all]
  exact sound.holds

/-- The entries of a sound table have different classes. -/
theorem Sound.nodup (sound : Sound keying head entries power) :
    (entries.map fun entry => keying.classOf entry.1).Nodup := by
  have distinct : ((occupied head.table (2 ^ power)).map fun node => (node.key, node.data)).Pairwise
      fun first second => keying.classOf first.1 ≠ keying.classOf second.1 :=
    List.pairwise_map.mpr sound.settled.distinct
  exact List.pairwise_map.mpr
    ((sound.holds.pairwise_iff fun different => Ne.symm different).mp distinct)

/-- Whatever is entered, every search ends, and it finds the first entry of its key, or the hash and
a free node: the plain search in a table of plain searches, the other search in a table of its own.
-/
theorem hashFind_enterAll (start : Nat) (entries : List (CString × Data)) :
    (∃ head, enterAll hashCalc (fun key other => key.bytes = other.bytes) (2 ^ start) entries =
        some head ∧
      ∀ key, ∃ result, hashFind head key = some result ∧
        (entryAt head result = entries.find? fun entry => key.bytes = entry.1.bytes) ∧
        (entryAt head result = none → LeavesFree hashCalc head key result)) ∧
    (∃ head, enterAll hashCalci (fun key other => nasmStricmp key other = 0) (2 ^ start) entries =
        some head ∧
      ∀ key, ∃ result, hashFindi head key = some result ∧
        (entryAt head result = entries.find? fun entry => nasmStricmp key entry.1 = 0) ∧
        (entryAt head result = none → LeavesFree hashCalci head key result)) := by
  constructor
  · obtain ⟨head, kept, power, ran, sound, same⟩ := enterAll_sound exactKeying start entries
    refine ⟨head, ran, fun key => ?_⟩
    obtain ⟨result, ended, found, free⟩ := sound.find key
    exact ⟨result, ended, found.trans (same key), free⟩
  · obtain ⟨head, kept, power, ran, sound, same⟩ := enterAll_sound caselessKeying start entries
    refine ⟨head, ran, fun key => ?_⟩
    obtain ⟨result, ended, found, free⟩ := sound.find key
    exact ⟨result, ended, found.trans (same key), free⟩

end Projs.Nasmlib

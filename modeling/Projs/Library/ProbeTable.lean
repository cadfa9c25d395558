import Mathlib.Data.List.Nodup
import Mathlib.Data.Nat.Find
import Mathlib.Tactic.Common

namespace ProbeTable

/-- A probe sequence visits every place of a table for every hash. -/
structure Probe (Hash : Type) (size : Nat) where
  place : Hash → Nat → Nat
  inside : ∀ hash index, place hash index < size
  covers : ∀ hash target, target < size → ∃ index, index < size ∧ place hash index = target

variable {Entry Key Hash : Type} {size : Nat}

/-- The entries of a table by their places. -/
def occupied (table : Nat → Option Entry) (size : Nat) : List Entry :=
  (List.range size).filterMap table

/-- One place of a table is written. -/
def update (table : Nat → Option Entry) (target : Nat) (entry : Entry) : Nat → Option Entry :=
  fun place => if place = target then some entry else table place

theorem mem_occupied {table : Nat → Option Entry} {entry : Entry} :
    entry ∈ occupied table size ↔ ∃ place, place < size ∧ table place = some entry := by
  simp [occupied, List.mem_filterMap]

theorem occupied_empty : occupied (fun _ => (none : Option Entry)) size = [] := by
  simp [occupied]

theorem occupied_succ (table : Nat → Option Entry) (size : Nat) :
    occupied table (size + 1) = occupied table size ++ (table size).toList := by
  rw [occupied, occupied, List.range_succ, List.filterMap_append]
  cases here : table size with
  | none =>
      rw [List.filterMap_cons_none here]
      rfl
  | some entry =>
      rw [List.filterMap_cons_some here]
      rfl

theorem exists_free {table : Nat → Option Entry} (room : (occupied table size).length < size) :
    ∃ place, place < size ∧ table place = none := by
  by_contra full
  have every : ∀ place ∈ List.range size, (table place).isSome = true := by
    intro place member
    by_contra free
    exact full ⟨place, List.mem_range.mp member, Option.not_isSome_iff_eq_none.mp free⟩
  rw [occupied, List.length_filterMap_eq_countP, List.countP_eq_length.mpr every,
    List.length_range] at room
  exact absurd room (Nat.lt_irrefl _)

/-- Writing a free place adds one entry. -/
theorem occupied_update {table : Nat → Option Entry} {target : Nat} {entry : Entry}
    (inside : target < size) (free : table target = none) :
    (occupied (update table target entry) size).Perm (entry :: occupied table size) := by
  have cut : List.range size =
      List.range target ++ target :: (List.range (size - target - 1)).map (target + 1 + ·) := by
    have whole : size = target + (1 + (size - target - 1)) := by omega
    conv_lhs => rw [whole, List.range_add, List.range_add]
    simp [Nat.add_assoc]
  have front : (List.range target).filterMap (update table target entry) =
      (List.range target).filterMap table := by
    apply List.filterMap_congr
    intro place member
    have before := List.mem_range.mp member
    rw [update, if_neg (Nat.ne_of_lt before)]
  have back : ((List.range (size - target - 1)).map (target + 1 + ·)).filterMap
        (update table target entry) =
      ((List.range (size - target - 1)).map (target + 1 + ·)).filterMap table := by
    apply List.filterMap_congr
    intro place member
    obtain ⟨offset, -, rfl⟩ := List.mem_map.mp member
    rw [update, if_neg (by omega)]
  have here : update table target entry target = some entry := if_pos rfl
  rw [occupied, occupied, cut, List.filterMap_append, List.filterMap_append, front,
    List.filterMap_cons_some here, List.filterMap_cons_none free, back]
  exact List.perm_middle

/-- No two places hold entries with the same key. -/
theorem place_unique {key : Entry → Key} {table : Nat → Option Entry}
    (distinct : (occupied table size).Pairwise fun first second => key first ≠ key second)
    {first second : Nat} {one other : Entry} (firstInside : first < size)
    (secondInside : second < size) (firstHolds : table first = some one)
    (secondHolds : table second = some other) (same : key one = key other) : first = second := by
  rw [occupied, List.pairwise_filterMap] at distinct
  have ordered : ∀ low high : Nat, low < high → high < size → ∀ one other, table low = some one →
      table high = some other → key one ≠ key other := by
    intro low high between inside one other lowHolds highHolds
    have pair := List.pairwise_iff_getElem.mp distinct low high
      (by rw [List.length_range]; omega) (by rw [List.length_range]; omega) between
    rw [List.getElem_range, List.getElem_range] at pair
    exact pair one lowHolds other highHolds
  rcases Nat.lt_trichotomy first second with below | equal | above
  · exact absurd same (ordered first second below secondInside one other firstHolds secondHolds)
  · exact equal
  · exact absurd same.symm (ordered second first above firstInside other one secondHolds firstHolds)

variable (key : Entry → Key) (hash : Entry → Hash) (probe : Probe Hash size)

/-- In a settled table every entry is reached over occupied places, and no key occurs twice. -/
structure Settled (table : Nat → Option Entry) : Prop where
  reached : ∀ target, target < size → ∀ entry, table target = some entry →
    ∃ index, probe.place (hash entry) index = target ∧
      ∀ earlier, earlier < index → (table (probe.place (hash entry) earlier)).isSome = true
  distinct : (occupied table size).Pairwise fun first second => key first ≠ key second

/-- A search for a key passes entries with other keys and stops at an index. -/
def Passes (table : Nat → Option Entry) (start : Hash) (wanted : Key) (index : Nat) : Prop :=
  ∀ earlier, earlier < index →
    ∃ entry, table (probe.place start earlier) = some entry ∧ key entry ≠ wanted

variable {key hash probe} {table : Nat → Option Entry}

theorem settled_empty : Settled key hash probe fun _ => none where
  reached := fun _ _ _ holds => by cases holds
  distinct := by
    rw [occupied_empty]
    exact List.Pairwise.nil

/-- Every probe sequence reaches a first free place of a table with room. -/
theorem exists_first_free (room : (occupied table size).length < size) (start : Hash) :
    ∃ index, index < size ∧ table (probe.place start index) = none ∧
      ∀ earlier, earlier < index → (table (probe.place start earlier)).isSome = true := by
  classical
  obtain ⟨target, inside, free⟩ := exists_free room
  obtain ⟨index, below, rfl⟩ := probe.covers start target inside
  have ends : ∃ index, table (probe.place start index) = none := ⟨index, free⟩
  refine ⟨Nat.find ends, Nat.lt_of_le_of_lt (Nat.find_min' ends free) below, Nat.find_spec ends, ?_⟩
  intro earlier before
  exact Option.isSome_iff_ne_none.mpr (Nat.find_min ends before)

/-- A search for the key of an entry stops at that entry. -/
theorem Settled.exists_found (settled : Settled key hash probe table) {entry : Entry}
    (member : entry ∈ occupied table size) :
    ∃ index, index < size ∧ Passes key probe table (hash entry) (key entry) index ∧
      table (probe.place (hash entry) index) = some entry := by
  classical
  obtain ⟨target, inside, holds⟩ := mem_occupied.mp member
  obtain ⟨reached, same, passed⟩ := settled.reached target inside entry holds
  obtain ⟨index, below, arrives⟩ := probe.covers (hash entry) target inside
  have ends : ∃ index, probe.place (hash entry) index = target := ⟨index, arrives⟩
  refine ⟨Nat.find ends, Nat.lt_of_le_of_lt (Nat.find_min' ends arrives) below,
    fun earlier before => ?_, ?_⟩
  · obtain ⟨other, found⟩ :=
      Option.isSome_iff_exists.mp
        (passed earlier (Nat.lt_of_lt_of_le before (Nat.find_min' ends same)))
    refine ⟨other, found, fun sameKey => Nat.find_min ends before ?_⟩
    exact place_unique settled.distinct (probe.inside _ _) inside found holds sameKey
  · rw [Nat.find_spec ends]
    exact holds

/-- A search for an absent key stops at the first free place. -/
theorem exists_missing (room : (occupied table size).length < size) {start : Hash} {wanted : Key}
    (absent : ∀ entry ∈ occupied table size, key entry ≠ wanted) :
    ∃ index, index < size ∧ Passes key probe table start wanted index ∧
      table (probe.place start index) = none := by
  obtain ⟨index, below, free, passed⟩ := exists_first_free room start
  refine ⟨index, below, fun earlier before => ?_, free⟩
  obtain ⟨entry, found⟩ := Option.isSome_iff_exists.mp (passed earlier before)
  exact ⟨entry, found, absent entry (mem_occupied.mpr ⟨_, probe.inside _ _, found⟩)⟩

/-- An entry with a new key may be written to the first free place of its probe sequence. -/
theorem Settled.update (settled : Settled key hash probe table) {entry : Entry} {index : Nat}
    (absent : ∀ other ∈ occupied table size, key other ≠ key entry)
    (free : table (probe.place (hash entry) index) = none)
    (passed : ∀ earlier, earlier < index →
      (table (probe.place (hash entry) earlier)).isSome = true) :
    Settled key hash probe (update table (probe.place (hash entry) index) entry) where
  reached := by
    have still : ∀ place, (table place).isSome = true →
        (ProbeTable.update table (probe.place (hash entry) index) entry place).isSome = true := by
      intro place before
      rw [ProbeTable.update]
      split
      · rfl
      · exact before
    intro target inside other holds
    rw [ProbeTable.update] at holds
    split at holds
    · next here =>
        cases holds
        exact ⟨index, here.symm, fun earlier before => still _ (passed earlier before)⟩
    · obtain ⟨reached, same, passed⟩ := settled.reached target inside other holds
      exact ⟨reached, same, fun earlier before => still _ (passed earlier before)⟩
  distinct := by
    rw [(occupied_update (probe.inside _ _) free).pairwise_iff Ne.symm, List.pairwise_cons]
    exact ⟨fun other member => (absent other member).symm, settled.distinct⟩

end ProbeTable

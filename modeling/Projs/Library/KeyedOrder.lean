import Mathlib.Data.List.Sort

namespace KeyedOrder

variable {Entry Key : Type} [LinearOrder Key] (key : Entry → Key)

/-- The keys do not fall along the list. -/
def Ascending (entries : List Entry) : Prop :=
  entries.Pairwise fun first second => key first ≤ key second

/-- A new entry goes behind every entry whose key is not above its own. -/
def insertBehind (entry : Entry) (entries : List Entry) : List Entry :=
  entries.orderedInsert (fun first second => key first < key second) entry

/-- The floor of a limit is an entry with the greatest key up to it, if there is one. -/
def IsFloor (limit : Key) (entries : List Entry) : Option Entry → Prop
  | none => ∀ entry ∈ entries, limit < key entry
  | some found => found ∈ entries ∧ key found ≤ limit ∧
      ∀ entry ∈ entries, key entry ≤ limit → key entry ≤ key found

variable {key} {entry pivot : Entry} {front back entries others : List Entry} {limit : Key}
  {found : Option Entry}

theorem insertBehind_perm : (insertBehind key entry entries).Perm (entry :: entries) :=
  List.perm_orderedInsert _ entry entries

theorem insertBehind_of_lt (above : key entry < key pivot) :
    insertBehind key entry (front ++ pivot :: back) =
      insertBehind key entry front ++ pivot :: back := by
  induction front with
  | nil => simp [insertBehind, above]
  | cons first front inductionHypothesis =>
      rw [insertBehind] at inductionHypothesis ⊢
      rw [insertBehind, List.cons_append, List.orderedInsert_cons, List.orderedInsert_cons,
        inductionHypothesis, insertBehind]
      split <;> rfl

theorem insertBehind_of_le (below : ∀ first ∈ front, key first ≤ key entry) :
    insertBehind key entry (front ++ back) = front ++ insertBehind key entry back := by
  induction front with
  | nil => rfl
  | cons first front inductionHypothesis =>
      have rest := inductionHypothesis fun other member =>
        below other (List.mem_cons_of_mem _ member)
      rw [insertBehind] at rest
      rw [insertBehind, List.cons_append, List.orderedInsert_cons, rest,
        if_neg (not_lt.mpr (below first (List.mem_cons_self ..)))]
      rfl

theorem Ascending.insertBehind (ascending : Ascending key entries) :
    Ascending key (insertBehind key entry entries) := by
  induction entries with
  | nil => exact List.pairwise_singleton _ _
  | cons first entries inductionHypothesis =>
      obtain ⟨head, tail⟩ := List.pairwise_cons.mp ascending
      rw [KeyedOrder.insertBehind, List.orderedInsert_cons]
      split
      · next above =>
          apply List.Pairwise.cons
          · intro other member
            obtain rfl | member := List.mem_cons.mp member
            · exact above.le
            · exact above.le.trans (head other member)
          · exact ascending
      · next below =>
          apply List.Pairwise.cons
          · intro other member
            obtain rfl | member := List.mem_cons.mp (insertBehind_perm.mem_iff.mp member)
            · exact not_lt.mp below
            · exact head other member
          · exact inductionHypothesis tail

theorem IsFloor.of_perm (same : entries.Perm others) (floor : IsFloor key limit entries found) :
    IsFloor key limit others found := by
  cases found with
  | none => exact fun entry member => floor entry (same.mem_iff.mpr member)
  | some found =>
      obtain ⟨member, below, greatest⟩ := floor
      exact ⟨same.mem_iff.mp member, below,
        fun entry member => greatest entry (same.mem_iff.mpr member)⟩

/-- An entry with the limit itself as its key is its floor. -/
theorem isFloor_of_eq (member : entry ∈ entries) (same : key entry = limit) :
    IsFloor key limit entries (some entry) :=
  ⟨member, same.le, fun _ _ below => below.trans same.ge⟩

/-- A pivot above the limit leaves the floor to the entries in front of it. -/
theorem IsFloor.of_front (ascending : Ascending key (front ++ pivot :: back))
    (above : limit < key pivot) (floor : IsFloor key limit front found) :
    IsFloor key limit (front ++ pivot :: back) found := by
  have far : ∀ entry ∈ pivot :: back, limit < key entry := by
    intro entry member
    obtain rfl | member := List.mem_cons.mp member
    · exact above
    · have behind := (List.pairwise_append.mp ascending).2.1
      exact above.trans_le ((List.pairwise_cons.mp behind).1 entry member)
  cases found with
  | none =>
      intro entry member
      obtain member | member := List.mem_append.mp member
      · exact floor entry member
      · exact far entry member
  | some found =>
      obtain ⟨member, below, greatest⟩ := floor
      refine ⟨List.mem_append_left _ member, below, fun entry member near => ?_⟩
      obtain member | member := List.mem_append.mp member
      · exact greatest entry member near
      · exact absurd near (not_le.mpr (far entry member))

/-- A pivot below the limit is the floor unless there is one behind it. -/
theorem IsFloor.of_back (ascending : Ascending key (front ++ pivot :: back))
    (below : key pivot ≤ limit) (floor : IsFloor key limit back found) :
    IsFloor key limit (front ++ pivot :: back) (some (found.getD pivot)) := by
  obtain ⟨-, behind, before⟩ := List.pairwise_append.mp ascending
  have pivotMember : pivot ∈ front ++ pivot :: back := by simp
  have upTo : ∀ entry ∈ front, key entry ≤ key pivot :=
    fun entry member => before entry member pivot (List.mem_cons_self ..)
  cases found with
  | none =>
      refine ⟨pivotMember, below, fun entry member near => ?_⟩
      obtain member | member := List.mem_append.mp member
      · exact upTo entry member
      · obtain rfl | member := List.mem_cons.mp member
        · exact le_rfl
        · exact absurd near (not_le.mpr (floor entry member))
  | some found =>
      obtain ⟨member, near, greatest⟩ := floor
      have reached : key pivot ≤ key found := (List.pairwise_cons.mp behind).1 found member
      refine ⟨List.mem_append_right _ (List.mem_cons_of_mem _ member), near, ?_⟩
      intro entry member near
      obtain member | member := List.mem_append.mp member
      · exact (upTo entry member).trans reached
      · obtain rfl | member := List.mem_cons.mp member
        · exact reached
        · exact greatest entry member near

end KeyedOrder

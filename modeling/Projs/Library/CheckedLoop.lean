import Projs.Library.LabelledMachine

namespace CheckedLoop
open LabelledMachine

variable {Item State Fault : Type} {accepts : Item → Prop} [DecidablePred accepts] {fault : Fault}

/-- A loop that fails at an item which is not accepted ends only when all items are accepted. -/
theorem foldlM_eq_ok_iff {step : State → Item → Except Fault State} {next : State → Item → State}
    (checked : ∀ state item, step state item =
      if accepts item then .ok (next state item) else .error fault)
    (items : List Item) (start final : State) :
    items.foldlM step start = .ok final ↔
      (∀ item ∈ items, accepts item) ∧ items.foldl next start = final := by
  induction items generalizing start with
  | nil =>
      rw [List.foldlM_nil, List.foldl_nil, and_iff_right (List.forall_mem_nil _)]
      exact ⟨Except.ok.inj, congrArg _⟩
  | cons item items ih =>
      rw [List.foldlM_cons, checked, List.forall_mem_cons, List.foldl_cons]
      by_cases good : accepts item
      · rw [if_pos good, and_iff_right good]
        exact ih _
      · rw [if_neg good]
        exact iff_of_false nofun fun all => good all.1.1

/-- The same holds of a loop that collects one result for each item. -/
theorem mapM_eq_ok_iff {step : Item → Except Fault State} {next : Item → State}
    (checked : ∀ item, step item = if accepts item then .ok (next item) else .error fault)
    (items : List Item) (results : List State) :
    items.mapM step = .ok results ↔
      (∀ item ∈ items, accepts item) ∧ items.map next = results := by
  induction items generalizing results with
  | nil =>
      rw [List.mapM_nil, List.map_nil, and_iff_right (List.forall_mem_nil _)]
      exact ⟨Except.ok.inj, congrArg _⟩
  | cons item items ih =>
      rw [List.mapM_cons, checked, List.forall_mem_cons, List.map_cons]
      by_cases good : accepts item
      · rw [if_pos good, and_iff_right good, bind_eq_ok_iff]
        constructor
        · rintro ⟨_, ⟨⟩, collected⟩
          obtain ⟨rest, found, ⟨⟩⟩ := bind_eq_ok_iff.mp collected
          obtain ⟨all, same⟩ := (ih rest).mp found
          exact ⟨all, congrArg _ same⟩
        · rintro ⟨all, same⟩
          have found := (ih _).mpr ⟨all, rfl⟩
          exact ⟨_, rfl, bind_eq_ok_iff.mpr ⟨_, found, congrArg _ same⟩⟩
      · rw [if_neg good]
        exact iff_of_false nofun fun all => good all.1.1

end CheckedLoop

import Mathlib.Data.List.Basic
import Mathlib.Tactic.Common

namespace EventTrace

variable {Event Value : Type}

/-- In a trace, no event of the second kind comes after one of the first kind. -/
def NeverAfter (first second : Event → Prop) (trace : List Event) : Prop :=
  trace.Pairwise fun earlier later => first earlier → ¬ second later

theorem neverAfter_append {first second : Event → Prop} {front back : List Event} :
    NeverAfter first second (front ++ back) ↔
      NeverAfter first second front ∧ NeverAfter first second back ∧
        ((∃ event ∈ front, first event) → ∀ event ∈ back, ¬ second event) := by
  unfold NeverAfter
  rw [List.pairwise_append]
  constructor
  · intro pairs
    refine ⟨pairs.1, pairs.2.1, ?_⟩
    intro found later member
    obtain ⟨earlier, before, held⟩ := found
    exact pairs.2.2 earlier before later member held
  · intro parts
    refine ⟨parts.1, parts.2.1, ?_⟩
    intro earlier before later member held
    exact parts.2.2 ⟨earlier, before, held⟩ later member

/-- A trace without an event of the second kind has none after the first kind. -/
theorem neverAfter_of_forall {first second : Event → Prop} {trace : List Event}
    (absent : ∀ event ∈ trace, ¬ second event) : NeverAfter first second trace :=
  List.pairwise_of_forall_mem_list fun _ _ later member _ => absent later member

/-- A trace without an event of the first kind has nothing to come after. -/
theorem neverAfter_of_forall_first {first second : Event → Prop} {trace : List Event}
    (absent : ∀ event ∈ trace, ¬ first event) : NeverAfter first second trace :=
  List.pairwise_of_forall_mem_list fun _ earlier _ _ held => absurd held (absent _ earlier)

/-- A variable has the value that the latest event setting it gave. -/
def latest (setting : Event → Option Value) (initial : Value) (trace : List Event) : Value :=
  trace.foldl (fun value event => (setting event).getD value) initial

@[simp] theorem latest_nil (setting : Event → Option Value) (initial : Value) :
    latest setting initial [] = initial := rfl

@[simp] theorem latest_cons (setting : Event → Option Value) (initial : Value) (event : Event)
    (rest : List Event) : latest setting initial (event :: rest) =
      latest setting ((setting event).getD initial) rest := rfl

theorem latest_append (setting : Event → Option Value) (initial : Value)
    (front back : List Event) :
    latest setting initial (front ++ back) = latest setting (latest setting initial front) back :=
  List.foldl_append

/-- Events that do not set a variable leave its value alone. -/
theorem latest_of_forall {setting : Event → Option Value} {initial : Value} {trace : List Event}
    (unset : ∀ event ∈ trace, setting event = none) : latest setting initial trace = initial := by
  induction trace with
  | nil => rfl
  | cons event rest ih =>
      rw [latest_cons, unset event List.mem_cons_self, Option.getD_none]
      exact ih fun other member => unset other (List.mem_cons_of_mem _ member)

/-- Events of one kind take place only while a variable is true. -/
def OnlyWhile (setting : Event → Option Bool) (kind : Event → Prop) (initial : Bool)
    (trace : List Event) : Prop :=
  ∀ before event after, trace = before ++ event :: after → kind event →
    latest setting initial before = true

theorem onlyWhile_nil (setting : Event → Option Bool) (kind : Event → Prop) (initial : Bool) :
    OnlyWhile setting kind initial [] := by
  intro before event after split
  cases before <;> cases split

theorem onlyWhile_cons {setting : Event → Option Bool} {kind : Event → Prop} {initial : Bool}
    {event : Event} {rest : List Event} :
    OnlyWhile setting kind initial (event :: rest) ↔
      (kind event → initial = true) ∧
        OnlyWhile setting kind ((setting event).getD initial) rest := by
  constructor
  · intro held
    refine ⟨held [] event rest rfl, ?_⟩
    intro before later after split
    exact held (event :: before) later after (congrArg (event :: ·) split)
  · rintro ⟨first, others⟩ before later after split
    cases before with
    | nil =>
        cases split
        exact first
    | cons head tail =>
        cases split
        exact others tail later after rfl

theorem onlyWhile_append {setting : Event → Option Bool} {kind : Event → Prop} {initial : Bool}
    {front back : List Event} :
    OnlyWhile setting kind initial (front ++ back) ↔
      OnlyWhile setting kind initial front ∧
        OnlyWhile setting kind (latest setting initial front) back := by
  induction front generalizing initial with
  | nil => simp [onlyWhile_nil]
  | cons event rest ih =>
      rw [List.cons_append, onlyWhile_cons, onlyWhile_cons, ih, and_assoc, latest_cons]

/-- While the variable is true and no event sets it, every event may take place. -/
theorem onlyWhile_of_forall {setting : Event → Option Bool} {kind : Event → Prop}
    {trace : List Event} (unset : ∀ event ∈ trace, setting event = none) :
    OnlyWhile setting kind true trace := by
  intro before event after split _
  apply latest_of_forall
  intro earlier member
  exact unset earlier (split ▸ List.mem_append_left _ member)

end EventTrace

import Mathlib.Data.List.Basic
import Mathlib.Data.List.Induction
import Mathlib.Tactic.Common

namespace LabelledMachine

theorem exists_ok_of_isOk {Fault Value : Type} {result : Except Fault Value}
    (success : result.isOk = true) : ∃ value, result = .ok value := by
  cases result with
  | ok value => exact ⟨value, rfl⟩
  | error fault => cases success

theorem ok_of_toOption {Fault Value : Type} {result : Except Fault Value} {value : Value}
    (found : result.toOption = some value) : result = .ok value := by
  cases result with
  | ok value => exact congrArg Except.ok (Option.some.inj found)
  | error fault => cases found

/-- A mapped result succeeds with the image of a success. -/
theorem map_eq_ok_iff {Fault First Second : Type} {function : First → Second}
    {result : Except Fault First} {value : Second} :
    result.map function = .ok value ↔ ∃ first, result = .ok first ∧ function first = value := by
  cases result with
  | ok first => simp [Except.map]
  | error fault => simp [Except.map]

/-- A chained result succeeds when both of its parts do. -/
theorem bind_eq_ok_iff {Fault First Second : Type} {function : First → Except Fault Second}
    {result : Except Fault First} {value : Second} :
    (result >>= function) = .ok value ↔
      ∃ first, result = .ok first ∧ function first = .ok value := by
  cases result with
  | ok first => simp [bind, Except.bind]
  | error fault => simp [bind, Except.bind]

/-- What is seen of a chained result is seen of the result of both of its parts. -/
theorem exists_ok_of_seen {Fault First Second View : Type} {result : Except Fault First}
    {function : First → Except Fault Second} {view : Second → View} {seen : View}
    (shown : (result >>= function).toOption.map view = some seen) :
    ∃ first second, result = .ok first ∧ function first = .ok second ∧ view second = seen := by
  obtain ⟨second, found, same⟩ := Option.map_eq_some_iff.mp shown
  obtain ⟨first, start, reached⟩ := bind_eq_ok_iff.mp (ok_of_toOption found)
  exact ⟨first, second, start, reached, same⟩

/-- A machine answers each label with a next state, or it stops with a fault. -/
structure Machine (State Label Fault : Type) where
  step : State → Label → Except Fault State

variable {State Label Fault : Type} (machine : Machine State Label Fault)

/-- A run feeds the labels in order and stops at the first fault. -/
def Machine.run (state : State) : List Label → Except Fault State
  | [] => .ok state
  | label :: rest =>
      match machine.step state label with
      | .ok next => Machine.run next rest
      | .error fault => .error fault

@[simp] theorem run_nil (state : State) : machine.run state [] = .ok state := rfl

theorem run_cons (state : State) (label : Label) (rest : List Label) :
    machine.run state (label :: rest) =
      match machine.step state label with
      | .ok next => machine.run next rest
      | .error fault => .error fault := rfl

@[simp] theorem run_singleton (state : State) (label : Label) :
    machine.run state [label] = machine.step state label := by
  rw [run_cons]
  cases machine.step state label <;> rfl

theorem run_cons_of_ok {state next : State} {label : Label} (rest : List Label)
    (stepped : machine.step state label = .ok next) :
    machine.run state (label :: rest) = machine.run next rest := by
  rw [run_cons, stepped]

theorem run_cons_of_error {state : State} {label : Label} {fault : Fault} (rest : List Label)
    (stopped : machine.step state label = .error fault) :
    machine.run state (label :: rest) = .error fault := by
  rw [run_cons, stopped]

/-- A successful run takes its first step and goes on from there. -/
theorem run_cons_ok_iff {state final : State} {label : Label} {rest : List Label} :
    machine.run state (label :: rest) = .ok final ↔
      ∃ next, machine.step state label = .ok next ∧ machine.run next rest = .ok final := by
  rw [run_cons]
  cases machine.step state label with
  | ok next => simp
  | error fault => simp

/-- A run that succeeds passes its final state to the labels behind it. -/
theorem run_append_of_ok {state middle : State} {first : List Label} (second : List Label)
    (reached : machine.run state first = .ok middle) :
    machine.run state (first ++ second) = machine.run middle second := by
  induction first generalizing state with
  | nil =>
      cases reached
      rfl
  | cons label rest ih =>
      rw [run_cons] at reached
      cases stepped : machine.step state label with
      | ok next =>
          rw [stepped] at reached
          rw [List.cons_append, run_cons_of_ok machine _ stepped]
          exact ih reached
      | error fault =>
          rw [stepped] at reached
          cases reached

/-- A fault hides every later label. -/
theorem run_append_of_error {state : State} {fault : Fault} {first : List Label}
    (second : List Label) (stopped : machine.run state first = .error fault) :
    machine.run state (first ++ second) = .error fault := by
  induction first generalizing state with
  | nil => cases stopped
  | cons label rest ih =>
      rw [run_cons] at stopped
      cases stepped : machine.step state label with
      | ok next =>
          rw [stepped] at stopped
          rw [List.cons_append, run_cons_of_ok machine _ stepped]
          exact ih stopped
      | error found =>
          rw [stepped] at stopped
          rw [List.cons_append, run_cons_of_error machine _ stepped]
          exact stopped

/-- A run that stops reaches a state whose step stops with its fault. -/
theorem exists_step_of_run_error {state : State} {fault : Fault} {labels : List Label}
    (stopped : machine.run state labels = .error fault) :
    ∃ before label after middle, labels = before ++ label :: after ∧
      machine.run state before = .ok middle ∧ machine.step middle label = .error fault := by
  induction labels generalizing state with
  | nil => cases stopped
  | cons label rest ih =>
      cases stepped : machine.step state label with
      | ok next =>
          rw [run_cons_of_ok machine rest stepped] at stopped
          obtain ⟨before, other, after, middle, split, reached, failed⟩ := ih stopped
          refine ⟨label :: before, other, after, middle, congrArg (label :: ·) split, ?_, failed⟩
          exact (run_cons_of_ok machine before stepped).trans reached
      | error found =>
          rw [run_cons_of_error machine rest stepped] at stopped
          cases stopped
          exact ⟨[], label, rest, state, rfl, rfl, stepped⟩

/-- A successful run splits at every position of its labels. -/
theorem run_append_ok_iff {state final : State} {first second : List Label} :
    machine.run state (first ++ second) = .ok final ↔
      ∃ middle, machine.run state first = .ok middle ∧ machine.run middle second = .ok final := by
  constructor
  · intro reached
    cases split : machine.run state first with
    | ok middle => exact ⟨middle, rfl, (run_append_of_ok machine second split).symm.trans reached⟩
    | error fault =>
        rw [run_append_of_error machine second split] at reached
        cases reached
  · rintro ⟨middle, before, after⟩
    exact (run_append_of_ok machine second before).trans after

/-- Each step of a run meets a condition on the state before it. -/
def Machine.Along (condition : State → Label → Prop) (state : State) (labels : List Label) : Prop :=
  ∀ before label after middle, labels = before ++ label :: after →
    machine.run state before = .ok middle → condition middle label

/-- Steps that meet a condition keep a property of the labels read so far and of the state. -/
def Machine.KeepsWhile (condition : State → Label → Prop)
    (property : List Label → State → Prop) : Prop :=
  ∀ history state label next, property history state → condition state label →
    machine.step state label = .ok next → property (history ++ [label]) next

/-- A property kept by steps that meet a condition holds after every run of such steps. -/
theorem Machine.KeepsWhile.run {condition : State → Label → Prop}
    {property : List Label → State → Prop} (keeps : machine.KeepsWhile condition property)
    {labels : List Label} {state final : State} (initial : property [] state)
    (along : machine.Along condition state labels)
    (reached : machine.run state labels = .ok final) : property labels final := by
  induction labels using List.reverseRecOn generalizing final with
  | nil =>
      cases reached
      exact initial
  | append_singleton before label ih =>
      obtain ⟨middle, first, last⟩ := (run_append_ok_iff machine).mp reached
      rw [run_singleton] at last
      have earlier : machine.Along condition state before := by
        intro front other back found split
        exact along front other (back ++ [label]) found (by simp [split])
      exact keeps before middle label final (ih earlier first)
        (along before label [] middle rfl first) last

/-- Every step keeps a property of the labels read so far and of the state. -/
def Machine.Keeps (property : List Label → State → Prop) : Prop :=
  machine.KeepsWhile (fun _ _ => True) property

/-- A kept property that holds before any label holds after every successful run. -/
theorem Machine.Keeps.run {property : List Label → State → Prop}
    (keeps : machine.Keeps property) {labels : List Label} {state final : State}
    (initial : property [] state) (reached : machine.run state labels = .ok final) :
    property labels final :=
  Machine.KeepsWhile.run machine keeps initial (fun _ _ _ _ _ _ => trivial) reached

/-- When every step that may be taken succeeds and keeps a property, every run of such steps
does. -/
theorem Machine.exists_run {condition : Label → Prop} {property : State → Prop}
    (steps : ∀ state label, property state → condition label →
      ∃ next, machine.step state label = .ok next ∧ property next)
    {labels : List Label} (met : ∀ label ∈ labels, condition label) {state : State}
    (initial : property state) :
    ∃ final, machine.run state labels = .ok final ∧ property final := by
  induction labels generalizing state with
  | nil => exact ⟨state, rfl, initial⟩
  | cons label rest ih =>
      obtain ⟨first, later⟩ := List.forall_mem_cons.mp met
      obtain ⟨next, stepped, kept⟩ := steps state label initial first
      obtain ⟨final, reached, held⟩ := ih later kept
      exact ⟨final, (run_cons_of_ok machine rest stepped).trans reached, held⟩

/-- Two results agree when both reach related states or both stop with one fault. -/
inductive Agree {Concrete Abstract : Type} (related : Concrete → Abstract → Prop) :
    Except Fault Concrete → Except Fault Abstract → Prop
  | ok {concrete : Concrete} {abstract : Abstract} (held : related concrete abstract) :
      Agree related (.ok concrete) (.ok abstract)
  | error (fault : Fault) : Agree related (.error fault) (.error fault)

theorem Agree.of_ok {Concrete Abstract : Type} {related : Concrete → Abstract → Prop}
    {concrete : Except Fault Concrete} {abstract : Abstract}
    (agree : Agree related concrete (.ok abstract)) :
    ∃ state, concrete = .ok state ∧ related state abstract := by
  cases agree with
  | ok held => exact ⟨_, rfl, held⟩

theorem Agree.of_error {Concrete Abstract : Type} {related : Concrete → Abstract → Prop}
    {concrete : Except Fault Concrete} {fault : Fault}
    (agree : Agree related concrete (.error fault)) : concrete = .error fault := by
  cases agree
  rfl

theorem Agree.ok_of_ok {Concrete Abstract : Type} {related : Concrete → Abstract → Prop}
    {state : Concrete} {abstract : Except Fault Abstract}
    (agree : Agree related (.ok state) abstract) :
    ∃ value, abstract = .ok value ∧ related state value := by
  cases agree with
  | ok held => exact ⟨_, rfl, held⟩

theorem Agree.error_of_error {Concrete Abstract : Type} {related : Concrete → Abstract → Prop}
    {fault : Fault} {abstract : Except Fault Abstract}
    (agree : Agree related (.error fault) abstract) : abstract = .error fault := by
  cases agree
  rfl

/-- Results that agree still agree after a map that keeps the relation. -/
theorem Agree.map {Concrete Abstract Image Other : Type} {related : Concrete → Abstract → Prop}
    {after : Image → Other → Prop} {first : Concrete → Image} {second : Abstract → Other}
    {concrete : Except Fault Concrete} {abstract : Except Fault Abstract}
    (agree : Agree related concrete abstract)
    (kept : ∀ left right, related left right → after (first left) (second right)) :
    Agree after (concrete.map first) (abstract.map second) := by
  cases agree with
  | ok held => exact .ok (kept _ _ held)
  | error fault => exact .error fault

/-- Results that agree look the same where related states do. -/
theorem Agree.map_eq {Concrete Abstract View : Type} {related : Concrete → Abstract → Prop}
    {first : Concrete → View} {second : Abstract → View}
    {concrete : Except Fault Concrete} {abstract : Except Fault Abstract}
    (agree : Agree related concrete abstract)
    (same : ∀ left right, related left right → first left = second right) :
    concrete.map first = abstract.map second := by
  cases agree with
  | ok held => exact congrArg Except.ok (same _ _ held)
  | error fault => rfl

/-- A run meets a condition when its first step does and the rest of it does. -/
theorem along_cons_iff {condition : State → Label → Prop} {state : State} {label : Label}
    {rest : List Label} : machine.Along condition state (label :: rest) ↔
      condition state label ∧
        ∀ next, machine.step state label = .ok next → machine.Along condition next rest := by
  constructor
  · intro along
    refine ⟨along [] label rest state rfl rfl, fun next stepped => ?_⟩
    intro before other after middle split reached
    refine along (label :: before) other after middle (by rw [split]; rfl) ?_
    rw [run_cons_of_ok machine _ stepped, reached]
  · rintro ⟨first, later⟩ before other after middle split reached
    cases before with
    | nil =>
        cases split
        cases reached
        exact first
    | cons head before =>
        cases split
        obtain ⟨next, stepped, rest⟩ := (run_cons_ok_iff machine).mp reached
        exact later next stepped before other after middle rfl rest

theorem along_nil {condition : State → Label → Prop} (state : State) :
    machine.Along condition state [] := by
  intro before label after middle split
  exact absurd split (by simp)

/-- Under a condition, a block refines one abstract step when the two results agree. -/
def Machine.RefinesWhile {Coarse Block : Type} (condition : Coarse → Block → Prop)
    (abstract : Machine Coarse Block Fault) (related : State → Coarse → Prop)
    (render : Block → List Label) : Prop :=
  ∀ state coarse block, related state coarse → condition coarse block →
    Agree related (machine.run state (render block)) (abstract.step coarse block)

/-- Blocks that refine single steps refine every sequence of steps that meet the condition. -/
theorem Machine.RefinesWhile.run {machine : Machine State Label Fault} {Coarse Block : Type}
    {condition : Coarse → Block → Prop} {abstract : Machine Coarse Block Fault}
    {related : State → Coarse → Prop} {render : Block → List Label}
    (refines : machine.RefinesWhile condition abstract related render)
    {state : State} {coarse : Coarse} {blocks : List Block} (start : related state coarse)
    (along : abstract.Along condition coarse blocks) :
    Agree related (machine.run state (blocks.flatMap render)) (abstract.run coarse blocks) := by
  induction blocks generalizing state coarse with
  | nil => exact .ok start
  | cons block rest ih =>
      obtain ⟨meets, later⟩ := (along_cons_iff abstract).mp along
      have first := refines state coarse block start meets
      rw [List.flatMap_cons]
      cases stepped : abstract.step coarse block with
      | ok next =>
          rw [stepped] at first
          obtain ⟨middle, reached, held⟩ := first.of_ok
          rw [run_append_of_ok machine _ reached, run_cons_of_ok abstract _ stepped]
          exact ih held (later next stepped)
      | error fault =>
          rw [stepped] at first
          rw [run_append_of_error machine _ first.of_error, run_cons_of_error abstract _ stepped]
          exact .error fault

/-- A block refines one abstract step when the two results always agree. -/
def Machine.Refines {Coarse Block : Type} (abstract : Machine Coarse Block Fault)
    (related : State → Coarse → Prop) (render : Block → List Label) : Prop :=
  ∀ state coarse block, related state coarse →
    Agree related (machine.run state (render block)) (abstract.step coarse block)

/-- Blocks that refine single steps refine every sequence of them. -/
theorem Machine.Refines.run {machine : Machine State Label Fault} {Coarse Block : Type}
    {abstract : Machine Coarse Block Fault} {related : State → Coarse → Prop}
    {render : Block → List Label} (refines : machine.Refines abstract related render)
    {state : State} {coarse : Coarse} (start : related state coarse) (blocks : List Block) :
    Agree related (machine.run state (blocks.flatMap render)) (abstract.run coarse blocks) := by
  have whenever : machine.RefinesWhile (fun _ _ => True) abstract related render :=
    fun state coarse block held _ => refines state coarse block held
  exact whenever.run start fun _ _ _ _ _ _ => trivial

end LabelledMachine

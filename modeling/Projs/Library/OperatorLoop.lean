import Mathlib.Order.Lattice

namespace OperatorLoop

/-- A step fails without a value, or it gives a value; both leave a state, and only a fault stops
the program. -/
abbrev Outcome (Fault Value State : Type) := Except Fault (Option Value × State)

section Steps
variable {Fault Value Result State : Type}

/-- The second step goes on from the value and the state of the first. -/
def andThen (outcome : Outcome Fault Value State)
    (next : Value → State → Outcome Fault Result State) : Outcome Fault Result State :=
  match outcome with
  | .ok (some value, state) => next value state
  | .ok (none, state) => .ok (none, state)
  | .error fault => .error fault

@[simp] theorem andThen_some (value : Value) (state : State)
    (next : Value → State → Outcome Fault Result State) :
    andThen (.ok (some value, state)) next = next value state := rfl

@[simp] theorem andThen_none (state : State)
    (next : Value → State → Outcome Fault Result State) :
    andThen (.ok (none, state)) next = .ok (none, state) := rfl

@[simp] theorem andThen_error (fault : Fault)
    (next : Value → State → Outcome Fault Result State) :
    andThen (.error fault) next = .error fault := rfl

theorem andThen_pure (outcome : Outcome Fault Value State) :
    andThen outcome (fun value state => .ok (some value, state)) = outcome := by
  match outcome with
  | .ok (some _, _) => rfl
  | .ok (none, _) => rfl
  | .error _ => rfl

/-- A loop over the operators that are read: the value so far is the left operand of each of
them. -/
def operatorLoop (endless : Fault) (isOperator : State → Bool)
    (step : Value → State → Outcome Fault Value State) :
    Nat → Value → State → Outcome Fault Value State
  | 0, _, _ => .error endless
  | fuel + 1, value, state =>
      if isOperator state then
        andThen (step value state) (operatorLoop endless isOperator step fuel)
      else .ok (some value, state)

theorem operatorLoop_done {endless : Fault} {isOperator : State → Bool}
    {step : Value → State → Outcome Fault Value State} {fuel : Nat} {value : Value} {state : State}
    (enough : 0 < fuel) (other : isOperator state = false) :
    operatorLoop endless isOperator step fuel value state = .ok (some value, state) := by
  obtain ⟨fuel, rfl⟩ := Nat.exists_eq_succ_of_ne_zero (Nat.pos_iff_ne_zero.mp enough)
  rw [operatorLoop, other, if_neg Bool.false_ne_true]

theorem operatorLoop_more {endless : Fault} {isOperator : State → Bool}
    {step : Value → State → Outcome Fault Value State} {fuel : Nat} {value : Value} {state : State}
    (operator : isOperator state = true) :
    operatorLoop endless isOperator step (fuel + 1) value state =
      andThen (step value state) (operatorLoop endless isOperator step fuel) := by
  rw [operatorLoop, if_pos operator]

end Steps

section Relations
variable {Fault Value Result State : Type} {Related : State → State → Prop}

/-- Every state that is left is related to the state before. -/
def Leaves (Related : State → State → Prop) (state : State)
    (outcome : Outcome Fault Value State) : Prop :=
  ∀ value final, outcome = .ok (value, final) → Related state final

theorem Leaves.andThen {state : State} {outcome : Outcome Fault Value State}
    {next : Value → State → Outcome Fault Result State}
    (transitive : ∀ {first second third}, Related first second → Related second third →
      Related first third)
    (first : Leaves Related state outcome)
    (second : ∀ value middle, outcome = .ok (some value, middle) →
      Leaves Related middle (next value middle)) :
    Leaves Related state (andThen outcome next) := by
  intro value final ran
  match outcome with
  | .ok (some result, middle) =>
      exact transitive (first _ _ rfl) (second result middle rfl value final ran)
  | .ok (none, middle) =>
      cases ran
      exact first _ _ rfl

end Relations

section Clean
variable {Fault Value Result State Report : Type} (reports : State → List Report)

/-- A value is given and nothing was reported on the way. -/
def Clean (state : State) (outcome : Outcome Fault Value State) (value : Value) (final : State) :
    Prop :=
  outcome = .ok (some value, final) ∧ reports final = reports state

/-- What was reported stays reported. -/
def Grows (state final : State) : Prop := reports state <+: reports final

variable {reports}

theorem Grows.refl (state : State) : Grows reports state state := List.prefix_rfl

theorem Grows.trans {first second third : State} (left : Grows reports first second)
    (right : Grows reports second third) : Grows reports first third :=
  List.IsPrefix.trans left right

/-- What is in between reports nothing when the whole does not. -/
theorem Grows.between {first second third : State} (before : Grows reports first second)
    (after : Grows reports second third) (same : reports third = reports first) :
    reports second = reports first := by
  apply before.eq_of_length_le _ |>.symm
  rw [← same]
  exact after.length_le

/-- The whole is clean only if the first step is. -/
theorem Clean.first {state final : State} {outcome : Outcome Fault Value State} {result : Result}
    {next : Value → State → Outcome Fault Result State}
    (clean : Clean reports state (andThen outcome next) result final)
    (grown : Leaves (Grows reports) state outcome)
    (growing : ∀ value middle, Leaves (Grows reports) middle (next value middle)) :
    ∃ value middle, Clean reports state outcome value middle ∧
      Clean reports middle (next value middle) result final := by
  obtain ⟨ran, same⟩ := clean
  match outcome with
  | .ok (some value, middle) =>
      have equal := Grows.between (grown _ _ rfl) (growing value middle _ _ ran) same
      exact ⟨value, middle, ⟨rfl, equal⟩, ran, same.trans equal.symm⟩
  | .ok (none, middle) => cases ran

end Clean

section Reports
variable {Fault Value Result State Report : Type} (reports : State → List Report)
  (Related Silent : State → State → Prop)

/-- What was reported stays reported, and without a value there is a report, or the step was silent
for a reason. -/
structure Reports (state : State) (outcome : Outcome Fault Value State) : Prop where
  grows : Leaves (Grows reports) state outcome
  moves : Leaves Related state outcome
  explains : ∀ final, outcome = .ok (none, final) → reports final = reports state →
    Silent state final

/-- A reason to be silent is one also for the steps that lead to it. -/
structure Leads : Prop where
  refl : ∀ state, Related state state
  trans : ∀ {first second third}, Related first second → Related second third →
    Related first third
  back : ∀ {first second third}, Related first second → Silent second third → Silent first third

variable {reports Related Silent}

theorem Reports.andThen {state : State} {outcome : Outcome Fault Value State}
    {next : Value → State → Outcome Fault Result State} (leads : Leads Related Silent)
    (first : Reports reports Related Silent state outcome)
    (second : ∀ value middle, Reports reports Related Silent middle (next value middle)) :
    Reports reports Related Silent state (andThen outcome next) := by
  refine ⟨first.grows.andThen Grows.trans fun value middle _ => (second value middle).grows,
    first.moves.andThen leads.trans fun value middle _ => (second value middle).moves,
    fun final ran same => ?_⟩
  match outcome with
  | .ok (some value, middle) =>
      have equal := Grows.between (first.grows _ _ rfl) ((second value middle).grows _ _ ran) same
      exact leads.back (first.moves _ _ rfl)
        ((second value middle).explains final ran (same.trans equal.symm))
  | .ok (none, middle) =>
      cases ran
      exact first.explains _ rfl same

theorem Reports.operatorLoop {endless : Fault} {isOperator : State → Bool}
    {step : Value → State → Outcome Fault Value State} (leads : Leads Related Silent)
    (steps : ∀ value state, Reports reports Related Silent state (step value state))
    (fuel : Nat) : ∀ value state, Reports reports Related Silent state
      (operatorLoop endless isOperator step fuel value state) := by
  induction fuel with
  | zero =>
      intro value state
      refine ⟨fun result final ran => ?_, fun result final ran => ?_, fun final ran => ?_⟩
      · cases ran
      · cases ran
      · cases ran
  | succ fuel inductionHypothesis =>
      intro value state
      by_cases operator : isOperator state = true
      · rw [operatorLoop_more operator]
        exact (steps value state).andThen leads inductionHypothesis
      · rw [operatorLoop_done (Nat.succ_pos fuel) (Bool.eq_false_iff.2 operator)]
        refine ⟨fun result final ran => ?_, fun result final ran => ?_, fun final ran => ?_⟩
        · cases ran
          exact Grows.refl state
        · cases ran
          exact leads.refl state
        · cases ran

end Reports

section Ending
variable {Fault Value Result State : Type} (endless : Fault) (count : State → Nat) (limit : Nat)

/-- The step does not run without end, and when it gives a value it has counted at least `least`
more, within the limit. -/
def Counts (least : Nat) (state : State) (outcome : Outcome Fault Value State) : Prop :=
  outcome ≠ .error endless ∧
    ∀ value final, outcome = .ok (some value, final) → count state + least ≤ count final ∧
      count final ≤ limit

variable {endless count limit}

theorem Counts.noValue {least : Nat} {state final : State} :
    Counts endless count limit least state
      (.ok (none, final) : Outcome Fault Value State) :=
  ⟨by simp, fun _ _ ran => by cases ran⟩

theorem Counts.done {state final : State} {value : Value} (same : count final = count state)
    (within : count state ≤ limit) :
    Counts endless count limit 0 state (.ok (some value, final) : Outcome Fault Value State) := by
  refine ⟨by simp, fun result last ran => ?_⟩
  cases ran
  omega

theorem Counts.mono {least more : Nat} {state : State} {outcome : Outcome Fault Value State}
    (counts : Counts endless count limit more state outcome) (fewer : least ≤ more) :
    Counts endless count limit least state outcome := by
  refine ⟨counts.1, fun value final ran => ?_⟩
  have counted := counts.2 value final ran
  omega

theorem Counts.andThen {least more : Nat} {state : State} {outcome : Outcome Fault Value State}
    {next : Value → State → Outcome Fault Result State}
    (first : Counts endless count limit least state outcome)
    (second : ∀ value middle, count state + least ≤ count middle → count middle ≤ limit →
      Counts endless count limit more middle (next value middle)) :
    Counts endless count limit (least + more) state (OperatorLoop.andThen outcome next) := by
  match outcome with
  | .ok (some value, middle) =>
      obtain ⟨counted, within⟩ := first.2 value middle rfl
      have after := second value middle counted within
      refine ⟨after.1, fun result final ran => ?_⟩
      have counted := after.2 result final ran
      omega
  | .ok (none, middle) => exact Counts.noValue
  | .error fault =>
      refine ⟨fun same => first.1 ?_, fun result final ran => by cases ran⟩
      cases same
      rfl

/-- A loop that counts in every round ends when its fuel is more than what is left to count. -/
theorem Counts.operatorLoop {isOperator : State → Bool}
    {step : Value → State → Outcome Fault Value State} (fuel : Nat) :
    ∀ value state, count state ≤ limit → limit < count state + fuel →
    (∀ value middle, count state ≤ count middle → count middle ≤ limit →
      Counts endless count limit 1 middle (step value middle)) →
    Counts endless count limit 0 state
      (operatorLoop endless isOperator step fuel value state) := by
  induction fuel with
  | zero =>
      intro value state within enough
      omega
  | succ fuel inductionHypothesis =>
      intro value state within enough steps
      by_cases operator : isOperator state = true
      · rw [operatorLoop_more operator]
        refine Counts.mono ((steps value state (Nat.le_refl _) within).andThen
          fun result middle counted middleWithin => ?_) (Nat.zero_le (1 + 0))
        exact inductionHypothesis result middle middleWithin (by omega)
          fun value later after => steps value later (by omega)
      · rw [operatorLoop_done (Nat.succ_pos fuel) (Bool.eq_false_iff.2 operator)]
        exact Counts.done rfl within

end Ending

end OperatorLoop

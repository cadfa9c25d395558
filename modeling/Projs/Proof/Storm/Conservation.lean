import Mathlib.Algebra.BigOperators.Group.Finset.Basic
import Mathlib.Data.Fintype.Basic
import Projs.Construction.Storm.WordCountTopology

namespace Projs.Storm
open Java LabelledMachine

/-- This is how often a word occurs in lines, as the splitter cuts them. -/
def occurrences (word : JavaString) (lines : Multiset JavaString) : Nat :=
  (lines.bind fun line => (MySplitBolt.words line : Multiset JavaString)).count word

@[simp] theorem occurrences_zero (word : JavaString) : occurrences word 0 = 0 := rfl

theorem occurrences_cons (word line : JavaString) (lines : Multiset JavaString) :
    occurrences word (line ::ₘ lines) =
      (MySplitBolt.words line : Multiset JavaString).count word + occurrences word lines := by
  unfold occurrences
  rw [Multiset.cons_bind, Multiset.count_add]

theorem occurrences_add (word : JavaString) (first second : Multiset JavaString) :
    occurrences word (first + second) = occurrences word first + occurrences word second := by
  unfold occurrences
  rw [Multiset.add_bind, Multiset.count_add]

/-- A line taken out of a collection takes its words along. -/
theorem occurrences_erase (word : JavaString) {line : JavaString} {lines : Multiset JavaString}
    (member : line ∈ lines) :
    (MySplitBolt.words line : Multiset JavaString).count word +
      occurrences word (lines.erase line) = occurrences word lines := by
  rw [← occurrences_cons, Multiset.cons_erase member]

/-- The splitter emits one tuple for each occurrence of a word. -/
theorem execute_count (word line : JavaString) :
    (MySplitBolt.execute line : Multiset WordTuple).count ⟨word, 1⟩ =
      (MySplitBolt.words line : Multiset JavaString).count word := by
  have injective : Function.Injective fun word : JavaString => (⟨word, 1⟩ : WordTuple) := by
    intro first second same
    exact congrArg WordTuple.word same
  rw [MySplitBolt.execute, ← Multiset.map_coe]
  exact Multiset.count_map_eq_count' _ _ injective word

/-- This is the line that a step of the spout emits. -/
def Step.emits {SplitTask CountTask : Type} : Step SplitTask CountTask → Option JavaString
  | .emit line => some line
  | .split _ _ => none
  | .count _ _ => none

/-- These are the lines that the steps of a run emit. -/
def emittedBy {SplitTask CountTask : Type} (steps : List (Step SplitTask CountTask)) :
    Multiset JavaString := ↑(steps.filterMap Step.emits)

/-- Only the counter that a word is routed to stores it, with the number of its tuples so far. -/
def Stores {CountTask : Type} [DecidableEq CountTask] (route : JavaString → CountTask)
    (maps : CountTask → CountMap) (word : JavaString) (delivered : Nat) : Prop :=
  ∀ task, maps task word =
    if task = route word ∧ 0 < delivered then some (delivered : Int) else none

/-- A counter that executes one more tuple of a word adds one to the word's count. -/
theorem Stores.execute {CountTask : Type} [DecidableEq CountTask]
    {route : JavaString → CountTask} {maps : CountTask → CountMap} {word : JavaString}
    {delivered : Nat} (stores : Stores route maps word delivered) (fits : delivered + 1 < 2 ^ 31) :
    Stores route (Function.update maps (route word)
      (MyCountBolt.execute (maps (route word)) ⟨word, 1⟩)) word (delivered + 1) := by
  intro task
  by_cases own : task = route word
  · subst own
    have before := stores (route word)
    rw [Function.update_self, if_pos ⟨rfl, Nat.succ_pos _⟩]
    by_cases known : 0 < delivered
    · rw [if_pos ⟨rfl, known⟩] at before
      have exact : wrapInt ((delivered : Int) + 1) = (delivered : Int) + 1 :=
        wrapInt_of_range (by omega) (by omega)
      simp only [MyCountBolt.execute, before, Function.update_self, exact]
      rfl
    · rw [if_neg (fun both => known both.2)] at before
      have none : delivered = 0 := by omega
      simp only [MyCountBolt.execute, before, Function.update_self, none]
      rfl
  · rw [Function.update_of_ne own, stores task, if_neg (fun both => own both.1),
      if_neg (fun both => own both.1)]

/-- A counter that executes a tuple leaves the other words alone. -/
theorem execute_of_ne (map : CountMap) {word : JavaString} {tuple : WordTuple}
    (other : tuple.word ≠ word) : MyCountBolt.execute map tuple word = map word := by
  unfold MyCountBolt.execute
  cases map tuple.word with
  | some count => exact Function.update_of_ne other.symm _ _
  | none => exact Function.update_of_ne other.symm _ _

/-- A tuple of another word leaves the counts of a word alone. -/
theorem Stores.execute_other {CountTask : Type} [DecidableEq CountTask]
    {route : JavaString → CountTask} {maps : CountTask → CountMap} {word : JavaString}
    {delivered : Nat} (stores : Stores route maps word delivered) {tuple : WordTuple}
    (other : tuple.word ≠ word) (task : CountTask) :
    Stores route (Function.update maps task (MyCountBolt.execute (maps task) tuple)) word
      delivered := by
  intro found
  by_cases same : found = task
  · rw [same, Function.update_self, execute_of_ne _ other]
    exact stores task
  · rw [Function.update_of_ne same]
    exact stores found

/-- Every occurrence of a word is in a line to split, in a tuple in flight or in its counter. -/
structure Conserved {CountTask : Type} [DecidableEq CountTask] (route : JavaString → CountTask)
    (input : Multiset JavaString) (state : Topology CountTask) : Prop where
  sent : state.emitted + state.unsent = input
  ones : ∀ tuple ∈ state.tuples, tuple.num = 1
  balance : ∀ word, ∃ delivered, Stores route state.maps word delivered ∧
    delivered + state.tuples.count ⟨word, 1⟩ + occurrences word state.lines =
      occurrences word state.emitted

variable {SplitTask CountTask : Type} [DecidableEq CountTask] {route : JavaString → CountTask}
  {input : Multiset JavaString}

theorem conserved_start (route : JavaString → CountTask) (input : Multiset JavaString) :
    Conserved route input (start CountTask input) := by
  refine ⟨Multiset.zero_add input, by simp [start], ?_⟩
  intro word
  refine ⟨0, ?_, by simp [start]⟩
  intro task
  simp [start]

/-- The occurrences of a word in the emitted lines are bounded by those in all lines. -/
theorem Conserved.emitted_le {state : Topology CountTask}
    (conserved : Conserved route input state) (word : JavaString) :
    occurrences word state.emitted ≤ occurrences word input := by
  rw [← conserved.sent, occurrences_add]
  exact Nat.le_add_right _ _

/-- Emitting a line adds its words to the lines that wait. -/
theorem Conserved.emit {state : Topology CountTask} (conserved : Conserved route input state)
    {line : JavaString} (member : line ∈ state.unsent) :
    Conserved route input { state with
      unsent := state.unsent.erase line
      emitted := line ::ₘ state.emitted
      lines := line ::ₘ state.lines } := by
  refine ⟨?_, conserved.ones, ?_⟩
  · have sent := conserved.sent
    rw [← Multiset.cons_erase member, Multiset.add_cons] at sent
    rw [Multiset.cons_add, sent]
  · intro word
    obtain ⟨delivered, stores, balance⟩ := conserved.balance word
    refine ⟨delivered, stores, ?_⟩
    simp only [occurrences_cons]
    omega

/-- Splitting a line moves its words from the waiting lines to the tuples in flight. -/
theorem Conserved.split {state : Topology CountTask} (conserved : Conserved route input state)
    {line : JavaString} (member : line ∈ state.lines) :
    Conserved route input { state with
      lines := state.lines.erase line
      tuples := ↑(MySplitBolt.execute line) + state.tuples } := by
  refine ⟨conserved.sent, ?_, ?_⟩
  · intro tuple found
    rcases Multiset.mem_add.mp found with emitted | before
    · obtain ⟨word, _, same⟩ := List.mem_map.mp (Multiset.mem_coe.mp emitted)
      rw [← same]
    · exact conserved.ones tuple before
  · intro word
    obtain ⟨delivered, stores, balance⟩ := conserved.balance word
    have moved := occurrences_erase word member
    refine ⟨delivered, stores, ?_⟩
    simp only [Multiset.count_add, execute_count]
    omega

/-- Executing a tuple moves one occurrence of its word from the flight to the word's counter. -/
theorem Conserved.count {state : Topology CountTask} (conserved : Conserved route input state)
    (fits : ∀ word, occurrences word input < 2 ^ 31) {tuple : WordTuple}
    (member : tuple ∈ state.tuples) :
    Conserved route input { state with
      tuples := state.tuples.erase tuple
      maps := Function.update state.maps (route tuple.word)
        (MyCountBolt.execute (state.maps (route tuple.word)) tuple) } := by
  obtain ⟨found, num⟩ := tuple
  have one : num = 1 := conserved.ones _ member
  subst one
  refine ⟨conserved.sent, ?_, ?_⟩
  · intro other present
    exact conserved.ones other (Multiset.mem_of_mem_erase present)
  · intro word
    obtain ⟨delivered, stores, balance⟩ := conserved.balance word
    by_cases own : found = word
    · subst own
      have present := Multiset.count_pos.mpr member
      have emitted := conserved.emitted_le found
      have bound := fits found
      refine ⟨delivered + 1, stores.execute (by omega), ?_⟩
      simp only [Multiset.count_erase_self]
      omega
    · refine ⟨delivered, stores.execute_other own _, ?_⟩
      have different : (⟨word, 1⟩ : WordTuple) ≠ ⟨found, 1⟩ := by
        intro same
        exact own (congrArg WordTuple.word same).symm
      rw [Multiset.count_erase_of_ne different]
      exact balance

/-- A step emits a line that is not sent yet, splits a line that waits, or executes a tuple in
flight at the counter of its word. -/
theorem step_cases {state next : Topology CountTask} {label : Step SplitTask CountTask}
    (stepped : (topology route).step state label = .ok next) :
    (∃ line ∈ state.unsent, label = .emit line ∧ next = { state with
      unsent := state.unsent.erase line
      emitted := line ::ₘ state.emitted
      lines := line ::ₘ state.lines }) ∨
    (∃ task, ∃ line ∈ state.lines, label = .split task line ∧ next = { state with
      lines := state.lines.erase line
      tuples := ↑(MySplitBolt.execute line) + state.tuples }) ∨
    ∃ tuple ∈ state.tuples, label = .count (route tuple.word) tuple ∧ next = { state with
      tuples := state.tuples.erase tuple
      maps := Function.update state.maps (route tuple.word)
        (MyCountBolt.execute (state.maps (route tuple.word)) tuple) } := by
  cases label with
  | emit line =>
      simp only [topology] at stepped
      split at stepped
      · next member =>
          cases stepped
          exact .inl ⟨line, member, rfl, rfl⟩
      · cases stepped
  | split task line =>
      simp only [topology] at stepped
      split at stepped
      · next member =>
          cases stepped
          exact .inr (.inl ⟨task, line, member, rfl, rfl⟩)
      · cases stepped
  | count task tuple =>
      simp only [topology] at stepped
      split at stepped
      · next both =>
          obtain ⟨member, routed⟩ := both
          subst routed
          cases stepped
          exact .inr (.inr ⟨tuple, member, rfl, rfl⟩)
      · cases stepped

/-- No step loses or duplicates an occurrence of a word. -/
theorem conserved_keeps (fits : ∀ word, occurrences word input < 2 ^ 31) :
    (topology route : Machine _ (Step SplitTask CountTask) _).Keeps fun _ state =>
      Conserved route input state := by
  intro _ state label next conserved _ stepped
  obtain ⟨line, member, -, same⟩ | ⟨task, line, member, -, same⟩ | ⟨tuple, member, -, same⟩ :=
    step_cases stepped
  · rw [same]
    exact conserved.emit member
  · rw [same]
    exact conserved.split member
  · rw [same]
    exact conserved.count fits member

/-- The emitted lines of a state are those of the emit steps that led to it. -/
theorem emitted_keeps (route : JavaString → CountTask) :
    (topology route : Machine _ (Step SplitTask CountTask) _).Keeps fun steps state =>
      state.emitted = emittedBy steps := by
  intro steps state label next before _ stepped
  have behind : emittedBy (steps ++ [label]) = ↑label.emits.toList + emittedBy steps := by
    rw [emittedBy, List.filterMap_append, ← Multiset.coe_add, add_comm]
    cases label <;> rfl
  rw [behind, ← before]
  obtain ⟨line, -, named, same⟩ | ⟨task, line, -, named, same⟩ | ⟨tuple, -, named, same⟩ :=
    step_cases stepped
  · rw [named, same]
    rfl
  · rw [named, same]
    exact (Multiset.zero_add _).symm
  · rw [named, same]
    exact (Multiset.zero_add _).symm

/-- The maps, the flight and the waiting lines account for every word of the emitted lines, and each
word has at most one counter; when nothing is in flight, the maps are the word count. -/
structure CountsEveryWord {CountTask : Type} [Fintype CountTask] (state : Topology CountTask) :
    Prop where
  balance : ∀ word, ∑ task, (state.maps task word).getD 0 + state.tuples.count ⟨word, 1⟩ +
    occurrences word state.lines = occurrences word state.emitted
  single : ∀ word first second, (state.maps first word).isSome → (state.maps second word).isSome →
    first = second
  complete : state.lines = 0 → state.tuples = 0 → ∀ word num,
    (∃ task, state.maps task word = some num) ↔ 0 < num ∧ num = occurrences word state.emitted

/-- The counts of a word over all tasks are the number of its executed tuples. -/
theorem Stores.sum [Fintype CountTask] {maps : CountTask → CountMap} {word : JavaString}
    {delivered : Nat} (stores : Stores route maps word delivered) :
    ∑ task, (maps task word).getD 0 = (delivered : Int) := by
  rw [Finset.sum_eq_single (route word)]
  · rw [stores (route word)]
    by_cases known : 0 < delivered
    · rw [if_pos ⟨rfl, known⟩, Option.getD_some]
    · rw [if_neg (fun both => known both.2), Option.getD_none]
      omega
  · intro task _ other
    rw [stores task, if_neg (fun both => other both.1), Option.getD_none]
  · intro absent
    exact absurd (Finset.mem_univ _) absent

/-- Only the task of a word knows it. -/
theorem Stores.task_eq {maps : CountTask → CountMap} {word : JavaString} {delivered : Nat}
    (stores : Stores route maps word delivered) {task : CountTask} {num : Int}
    (known : maps task word = some num) :
    task = route word ∧ 0 < delivered ∧ num = delivered := by
  rw [stores task] at known
  split at known
  · next both => exact ⟨both.1, both.2, (Option.some.inj known).symm⟩
  · cases known

theorem Conserved.counts [Fintype CountTask] {state : Topology CountTask}
    (conserved : Conserved route input state) : CountsEveryWord state := by
  constructor
  · intro word
    obtain ⟨delivered, stores, balance⟩ := conserved.balance word
    rw [stores.sum]
    exact_mod_cast balance
  · intro word first second left right
    obtain ⟨delivered, stores, _⟩ := conserved.balance word
    obtain ⟨_, left⟩ := Option.isSome_iff_exists.mp left
    obtain ⟨_, right⟩ := Option.isSome_iff_exists.mp right
    exact (stores.task_eq left).1.trans (stores.task_eq right).1.symm
  · intro waiting flying word num
    obtain ⟨delivered, stores, balance⟩ := conserved.balance word
    rw [waiting, flying, occurrences_zero, Multiset.count_zero] at balance
    constructor
    · intro known
      obtain ⟨task, known⟩ := known
      obtain ⟨_, positive, same⟩ := stores.task_eq known
      omega
    · intro counted
      obtain ⟨positive, same⟩ := counted
      refine ⟨route word, ?_⟩
      rw [stores (route word), if_pos ⟨rfl, by omega⟩, Option.some.injEq]
      omega

/-- In every order of execution, the topology neither loses nor duplicates a word. -/
theorem words_conserved [Fintype CountTask] (route : JavaString → CountTask)
    (input : Multiset JavaString) (fits : ∀ word, occurrences word input < 2 ^ 31)
    (steps : List (Step SplitTask CountTask)) (state : Topology CountTask)
    (reached : (topology route).run (start CountTask input) steps = .ok state) :
    CountsEveryWord state ∧ state.emitted = emittedBy steps ∧
      state.emitted + state.unsent = input := by
  have conserved := (conserved_keeps fits).run _ (conserved_start route input) reached
  have emitted := (emitted_keeps route).run _ rfl reached
  exact ⟨conserved.counts, emitted, conserved.sent⟩

/-- Words that start with the letter a go to the first of two counters. -/
def sampleRoute (word : JavaString) : Fin 2 := if word.head? = some 0x61 then 0 else 1

/-- Two lines with repeated words wait for the spout. -/
def sampleInput : Multiset JavaString := {literal "a, b a.", literal "b"}

/-- Two splitters and two counters execute the first line, and the second one is not split yet. -/
def sampleSteps : List (Step (Fin 2) (Fin 2)) :=
  [.emit (literal "a, b a."), .split 1 (literal "a, b a."), .count 0 ⟨literal "a", 1⟩,
    .emit (literal "b"), .count 1 ⟨literal "b", 1⟩, .count 0 ⟨literal "a", 1⟩]

theorem words_conserved_sampleSteps :
    ∃ state, (topology sampleRoute).run (start (Fin 2) sampleInput) sampleSteps = .ok state ∧
      (state.maps 0 (literal "a") = some 2 ∧ state.maps 1 (literal "b") = some 1 ∧
        state.lines = {literal "b"} ∧ state.tuples = 0) ∧
      CountsEveryWord state ∧ state.emitted = emittedBy sampleSteps ∧
      state.emitted + state.unsent = sampleInput := by
  have seen : ((topology sampleRoute).run (start (Fin 2) sampleInput) sampleSteps).toOption.map
      (fun state => (state.maps 0 (literal "a"), state.maps 1 (literal "b"), state.lines,
        state.tuples)) = some (some 2, some 1, {literal "b"}, 0) := by decide
  have fits (word : JavaString) : occurrences word sampleInput < 2 ^ 31 := by
    apply Nat.lt_of_le_of_lt (Multiset.count_le_card _ _)
    decide
  obtain ⟨state, found, shown⟩ := Option.map_eq_some_iff.mp seen
  have reached := ok_of_toOption found
  simp only [Prod.mk.injEq] at shown
  exact ⟨state, reached, shown, words_conserved sampleRoute _ fits sampleSteps state reached⟩

end Projs.Storm

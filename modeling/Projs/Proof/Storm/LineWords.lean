import Projs.Construction.Storm.WordCountTopology
import Projs.Library.Tokens
import Projs.Proof.Java.Text

namespace Projs.Storm
open Java Tokens

/-- Words end at spaces and at line feeds. -/
def isBreak (character : JavaChar) : Bool := character = 0x20 || character = 0x0A

/-- This is the line without its full stops and commas. -/
def withoutMarks (line : JavaString) : JavaString :=
  line.filter fun character => character != 0x2E && character != 0x2C

/-- The words of a line are the longest pieces without a break, each counted once; none of them is
empty or holds a break or a mark. -/
structure EmitsRuns (line : JavaString) : Prop where
  runs : Renders isBreak ((MySplitBolt.execute line).map WordTuple.word) (withoutMarks line)
  ones : ∀ tuple ∈ MySplitBolt.execute line, tuple.num = 1
  proper : ∀ tuple ∈ MySplitBolt.execute line, tuple.word ≠ [] ∧
    ∀ character ∈ tuple.word, character ∉ ([0x20, 0x0A, 0x2E, 0x2C] : JavaString)

/-- Something is left of the line, and a break at its start or behind another break has only breaks
behind it. -/
def CutsCleanly (line : JavaString) : Prop :=
  withoutMarks line ≠ [] ∧ SeparatesOnce isBreak true (withoutMarks line)

/-- The first two replacements delete the marks. -/
theorem replace_marks (line : JavaString) :
    replace 0x2C [] (replace 0x2E [] line) = withoutMarks line := by
  rw [replace_nil, replace_nil, List.filter_filter, withoutMarks]
  congr 1
  funext character
  exact Bool.and_comm _ _

/-- A space in place of every line feed leaves the pieces between the breaks alone. -/
theorem splitOn_replace (text : JavaString) :
    (replace 0x0A [0x20] text).splitOn 0x20 = text.splitOnP isBreak := by
  induction text with
  | nil => rfl
  | cons character text ih =>
      rw [replace, List.flatMap_cons, ← replace, List.splitOnP_cons_eq_if_modifyHead]
      by_cases feed : character = 0x0A
      · rw [if_pos feed, List.singleton_append, List.splitOn_cons_eq_if_modifyHead, ih]
        simp [isBreak, feed]
      · rw [if_neg feed, List.singleton_append, List.splitOn_cons_eq_if_modifyHead, ih]
        simp [isBreak, feed]

theorem replace_eq_nil_iff (text : JavaString) : replace 0x0A [0x20] text = [] ↔ text = [] := by
  cases text with
  | nil => simp [replace]
  | cons character text =>
      rw [replace, List.flatMap_cons]
      split <;> simp

/-- The splitter cuts what is left of a line into the pieces between its breaks. -/
theorem words_of_ne_nil {line : JavaString} (filled : withoutMarks line ≠ []) :
    MySplitBolt.words line =
      ((withoutMarks line).splitOnP isBreak).rdropWhile List.isEmpty := by
  have left : replace 0x0A [0x20] (withoutMarks line) ≠ [] :=
    fun empty => filled ((replace_eq_nil_iff _).mp empty)
  rw [MySplitBolt.words, replace_marks, split_of_ne_nil _ left, splitOn_replace]

/-- A line of which nothing is left still gives one word, which is empty. -/
theorem words_of_eq_nil {line : JavaString} (empty : withoutMarks line = []) :
    MySplitBolt.words line = [[]] := by
  rw [MySplitBolt.words, replace_marks, empty]
  rfl

/-- The splitter emits the words that it cuts. -/
theorem execute_words (line : JavaString) :
    (MySplitBolt.execute line).map WordTuple.word = MySplitBolt.words line := by
  rw [MySplitBolt.execute, List.map_map]
  exact List.map_id _

/-- The words are the tokens of what is left exactly when the line cuts cleanly. -/
theorem words_eq_tokens_iff (line : JavaString) :
    MySplitBolt.words line = tokens isBreak (withoutMarks line) ↔ CutsCleanly line := by
  by_cases empty : withoutMarks line = []
  · have other : ¬ CutsCleanly line := fun clean => clean.1 empty
    rw [words_of_eq_nil empty, empty, tokens_nil]
    simp [other]
  · rw [words_of_ne_nil empty, rdropWhile_splitOnP_iff, CutsCleanly]
    simp [empty]

/-- A word of a line is not empty and holds neither a break nor a mark. -/
theorem proper_of_renders {words : List JavaString} {line word : JavaString}
    (renders : Renders isBreak words (withoutMarks line)) (member : word ∈ words) :
    word ≠ [] ∧ ∀ character ∈ word, character ∉ ([0x20, 0x0A, 0x2E, 0x2C] : JavaString) := by
  obtain ⟨filled, letters⟩ := renders.word_spec member
  refine ⟨filled, ?_⟩
  intro character inside
  obtain ⟨plain, found⟩ := letters character inside
  have unmarked := (List.mem_filter.mp found).2
  simp only [isBreak, Bool.or_eq_false_iff, decide_eq_false_iff_not] at plain
  simp only [Bool.and_eq_true, bne_iff_ne] at unmarked
  simp [plain, unmarked]

/-- The splitter emits exactly the words of a line when the line cuts cleanly, and then two lines
with the same words emit the same tuples. -/
theorem emitsRuns_iff (line : JavaString) :
    (EmitsRuns line ↔ CutsCleanly line) ∧
      ∀ other words, CutsCleanly line → CutsCleanly other →
        Renders isBreak words (withoutMarks line) → Renders isBreak words (withoutMarks other) →
          MySplitBolt.execute other = MySplitBolt.execute line := by
  constructor
  · constructor
    · intro emits
      have runs := emits.runs
      rw [execute_words, renders_iff, words_eq_tokens_iff] at runs
      exact runs
    · intro clean
      have words := (words_eq_tokens_iff line).mpr clean
      constructor
      · rw [execute_words, words]
        exact renders_tokens _ _
      · intro tuple member
        obtain ⟨word, _, same⟩ := List.mem_map.mp member
        rw [← same]
      · intro tuple member
        obtain ⟨word, found, same⟩ := List.mem_map.mp member
        rw [words] at found
        rw [← same]
        exact proper_of_renders (renders_tokens _ _) found
  · intro other words clean otherClean first second
    rw [renders_iff] at first second
    rw [MySplitBolt.execute, (words_eq_tokens_iff other).mpr otherClean, ← second, first,
      ← (words_eq_tokens_iff line).mpr clean, MySplitBolt.execute]

/-- A doubled space makes an empty word. -/
theorem doubled_space_not_runs :
    MySplitBolt.execute (literal "a  b") =
        [⟨literal "a", 1⟩, ⟨[], 1⟩, ⟨literal "b", 1⟩] ∧
      MySplitBolt.execute (literal "a b") = [⟨literal "a", 1⟩, ⟨literal "b", 1⟩] ∧
      ¬ EmitsRuns (literal "a  b") := by
  have emitted : MySplitBolt.execute (literal "a  b") =
      [⟨literal "a", 1⟩, ⟨[], 1⟩, ⟨literal "b", 1⟩] := by decide
  refine ⟨emitted, by decide, ?_⟩
  intro emits
  have proper := emits.proper ⟨[], 1⟩ (by rw [emitted]; decide)
  exact proper.1 rfl

end Projs.Storm

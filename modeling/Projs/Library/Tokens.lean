import Mathlib.Data.List.Basic
import Mathlib.Data.List.DropRight
import Mathlib.Data.List.Induction
import Mathlib.Tactic.Common

namespace Tokens

variable {Symbol : Type}

/-- These are the non-empty pieces between the separators of a text. -/
def tokens (separator : Symbol → Bool) (text : List Symbol) : List (List Symbol) :=
  (text.splitOnP separator).filter fun piece => !piece.isEmpty

/-- A text renders words when it consists of them, in order, with gaps of separators around them:
a word is not empty, holds no separator, and ends at a separator or with the text. -/
inductive Renders (separator : Symbol → Bool) : List (List Symbol) → List Symbol → Prop
  | gap {gap : List Symbol} (separates : ∀ symbol ∈ gap, separator symbol = true) :
      Renders separator [] gap
  | word {gap word rest : List Symbol} {words : List (List Symbol)}
      (separates : ∀ symbol ∈ gap, separator symbol = true) (filled : word ≠ [])
      (plain : ∀ symbol ∈ word, separator symbol = false)
      (ends : ∀ symbol ∈ rest.head?, separator symbol = true)
      (others : Renders separator words rest) :
      Renders separator (word :: words) (gap ++ (word ++ rest))

variable {separator : Symbol → Bool}

@[simp] theorem tokens_nil : tokens separator [] = [] := by simp [tokens]

/-- A separator in front adds no token. -/
theorem tokens_cons_separator {symbol : Symbol} (text : List Symbol)
    (separates : separator symbol = true) :
    tokens separator (symbol :: text) = tokens separator text := by
  simp [tokens, List.splitOnP_cons_eq_if_modifyHead, separates]

/-- A gap in front adds no token. -/
theorem tokens_gap_append {gap : List Symbol} (text : List Symbol)
    (separates : ∀ symbol ∈ gap, separator symbol = true) :
    tokens separator (gap ++ text) = tokens separator text := by
  induction gap with
  | nil => rfl
  | cons symbol gap ih =>
      rw [List.cons_append, tokens_cons_separator _ (separates symbol List.mem_cons_self)]
      exact ih fun other member => separates other (List.mem_cons_of_mem _ member)

/-- A word that ends at a separator or with the text is a token. -/
theorem tokens_word_append {word rest : List Symbol} (filled : word ≠ [])
    (plain : ∀ symbol ∈ word, separator symbol = false)
    (ends : ∀ symbol ∈ rest.head?, separator symbol = true) :
    tokens separator (word ++ rest) = word :: tokens separator rest := by
  have kept : (!word.isEmpty) = true := by simp [filled]
  cases rest with
  | nil => simp [tokens, List.splitOnP_eq_singleton plain, filled]
  | cons symbol rest =>
      have separates := ends symbol rfl
      rw [tokens_cons_separator rest separates, tokens,
        List.splitOnP_append_cons_of_forall_mem plain symbol separates]
      exact List.filter_cons_of_pos kept

/-- The words that a text renders are its tokens. -/
theorem Renders.tokens_eq {words : List (List Symbol)} {text : List Symbol}
    (renders : Renders separator words text) : tokens separator text = words := by
  induction renders with
  | gap separates =>
      have alone := tokens_gap_append [] separates
      rw [List.append_nil] at alone
      rw [alone, tokens_nil]
  | word separates filled plain ends others ih =>
      rw [tokens_gap_append _ separates, tokens_word_append filled plain ends, ih]

theorem Renders.cons_separator {words : List (List Symbol)} {text : List Symbol} {symbol : Symbol}
    (renders : Renders separator words text) (separates : separator symbol = true) :
    Renders separator words (symbol :: text) := by
  cases renders with
  | gap gap => exact .gap (List.forall_mem_cons.mpr ⟨separates, gap⟩)
  | @word gap word rest words gaps filled plain ends others =>
      have longer : ∀ other ∈ symbol :: gap, separator other = true :=
        List.forall_mem_cons.mpr ⟨separates, gaps⟩
      exact Renders.word longer filled plain ends others

/-- A text can begin with a word. -/
theorem Renders.word_first {words : List (List Symbol)} {word rest : List Symbol}
    (filled : word ≠ []) (plain : ∀ symbol ∈ word, separator symbol = false)
    (ends : ∀ symbol ∈ rest.head?, separator symbol = true)
    (others : Renders separator words rest) : Renders separator (word :: words) (word ++ rest) :=
  Renders.word (List.forall_mem_nil _) filled plain ends others

/-- A symbol in front extends the word that a text begins with, or is a word of its own. -/
theorem Renders.cons_symbol {words : List (List Symbol)} {text : List Symbol} {symbol : Symbol}
    (renders : Renders separator words text) (plain : separator symbol = false) :
    ∃ longer, Renders separator longer (symbol :: text) := by
  have alone : ∀ other ∈ [symbol], separator other = false := by simpa using plain
  cases renders with
  | gap gap =>
      refine ⟨_, Renders.word_first (List.cons_ne_nil symbol []) alone ?_ (.gap gap)⟩
      intro first member
      exact gap first (List.mem_of_mem_head? member)
  | @word gap word rest others separates filled letters ends renders =>
      cases gap with
      | nil =>
          exact ⟨_, Renders.word_first (List.cons_ne_nil symbol word)
            (List.forall_mem_cons.mpr ⟨plain, letters⟩) ends renders⟩
      | cons first gap =>
          refine ⟨_, Renders.word_first (List.cons_ne_nil symbol []) alone ?_
            (.word separates filled letters ends renders)⟩
          intro other member
          cases member
          exact separates first List.mem_cons_self

/-- A rendered word is not empty and holds symbols of the text that are no separators. -/
theorem Renders.word_spec {words : List (List Symbol)} {text word : List Symbol}
    (renders : Renders separator words text) (member : word ∈ words) :
    word ≠ [] ∧ ∀ symbol ∈ word, separator symbol = false ∧ symbol ∈ text := by
  induction renders with
  | gap => cases member
  | word separates filled plain ends others ih =>
      rcases List.mem_cons.mp member with first | later
      · subst first
        refine ⟨filled, ?_⟩
        intro symbol inside
        exact ⟨plain symbol inside, by simp [inside]⟩
      · obtain ⟨filled, letters⟩ := ih later
        refine ⟨filled, ?_⟩
        intro symbol inside
        obtain ⟨plain, found⟩ := letters symbol inside
        exact ⟨plain, by simp [found]⟩

/-- Every text renders its tokens. -/
theorem renders_tokens (separator : Symbol → Bool) (text : List Symbol) :
    Renders separator (tokens separator text) text := by
  suffices found : ∃ words, Renders separator words text by
    obtain ⟨words, renders⟩ := found
    rwa [renders.tokens_eq]
  induction text with
  | nil => exact ⟨[], .gap nofun⟩
  | cons symbol text ih =>
      obtain ⟨words, renders⟩ := ih
      cases kind : separator symbol with
      | true => exact ⟨words, renders.cons_separator kind⟩
      | false => exact renders.cons_symbol kind

/-- The tokens of a text are the only words that it renders. -/
theorem renders_iff {words : List (List Symbol)} {text : List Symbol} :
    Renders separator words text ↔ words = tokens separator text := by
  constructor
  · intro renders
    exact renders.tokens_eq.symm
  · intro same
    rw [same]
    exact renders_tokens separator text

/-- A separator at the start of a text, or behind another separator, has only separators behind it;
`behind` tells whether the start counts as behind a separator. -/
def SeparatesOnce (separator : Symbol → Bool) (behind : Bool) (text : List Symbol) : Prop :=
  ∀ before symbol after, text = before ++ symbol :: after → separator symbol = true →
    before.getLast?.elim behind separator = true → ∀ other ∈ after, separator other = true

theorem separatesOnce_nil (behind : Bool) : SeparatesOnce separator behind [] := by
  intro before symbol after split
  cases before <;> cases split

theorem separatesOnce_cons {behind : Bool} {symbol : Symbol} {text : List Symbol} :
    SeparatesOnce separator behind (symbol :: text) ↔
      (separator symbol = true → behind = true → ∀ other ∈ text, separator other = true) ∧
        SeparatesOnce separator (separator symbol) text := by
  constructor
  · intro once
    refine ⟨once [] symbol text rfl, ?_⟩
    intro before other after split separates last
    apply once (symbol :: before) other after (congrArg (symbol :: ·) split) separates
    cases found : before.getLast? <;> simp_all [List.getLast?_cons]
  · rintro ⟨first, others⟩ before other after split separates last
    cases before with
    | nil =>
        cases split
        exact first separates last
    | cons head tail =>
        cases split
        apply others tail other after rfl separates
        cases found : tail.getLast? <;> simp_all [List.getLast?_cons]

/-- An empty piece has only empty pieces behind it. -/
def EmptyLast (pieces : List (List Symbol)) : Prop :=
  pieces.Pairwise fun earlier later => earlier = [] → later = []

/-- The pieces without the empty ones at the end are those that are not empty, exactly when the
empty pieces all stand at the end. -/
theorem rdropWhile_eq_filter_iff (pieces : List (List Symbol)) :
    pieces.rdropWhile List.isEmpty = pieces.filter (fun piece => !piece.isEmpty) ↔
      EmptyLast pieces := by
  induction pieces using List.reverseRecOn with
  | nil => simp [EmptyLast]
  | append_singleton pieces last ih =>
      unfold EmptyLast at ih ⊢
      rw [List.pairwise_append, List.filter_append]
      cases last with
      | nil => simpa [List.rdropWhile_concat] using ih
      | cons symbol rest =>
          have stays : (pieces ++ [symbol :: rest]).rdropWhile List.isEmpty =
              pieces ++ [symbol :: rest] := List.rdropWhile_concat_neg _ _ _ (by simp)
          have kept : [symbol :: rest].filter (fun piece => !piece.isEmpty) = [symbol :: rest] :=
            rfl
          rw [stays, kept, List.append_left_inj, eq_comm, List.filter_eq_self]
          constructor
          · intro filled
            have never : ∀ piece ∈ pieces, piece ≠ [] := fun piece member => by
              simpa using filled piece member
            refine ⟨?_, List.pairwise_singleton _ _, ?_⟩
            · exact List.pairwise_of_forall_mem_list fun earlier member _ _ empty =>
                absurd empty (never earlier member)
            · intro earlier member _ _ empty
              exact absurd empty (never earlier member)
          · rintro ⟨_, _, apart⟩ piece member
            have never := apart piece member (symbol :: rest) List.mem_cons_self
            cases piece with
            | nil => exact absurd (never rfl) (List.cons_ne_nil _ _)
            | cons => rfl

theorem emptyLast_cons {piece : List Symbol} {pieces : List (List Symbol)} :
    EmptyLast (piece :: pieces) ↔
      (piece = [] → ∀ other ∈ pieces, other = []) ∧ EmptyLast pieces := by
  unfold EmptyLast
  rw [List.pairwise_cons]
  constructor
  · exact fun parts => ⟨fun empty other member => parts.1 other member empty, parts.2⟩
  · exact fun parts => ⟨fun other member empty => parts.1 empty other member, parts.2⟩

/-- A text of separators has empty pieces only. -/
theorem splitOnP_empty_iff (text : List Symbol) :
    (∀ piece ∈ text.splitOnP separator, piece = []) ↔ ∀ symbol ∈ text, separator symbol = true := by
  induction text with
  | nil => simp
  | cons symbol text ih =>
      rw [List.splitOnP_cons_eq_if_modifyHead, List.forall_mem_cons]
      cases kind : separator symbol with
      | true => simpa using ih
      | false =>
          obtain ⟨first, others, pieces⟩ :=
            List.exists_cons_of_ne_nil (List.splitOnP_ne_nil separator text)
          simp [pieces]

/-- The empty pieces of a text stand at the end exactly when it separates once; behind a symbol
that is no separator, the first piece does not count. -/
theorem emptyLast_splitOnP_iff (text : List Symbol) :
    (EmptyLast (text.splitOnP separator) ↔ SeparatesOnce separator true text) ∧
      (EmptyLast (text.splitOnP separator).tail ↔ SeparatesOnce separator false text) := by
  induction text with
  | nil => simp [EmptyLast, separatesOnce_nil]
  | cons symbol text ih =>
      rw [separatesOnce_cons, separatesOnce_cons, List.splitOnP_cons_eq_if_modifyHead]
      cases kind : separator symbol with
      | true =>
          rw [if_pos rfl, emptyLast_cons, List.tail_cons, ← splitOnP_empty_iff, ih.1]
          simp
      | false =>
          obtain ⟨first, others, pieces⟩ :=
            List.exists_cons_of_ne_nil (List.splitOnP_ne_nil separator text)
          have tail := ih.2
          rw [pieces, List.tail_cons] at tail
          rw [if_neg Bool.false_ne_true, pieces, List.modifyHead_cons, emptyLast_cons,
            List.tail_cons, tail]
          simp

/-- Without its empty pieces at the end, a text is cut into its tokens exactly when it separates
once. -/
theorem rdropWhile_splitOnP_iff (text : List Symbol) :
    (text.splitOnP separator).rdropWhile List.isEmpty = tokens separator text ↔
      SeparatesOnce separator true text := by
  rw [tokens, rdropWhile_eq_filter_iff, (emptyLast_splitOnP_iff text).1]

end Tokens

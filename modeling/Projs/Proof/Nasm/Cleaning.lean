import Projs.Proof.Java.Text
import Projs.Construction.Nasm.VsProj
import Projs.Construction.Nasm.ObjList

namespace Projs.Nasm
open Java

theorem objectName : literal "$(O)" = [0x24, 0x28, 0x4F, 0x29] := rfl

theorem sourceName : literal "c" = [0x63] := rfl

theorem continued : literal "\\\n" = [0x5C, 0x0A] := rfl

/-- The text of an entry is a path up to its full stop, and an object name. -/
theorem Entry.text_eq (entry : Entry) :
    entry.text = (entry.path ++ [0x2E]) ++ literal "$(O)" := by
  have suffix : literal ".$(O)" = [0x2E] ++ literal "$(O)" := rfl
  rw [Entry.text, suffix, List.append_assoc]

theorem Entry.text_word (entry : Entry) : 0x20 ∉ entry.text ∧ 0x0A ∉ entry.text := by
  have space : (0x20 : JavaChar) ∉ literal ".$(O)" := by decide
  have line : (0x0A : JavaChar) ∉ literal ".$(O)" := by decide
  rw [Entry.text, List.mem_append, List.mem_append, not_or, not_or]
  exact ⟨⟨entry.word.1, space⟩, entry.word.2.2, line⟩

/-- The name of a C file ends with its suffix. -/
theorem Entry.file_eq (entry : Entry) :
    entry.file =
      replaceText (literal "$(O)") (literal "c") (entry.path ++ [0x2E]) ++ [0x63] := by
  have named : replaceText (literal "$(O)") (literal "c") (literal "$(O)") = [0x63] := by decide
  rw [Entry.file, Entry.text_eq, replaceText_append, named]
  intro tail suffix filled before
  rcases Nat.lt_or_ge tail.length (literal "$(O)").length with short | long
  · -- A tail that ends with the full stop is no beginning of an object name.
    have inside : tail <+: literal "$(O)" :=
      List.prefix_of_prefix_length_le (List.prefix_append _ _) before (Nat.le_of_lt short)
    have stop : [0x2E] <:+ tail :=
      List.suffix_of_suffix_length_le (List.suffix_append _ _) suffix
        (List.length_pos_iff.mpr filled)
    exact absurd (inside.subset (stop.subset List.mem_cons_self)) (by decide)
  · exact List.prefix_of_prefix_length_le before (List.prefix_append _ _) long

/-- No object name begins in an entry and ends behind it. -/
theorem Entry.replace_append (entry : Entry) (rest : JavaString) :
    replaceText (literal "$(O)") (literal "c") (entry.text ++ rest) =
      entry.file ++ replaceText (literal "$(O)") (literal "c") rest := by
  apply replaceText_append
  intro tail suffix filled before
  rcases Nat.lt_or_ge tail.length (literal "$(O)").length with short | long
  · -- A tail this short is a proper end of the object name.
    have inside : tail <:+ [0x28, 0x4F, 0x29] := by
      have ends : ([0x28, 0x4F, 0x29] : JavaString) <:+ entry.text :=
        ⟨entry.path ++ [0x2E, 0x24], by rw [Entry.text_eq, objectName]; simp⟩
      exact List.suffix_of_suffix_length_le suffix ends (Nat.le_of_lt_succ short)
    have dollar : (0x24 : JavaChar) ∈ tail := by
      obtain ⟨first, others, rfl⟩ := List.exists_cons_of_ne_nil filled
      rw [objectName, List.cons_append, List.cons_prefix_cons] at before
      rw [← before.1]
      exact List.mem_cons_self
    exact absurd (inside.subset dollar) (by decide)
  · exact List.prefix_of_prefix_length_le before (List.prefix_append _ _) long

/-- A continuation leaves nothing in the text. -/
def Blank.kept : Blank → JavaString
  | .space => [0x20]
  | .tab => [0x09]
  | .continuation => []

def keptBlanks (blanks : List Blank) : JavaString := blanks.flatMap Blank.kept

/-- Behind the first file, the clean text has the blanks and the file of each entry. -/
def cleanOthers (others : List (Gap × Entry)) : JavaString :=
  others.flatMap fun other => keptBlanks other.1.blanks ++ other.2.file

theorem cleanOthers_cons (other : Gap × Entry) (others : List (Gap × Entry)) :
    cleanOthers (other :: others) =
      keptBlanks other.1.blanks ++ (other.2.file ++ cleanOthers others) := by
  rw [cleanOthers, List.flatMap_cons, List.append_assoc, ← cleanOthers]

/-- Continuations are taken out of a gap. -/
theorem replace_blanks (blanks : List Blank) (rest : JavaString) :
    replaceText (literal "\\\n") [] (blanks.flatMap Blank.text ++ rest) =
      keptBlanks blanks ++ replaceText (literal "\\\n") [] rest := by
  rw [continued]
  induction blanks with
  | nil => rfl
  | cons blank blanks ih =>
      rw [List.flatMap_cons, keptBlanks, List.flatMap_cons, ← keptBlanks, List.append_assoc,
        List.append_assoc, ← ih]
      cases blank with
      | space => exact replaceText_cons_of_ne _ (by decide)
      | tab => exact replaceText_cons_of_ne _ (by decide)
      | continuation => rfl

/-- An entry stays as it is when continuations are removed. -/
theorem Entry.replace_continued (entry : Entry) {rest : JavaString}
    (starts : ∀ character ∈ rest.head?, character ≠ 0x0A) :
    replaceText (literal "\\\n") [] (entry.text ++ rest) =
      entry.text ++ replaceText (literal "\\\n") [] rest := by
  have absent := entry.text_word.2
  have part : (0x0A : JavaChar) ∈ literal "\\\n" := by decide
  rw [replaceText_append, replaceText_of_not_mem part absent]
  intro tail suffix filled before
  match tail with
  | [] => exact absurd rfl filled
  | [last] =>
      obtain ⟨others, whole⟩ := before
      rw [continued] at whole
      cases whole
      exact absurd rfl (starts 0x0A rfl)
  | first :: second :: tail =>
      refine List.prefix_of_prefix_length_le before (List.prefix_append _ _) ?_
      simp [continued]

/-- A gap does not begin with the end of a continuation. -/
theorem othersText_starts (others : List (Gap × Entry)) :
    ∀ character ∈ (othersText others).head?, character ≠ 0x0A := by
  intro character first
  cases others with
  | nil => cases first
  | cons other others =>
      obtain ⟨blank, blanks, same⟩ := List.exists_cons_of_ne_nil other.1.filled
      rw [othersText, List.flatMap_cons, Gap.text, same, List.flatMap_cons] at first
      cases blank <;> cases first <;> decide

theorem replace_others (others : List (Gap × Entry)) :
    replaceText (literal "\\\n") [] (othersText others) =
      others.flatMap fun other => keptBlanks other.1.blanks ++ other.2.text := by
  induction others with
  | nil => rfl
  | cons other others ih =>
      have starts := othersText_starts others
      rw [othersText, List.flatMap_cons, ← othersText, Gap.text, List.append_assoc,
        replace_blanks, Entry.replace_continued _ starts, ih, List.flatMap_cons,
        List.append_assoc]

theorem replace_kept (blanks : List Blank) (rest : JavaString) :
    replaceText (literal "$(O)") (literal "c") (keptBlanks blanks ++ rest) =
      keptBlanks blanks ++ replaceText (literal "$(O)") (literal "c") rest := by
  rw [objectName]
  induction blanks with
  | nil => rfl
  | cons blank blanks ih =>
      rw [keptBlanks, List.flatMap_cons, ← keptBlanks, List.append_assoc, List.append_assoc, ← ih]
      cases blank with
      | space => exact replaceText_cons_of_ne _ (by decide)
      | tab => exact replaceText_cons_of_ne _ (by decide)
      | continuation => rfl

theorem replace_entries (others : List (Gap × Entry)) :
    replaceText (literal "$(O)") (literal "c")
      (others.flatMap fun other => keptBlanks other.1.blanks ++ other.2.text) =
        cleanOthers others := by
  induction others with
  | nil => rfl
  | cons other others ih =>
      rw [List.flatMap_cons, List.append_assoc, replace_kept, Entry.replace_append, ih,
        cleanOthers_cons]

/-- A replacement of object names adds no character but the name's. -/
theorem Entry.mem_file_iff (entry : Entry) {character : JavaChar}
    (kept : character ∉ literal "$(O)") (other : character ∉ literal "c") :
    character ∈ entry.file ↔ character ∈ entry.text :=
  mem_replaceText_iff kept other (by decide)

theorem cleanOthers_lines (others : List (Gap × Entry)) : 0x0A ∉ cleanOthers others := by
  intro inside
  obtain ⟨other, _, part⟩ := List.mem_flatMap.mp inside
  rcases List.mem_append.mp part with blanks | file
  · obtain ⟨blank, _, kept⟩ := List.mem_flatMap.mp blanks
    revert kept
    cases blank <;> decide
  · rw [Entry.mem_file_iff _ (by decide) (by decide)] at file
    exact other.2.text_word.2 file

/-- The clean text has the files of the entries and the blanks between them. -/
theorem objStrClean_list (first : Entry) (others : List (Gap × Entry)) :
    objStrClean (ObjList.list first others).text = first.file ++ cleanOthers others := by
  have lines : 0x0A ∉ first.file ++ cleanOthers others := by
    rw [List.mem_append, Entry.mem_file_iff _ (by decide) (by decide), not_or]
    exact ⟨first.text_word.2, cleanOthers_lines others⟩
  rw [objStrClean, ObjList.text, Entry.replace_continued _ (othersText_starts others),
    replace_others, Entry.replace_append, replace_entries, replace_nil,
    List.filter_eq_self.mpr (bne_of_not_mem lines)]

end Projs.Nasm

import Projs.Proof.Nasm.Cleaning

namespace Projs.Nasm
open Java

/-- The path of an entry does not begin with white space. -/
def Entry.Clear (entry : Entry) : Prop := ∀ character ∈ entry.path.head?, 0x20 < character

/-- Every gap has one space, and no path begins with white space. -/
def Spaced (first : Entry) (others : List (Gap × Entry)) : Prop :=
  first.Clear ∧ ∀ other ∈ others, other.1.blanks.count .space = 1 ∧ other.2.Clear

theorem replaceText_head (text : JavaString) :
    (∀ character ∈ (replaceText (literal "$(O)") (literal "c") text).head?, 0x20 < character) ↔
      ∀ character ∈ text.head?, 0x20 < character := by
  cases text with
  | nil => rfl
  | cons first text =>
      rw [replaceText_cons]
      split
      · next found =>
          obtain ⟨rest, whole⟩ := List.isPrefixOf_iff_prefix.mp found
          rw [objectName] at whole
          cases whole
          constructor
          · rintro _ _ ⟨⟩
            decide
          · rintro _ _ ⟨⟩
            decide
      · rfl

theorem Entry.clear_iff (entry : Entry) :
    (∀ character ∈ entry.file.head?, 0x20 < character) ↔ entry.Clear := by
  have stop : literal ".$(O)" = [0x2E, 0x24, 0x28, 0x4F, 0x29] := rfl
  rw [Entry.file, replaceText_head, Entry.text, Entry.Clear, stop]
  cases entry.path with
  | nil =>
      refine iff_of_true ?_ fun _ first => by cases first
      intro _ first
      cases first
      decide
  | cons first path => rfl

theorem Entry.space_not_mem (entry : Entry) : 0x20 ∉ entry.file := by
  rw [Entry.mem_file_iff _ (by decide) (by decide)]
  exact entry.text_word.1

/-- Without a space, a gap keeps tabs only. -/
theorem tabs_of_not_mem {blanks : List Blank} (absent : .space ∉ blanks) :
    ∀ character ∈ keptBlanks blanks, character = 0x09 := by
  intro character inside
  obtain ⟨blank, member, kept⟩ := List.mem_flatMap.mp inside
  cases blank with
  | space => exact absurd member absent
  | tab => exact List.mem_singleton.mp kept
  | continuation => cases kept

theorem keptBlanks_split (before after : List Blank) :
    keptBlanks (before ++ .space :: after) = keptBlanks before ++ 0x20 :: keptBlanks after := by
  simp [keptBlanks, Blank.kept]

section Tabs
variable {tabs : JavaString} (plain : ∀ character ∈ tabs, character = 0x09)
include plain

theorem space_not_mem_tabs : 0x20 ∉ tabs := fun inside => absurd (plain _ inside) (by decide)

theorem tabs_blank : ∀ character ∈ tabs, character ≤ 0x20 := by
  intro character inside
  rw [plain character inside]
  decide

/-- A file is trimmed out of a piece just when it begins clearly and nothing but white space stands
behind it. -/
theorem trim_file_iff (entry : Entry) (after : JavaString) :
    trim (tabs ++ (entry.file ++ after)) = entry.file ↔
      entry.Clear ∧ ∀ character ∈ after, character ≤ 0x20 := by
  have last : (0x20 : JavaChar) < 0x63 := by decide
  obtain ⟨front, same⟩ : ∃ front, entry.file = front ++ [0x63] := ⟨_, entry.file_eq⟩
  rw [← entry.clear_iff, same, List.append_assoc, List.singleton_append]
  exact trim_eq_iff (tabs_blank plain) last

end Tabs

theorem Entry.file_ne_nil (entry : Entry) : entry.file ≠ [] := by simp [Entry.file_eq]

/-- Without a space in the gap, a piece goes on with the next file, and is not trimmed to its
first. -/
theorem pieces_ne_of_not_mem {tabs : JavaString} (plain : ∀ character ∈ tabs, character = 0x09)
    (entry next : Entry) {blanks : List Blank} (absent : .space ∉ blanks) (rest : JavaString)
    (files : List JavaString) :
    ((tabs ++ (entry.file ++ (keptBlanks blanks ++ (next.file ++ rest)))).splitOn 0x20).map trim ≠
      entry.file :: files := by
  have letters : 0x20 ∉ tabs ++ (entry.file ++ (keptBlanks blanks ++ next.file)) := by
    simp only [List.mem_append, not_or]
    exact ⟨space_not_mem_tabs plain, entry.space_not_mem,
      space_not_mem_tabs (tabs_of_not_mem absent), next.space_not_mem⟩
  obtain ⟨piece, pieces, same⟩ := splitOn_append rest letters
  simp only [List.append_assoc] at same
  rw [same, List.map_cons]
  intro equal
  have blank := ((trim_file_iff plain entry _).mp (List.cons_eq_cons.mp equal).1).2
  have last : (0x63 : JavaChar) ∈ next.file := by simp [Entry.file_eq]
  exact absurd (blank 0x63 (by simp [last])) (by decide)

/-- With another space in the gap, a piece has only blanks. -/
theorem pieces_ne_of_mem {blanks : List Blank} (again : .space ∈ blanks) (next : Entry)
    (rest : JavaString) (files : List JavaString) :
    ((keptBlanks blanks ++ (next.file ++ rest)).splitOn 0x20).map trim ≠ next.file :: files := by
  obtain ⟨before, after, rfl, absent⟩ := List.eq_append_cons_of_mem again
  have plain := tabs_of_not_mem absent
  rw [keptBlanks_split, List.append_assoc, List.cons_append,
    List.splitOn_append_cons_self_of_not_mem (space_not_mem_tabs plain), List.map_cons,
    trim_of_blank (tabs_blank plain)]
  intro equal
  exact next.file_ne_nil (List.cons_eq_cons.mp equal).1.symm

/-- The pieces of a clean text are trimmed to the files exactly when the entries are spaced. -/
theorem pieces_iff {tabs : JavaString} (plain : ∀ character ∈ tabs, character = 0x09)
    (first : Entry) (others : List (Gap × Entry)) :
    ((tabs ++ (first.file ++ cleanOthers others)).splitOn 0x20).map trim =
        first.file :: others.map (fun other => other.2.file) ↔ Spaced first others := by
  induction others generalizing tabs first with
  | nil =>
      have letters : 0x20 ∉ tabs ++ (first.file ++ []) := by
        simp only [List.mem_append, List.append_nil, not_or]
        exact ⟨space_not_mem_tabs plain, first.space_not_mem⟩
      have trimmed := trim_file_iff plain first []
      rw [cleanOthers, List.flatMap_nil, List.splitOn_eq_singleton letters]
      simpa [Spaced] using trimmed
  | cons other others ih =>
      obtain ⟨gap, next⟩ := other
      rw [cleanOthers_cons]
      by_cases spaced : .space ∈ gap.blanks
      · obtain ⟨before, after, blanks, absent⟩ := List.eq_append_cons_of_mem spaced
        have tabsBefore := tabs_of_not_mem absent
        have trimmed := trim_file_iff plain first (keptBlanks before)
        have letters : 0x20 ∉ tabs ++ (first.file ++ keptBlanks before) := by
          simp only [List.mem_append, not_or]
          exact ⟨space_not_mem_tabs plain, first.space_not_mem, space_not_mem_tabs tabsBefore⟩
        have shape : tabs ++ (first.file ++ (keptBlanks gap.blanks ++
            (next.file ++ cleanOthers others))) = (tabs ++ (first.file ++ keptBlanks before)) ++
              0x20 :: (keptBlanks after ++ (next.file ++ cleanOthers others)) := by
          simp [blanks, keptBlanks_split]
        have later :
            ((keptBlanks after ++ (next.file ++ cleanOthers others)).splitOn 0x20).map trim =
            next.file :: others.map (fun other => other.2.file) ↔
              .space ∉ after ∧ Spaced next others := by
          by_cases again : .space ∈ after
          · exact iff_of_false (pieces_ne_of_mem again next _ _) fun once => once.1 again
          · rw [ih (tabs_of_not_mem again) next, and_iff_right again]
        have once : gap.blanks.count .space = 1 ↔ .space ∉ after := by
          rw [blanks, List.count_append, List.count_eq_zero_of_not_mem absent,
            List.count_cons_self, ← List.count_eq_zero]
          omega
        rw [shape, List.splitOn_append_cons_self_of_not_mem letters, List.map_cons, List.map_cons,
          List.cons_eq_cons, trimmed, later, and_iff_left (tabs_blank tabsBefore)]
        simp only [Spaced, List.forall_mem_cons, once, and_assoc]
      · constructor
        · exact fun equal => absurd equal (pieces_ne_of_not_mem plain first next spaced _ _)
        · rintro ⟨_, spaces⟩
          have one := (spaces _ List.mem_cons_self).1
          rw [List.count_eq_zero_of_not_mem spaced] at one
          cases one

/-- The clean text ends with the suffix of the last file. -/
theorem clean_ends (first : Entry) (others : List (Gap × Entry)) :
    ∃ front, first.file ++ cleanOthers others = front ++ [0x63] := by
  induction others generalizing first with
  | nil => exact ⟨_, by rw [cleanOthers, List.flatMap_nil, List.append_nil, Entry.file_eq]⟩
  | cons other others ih =>
      obtain ⟨front, same⟩ := ih other.2
      refine ⟨first.file ++ (keptBlanks other.1.blanks ++ front), ?_⟩
      rw [cleanOthers_cons, same, List.append_assoc, List.append_assoc]

/-- The files are those of the entries exactly when the entries are spaced. -/
theorem files_list_iff (first : Entry) (others : List (Gap × Entry)) :
    files (ObjList.list first others).text = (ObjList.list first others).entries.map Entry.file ↔
      Spaced first others := by
  obtain ⟨front, same⟩ := clean_ends first others
  have plain : ∀ character ∈ ([] : JavaString), character = 0x09 := nofun
  have pieces := pieces_iff plain first others
  rw [List.nil_append, same] at pieces
  rw [files, objStrClean_list, same, split_concat _ (by decide), ObjList.entries, List.map_cons,
    List.map_map]
  exact pieces

end Projs.Nasm

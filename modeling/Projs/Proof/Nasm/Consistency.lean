import Mathlib.Data.List.Nodup
import Projs.Proof.Nasm.Sections

namespace Projs.Nasm
open Java

/-- Both lists of files are those of the entries, and the folders are the filters of the files, each
declared once. -/
structure Sections.Consistent (sections : Sections) (entries : List Entry) : Prop where
  filters : sections.filters.map Filtered.file = entries.map fun entry => filePre ++ entry.file
  sources : sections.sources = entries.map fun entry => filePre ++ entry.file
  distinct : (sections.folders.map Folder.name).Nodup
  declared : ∀ name, name ∈ sections.folders.map Folder.name ↔
    name ∈ sections.filters.map Filtered.filter

/-- A directory in front of the file name has a name of its own. -/
def Entry.Foldered (entry : Entry) : Prop := 0x5C ∈ entry.path.tail

/-- There are entries, every one in a directory, and every gap has just one space. -/
def ObjList.Regular : ObjList → Prop
  | .empty => False
  | .list first others =>
      Spaced first others ∧ ∀ entry ∈ first :: others.map Prod.snd, entry.Foldered

/-- The replacement of the object name does not touch the directory. -/
theorem Entry.foldered_iff (entry : Entry) : 0x5C ∈ entry.file.tail ↔ entry.Foldered := by
  have suffix : (0x5C : JavaChar) ∉ literal ".$(O)" := by decide
  have tail : 0x5C ∈ entry.file.tail ↔ 0x5C ∈ entry.text.tail := by
    rw [Entry.file]
    cases entry.text with
    | nil => rfl
    | cons first text =>
        rw [replaceText_cons]
        split
        · next found =>
            obtain ⟨rest, whole⟩ := List.isPrefixOf_iff_prefix.mp found
            rw [objectName] at whole
            cases whole
            rw [objectName, sourceName]
            have kept : 0x5C ∈ replaceFrom [0x24, 0x28, 0x4F, 0x29] [0x63] 3
                ([0x28, 0x4F, 0x29] ++ rest) ↔ 0x5C ∈ ([0x28, 0x4F, 0x29] ++ rest).drop 3 :=
              mem_replaceFrom_iff (by decide) (by decide) (by decide) 3 _
            simpa using kept
        · exact mem_replaceText_iff (by decide) (by decide) (by decide)
  rw [tail, Entry.text, Entry.Foldered]
  cases entry.path with
  | nil => exact iff_of_false (by decide) (by decide)
  | cons first path => simp [suffix]

/-- The folders are printed once, for the files that have one. -/
theorem folders_printed (randomUUID : Nat → JavaString) (files : List JavaString) :
    ((files.foldl (declare randomUUID) ⟨[], []⟩).printed.map Folder.name).Nodup ∧
      ∀ name, name ∈ (files.foldl (declare randomUUID) ⟨[], []⟩).printed.map Folder.name ↔
        ∃ file ∈ files, 0x5C ∈ file.tail ∧ folderPre ++ dirName file = name := by
  have start : Folders.Sound ⟨[], []⟩ := ⟨rfl, List.nodup_nil⟩
  have sound := declared_sound randomUUID files start
  rw [sound.same, List.nodup_reverse]
  refine ⟨sound.distinct, ?_⟩
  intro name
  rw [List.mem_reverse, mem_declared_iff]
  simp

/-- The sections of files with the right names are consistent exactly when every file has a
directory. -/
theorem consistent_iff (randomUUID : Nat → JavaString) {objStr : JavaString} {entries : List Entry}
    (named : files objStr = entries.map Entry.file) :
    (∃ sections, main randomUUID objStr = .ok sections ∧ sections.Consistent entries) ↔
      ∀ entry ∈ entries, entry.Foldered := by
  obtain ⟨distinct, printed⟩ := folders_printed randomUUID (files objStr)
  constructor
  · rintro ⟨sections, run, consistent⟩ entry member
    obtain ⟨_, rfl⟩ := (main_eq_ok_iff _ _ _).mp run
    have inside : entry.file ∈ files objStr := named ▸ List.mem_map_of_mem member
    have filter : folderPre ++ dirName entry.file ∈ ((files objStr).map fun file =>
        (⟨filePre ++ file, folderPre ++ dirName file⟩ : Filtered)).map Filtered.filter :=
      List.mem_map_of_mem (List.mem_map_of_mem inside)
    obtain ⟨file, _, foldered, same⟩ := (printed _).mp ((consistent.declared _).mpr filter)
    rw [← dirName_ne_nil_iff, List.append_cancel_left same, dirName_ne_nil_iff] at foldered
    exact entry.foldered_iff.mp foldered
  · intro all
    have foldered : ∀ file ∈ files objStr, 0x5C ∈ file.tail := by
      rw [named, List.forall_mem_map]
      exact fun entry member => entry.foldered_iff.mpr (all entry member)
    have slashed : ∀ file ∈ files objStr, 0x5C ∈ file :=
      fun file inside => List.mem_of_mem_tail (foldered file inside)
    refine ⟨_, (main_eq_ok_iff _ _ _).mpr ⟨slashed, rfl⟩, ?_, ?_, distinct, ?_⟩
    · rw [List.map_map, named, List.map_map]
      rfl
    · change (files objStr).map (fun file => filePre ++ file) = _
      rw [named, List.map_map]
      rfl
    · intro name
      rw [printed, List.map_map, List.mem_map]
      constructor
      · rintro ⟨file, inside, _, same⟩
        exact ⟨file, inside, same⟩
      · rintro ⟨file, inside, same⟩
        exact ⟨file, inside, foldered file inside, same⟩

/-- Consistent sections come from files with the right names. -/
theorem names_of_consistent (randomUUID : Nat → JavaString) {objStr : JavaString}
    {entries : List Entry} {sections : Sections} (run : main randomUUID objStr = .ok sections)
    (consistent : sections.Consistent entries) : files objStr = entries.map Entry.file := by
  obtain ⟨_, rfl⟩ := (main_eq_ok_iff _ _ _).mp run
  have sources : (files objStr).map (fun file => filePre ++ file) =
      (entries.map Entry.file).map fun file => filePre ++ file := by
    rw [List.map_map]
    exact consistent.sources
  exact List.map_injective_iff.mpr (List.append_right_injective filePre) sources

/-- The generator's sections are consistent exactly for the regular object lists. -/
theorem generates_iff (randomUUID : Nat → JavaString) (objList : ObjList) :
    (∃ sections, main randomUUID objList.text = .ok sections ∧
      sections.Consistent objList.entries) ↔ objList.Regular := by
  cases objList with
  | empty =>
      refine iff_of_false ?_ id
      rintro ⟨sections, run, consistent⟩
      exact absurd (names_of_consistent randomUUID run consistent) (by decide)
  | list first others =>
      have spaced := files_list_iff first others
      constructor
      · rintro ⟨sections, run, consistent⟩
        have named := names_of_consistent randomUUID run consistent
        exact ⟨spaced.mp named, (consistent_iff randomUUID named).mp ⟨sections, run, consistent⟩⟩
      · rintro ⟨gaps, foldered⟩
        exact (consistent_iff randomUUID (spaced.mpr gaps)).mpr foldered

/-- This list is a single file beside the directories. -/
def version : ObjList := .list ⟨literal "ver", by decide⟩ []

/-- A file without a directory stops the generator. -/
theorem version_not_generated :
    main (fun _ => []) version.text = .error {} ∧
      ¬ ∃ sections, main (fun _ => []) version.text = .ok sections ∧
        sections.Consistent version.entries := by
  have stopped : main (fun _ => []) version.text = .error {} := rfl
  refine ⟨stopped, ?_⟩
  rintro ⟨sections, run, _⟩
  rw [stopped] at run
  cases run

end Projs.Nasm

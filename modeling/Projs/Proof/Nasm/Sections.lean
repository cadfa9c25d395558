import Projs.Library.CheckedLoop
import Projs.Proof.Nasm.Files

namespace Projs.Nasm
open Java LabelledMachine CheckedLoop

/-- The directory of a file ends before its last backslash. -/
def dirName (file : JavaString) : JavaString := file.take (lastIndexOf 0x5C file).toNat

/-- A directory can be cut off exactly when the file has a backslash. -/
theorem substringTo_dir (file : JavaString) :
    substringTo (lastIndexOf 0x5C file) file =
      if 0x5C ∈ file then .ok (dirName file) else .error {} := by
  unfold dirName
  by_cases inside : (0x5C : JavaChar) ∈ file
  · obtain ⟨front, back, rfl, absent⟩ := eq_append_cons_last inside
    rw [if_pos inside, lastIndexOf_split absent, substringTo_split, Int.toNat_natCast,
      List.take_left]
  · rw [if_neg inside, lastIndexOf_of_not_mem inside]
    rfl

/-- A directory is not empty when a backslash stands behind the first character. -/
theorem dirName_ne_nil_iff (file : JavaString) : dirName file ≠ [] ↔ 0x5C ∈ file.tail := by
  rw [← lastIndexOf_pos_iff, dirName, Ne, List.take_eq_nil_iff, not_or]
  constructor
  · rintro ⟨positive, _⟩
    omega
  · intro positive
    refine ⟨by omega, ?_⟩
    rintro rfl
    exact absurd positive (by decide)

/-- A folder is declared when it has a name that was not seen before. -/
def declare (randomUUID : Nat → JavaString) (folders : Folders) (file : JavaString) : Folders :=
  if lastIndexOf 0x5C file > 0 ∧ !folders.folderContainer.contains (folderPre ++ dirName file) then
    { folderContainer := (folderPre ++ dirName file) :: folders.folderContainer
      printed := folders.printed ++
        [⟨folderPre ++ dirName file, randomUUID folders.printed.length⟩] }
  else folders

theorem addFolder_eq (randomUUID : Nat → JavaString) (folders : Folders) (file : JavaString) :
    addFolder randomUUID folders file =
      if 0x5C ∈ file then .ok (declare randomUUID folders file) else .error {} := by
  simp only [addFolder, substringTo_dir]
  by_cases inside : (0x5C : JavaChar) ∈ file
  · simp only [if_pos inside, declare]
    exact (apply_ite _ _ _ _).symm
  · simp only [if_neg inside]
    rfl

theorem filtered_eq (file : JavaString) :
    filtered file =
      if 0x5C ∈ file then .ok ⟨filePre ++ file, folderPre ++ dirName file⟩ else .error {} := by
  simp only [filtered, substringTo_dir]
  split <;> rfl

/-- The folders printed so far are those that the container holds, each printed once. -/
structure Folders.Sound (folders : Folders) : Prop where
  same : folders.printed.map Folder.name = folders.folderContainer.reverse
  distinct : folders.folderContainer.Nodup

theorem fresh_iff (folders : Folders) (file : JavaString) :
    (lastIndexOf 0x5C file > 0 ∧ !folders.folderContainer.contains (folderPre ++ dirName file)) ↔
      0x5C ∈ file.tail ∧ folderPre ++ dirName file ∉ folders.folderContainer := by
  simp [lastIndexOf_pos_iff]

theorem declare_sound (randomUUID : Nat → JavaString) {folders : Folders} (file : JavaString)
    (sound : folders.Sound) : (declare randomUUID folders file).Sound := by
  unfold declare
  split
  · next fresh =>
      rw [fresh_iff] at fresh
      refine ⟨?_, List.nodup_cons.mpr ⟨fresh.2, sound.distinct⟩⟩
      rw [List.map_append, List.reverse_cons, sound.same]
      rfl
  · exact sound

/-- A file adds its own folder to the container, and nothing if it has none. -/
theorem mem_declare_iff (randomUUID : Nat → JavaString) (folders : Folders)
    (file name : JavaString) :
    name ∈ (declare randomUUID folders file).folderContainer ↔
      name ∈ folders.folderContainer ∨ (0x5C ∈ file.tail ∧ folderPre ++ dirName file = name) := by
  unfold declare
  split
  · next fresh =>
      rw [fresh_iff] at fresh
      rw [List.mem_cons, or_comm, and_iff_right fresh.1, eq_comm]
  · next known =>
      rw [fresh_iff] at known
      rw [iff_self_or]
      rintro ⟨inside, rfl⟩
      by_contra missing
      exact known ⟨inside, missing⟩

theorem declared_sound (randomUUID : Nat → JavaString) (files : List JavaString)
    {folders : Folders} (sound : folders.Sound) :
    (files.foldl (declare randomUUID) folders).Sound := by
  induction files generalizing folders with
  | nil => exact sound
  | cons file files ih => exact ih (declare_sound randomUUID file sound)

/-- The loop declares the folders of the files, and no others. -/
theorem mem_declared_iff (randomUUID : Nat → JavaString) (files : List JavaString)
    (folders : Folders) (name : JavaString) :
    name ∈ (files.foldl (declare randomUUID) folders).folderContainer ↔
      name ∈ folders.folderContainer ∨
        ∃ file ∈ files, 0x5C ∈ file.tail ∧ folderPre ++ dirName file = name := by
  induction files generalizing folders with
  | nil => simp
  | cons file files ih =>
      rw [List.foldl_cons, ih, mem_declare_iff, List.exists_mem_cons_iff, or_assoc]

/-- The generator succeeds exactly when every file has a backslash. -/
theorem main_eq_ok_iff (randomUUID : Nat → JavaString) (objStr : JavaString)
    (sections : Sections) :
    main randomUUID objStr = .ok sections ↔
      (∀ file ∈ files objStr, 0x5C ∈ file) ∧
        sections = {
          folders := ((files objStr).foldl (declare randomUUID) ⟨[], []⟩).printed
          filters := (files objStr).map fun file => ⟨filePre ++ file, folderPre ++ dirName file⟩
          sources := (files objStr).map fun file => filePre ++ file } := by
  rw [main, bind_eq_ok_iff]
  constructor
  · rintro ⟨folders, declared, rest⟩
    obtain ⟨filters, collected, ⟨⟩⟩ := bind_eq_ok_iff.mp rest
    obtain ⟨all, rfl⟩ := (foldlM_eq_ok_iff (addFolder_eq randomUUID) _ _ _).mp declared
    obtain ⟨_, rfl⟩ := (mapM_eq_ok_iff filtered_eq _ _).mp collected
    exact ⟨all, rfl⟩
  · rintro ⟨all, rfl⟩
    have declared := (foldlM_eq_ok_iff (addFolder_eq randomUUID) _ ⟨[], []⟩ _).mpr ⟨all, rfl⟩
    have collected := (mapM_eq_ok_iff filtered_eq _ _).mpr ⟨all, rfl⟩
    exact ⟨_, declared, bind_eq_ok_iff.mpr ⟨_, collected, rfl⟩⟩

end Projs.Nasm

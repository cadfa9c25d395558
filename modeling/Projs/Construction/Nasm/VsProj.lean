/-
This file embeds `VsProj.java`, which turns the object list of a makefile into project files.
-/

import Projs.Construction.Java.Text

namespace Projs.Nasm
open Java

def folderPre : JavaString := literal "源文件\\nasm-2.14\\"

def filePre : JavaString := literal "..\\nasm-2.14\\"

/-- Continuations are removed, object names become C names, and other line feeds are removed. -/
def objStrClean (objStr : JavaString) : JavaString :=
  replace 0x0A [] (replaceText (literal "$(O)") (literal "c")
    (replaceText (literal "\\\n") [] objStr))

/-- The loop that would check these files skips the empty ones and then does nothing. -/
def files (objStr : JavaString) : List JavaString := (split 0x20 (objStrClean objStr)).map trim

/-- A `<Filter Include>` declares a folder under an identifier of its own. -/
structure Folder where
  name : JavaString
  identifier : JavaString
  deriving DecidableEq, Repr

/-- A `<ClCompile Include>` of the filters file names the filter of its file. -/
structure Filtered where
  file : JavaString
  filter : JavaString
  deriving DecidableEq, Repr

/-- The source keeps the folders that it has seen apart from the lines that it has printed. -/
structure Folders where
  folderContainer : List JavaString
  printed : List Folder
  deriving DecidableEq, Repr

/-- The loop over the folders cuts a folder off before it looks whether there is one; `randomUUID`
are the identifiers in the order in which they are drawn. -/
def addFolder (randomUUID : Nat → JavaString) (folders : Folders) (file : JavaString) :
    Except StringIndexOutOfBounds Folders := do
  let dir := lastIndexOf 0x5C file
  let folder ← substringTo dir file
  let folderStr := folderPre ++ folder
  if dir > 0 ∧ !folders.folderContainer.contains folderStr then
    pure {
      folderContainer := folderStr :: folders.folderContainer
      printed := folders.printed ++ [⟨folderStr, randomUUID folders.printed.length⟩] }
  else pure folders

/-- The next loop names the filter of every file. -/
def filtered (file : JavaString) : Except StringIndexOutOfBounds Filtered := do
  let folder ← substringTo (lastIndexOf 0x5C file) file
  pure ⟨filePre ++ file, folderPre ++ folder⟩

/-- Each of the three loops prints one section. -/
structure Sections where
  folders : List Folder
  filters : List Filtered
  sources : List JavaString
  deriving DecidableEq, Repr

def main (randomUUID : Nat → JavaString) (objStr : JavaString) :
    Except StringIndexOutOfBounds Sections := do
  let folders ← (files objStr).foldlM (addFolder randomUUID) ⟨[], []⟩
  let filters ← (files objStr).mapM filtered
  pure ⟨folders.printed, filters, (files objStr).map fun file => filePre ++ file⟩

end Projs.Nasm

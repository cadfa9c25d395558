/-
This file describes the object lists of a makefile.
-/

import Projs.Construction.Java.Text

namespace Projs.Nasm
open Java

/-- An entry is a path with the suffix of an object, and its path is one word. -/
structure Entry where
  path : JavaString
  word : 0x20 ∉ path ∧ 0x09 ∉ path ∧ 0x0A ∉ path

def Entry.text (entry : Entry) : JavaString := entry.path ++ literal ".$(O)"

/-- The C file of an entry has its path. -/
def Entry.file (entry : Entry) : JavaString :=
  replaceText (literal "$(O)") (literal "c") entry.text

inductive Blank where
  | space
  | tab
  | continuation
  deriving DecidableEq, Repr

def Blank.text : Blank → JavaString
  | .space => [0x20]
  | .tab => [0x09]
  | .continuation => [0x5C, 0x0A]

/-- A gap has at least one blank. -/
structure Gap where
  blanks : List Blank
  filled : blanks ≠ []

def Gap.text (gap : Gap) : JavaString := gap.blanks.flatMap Blank.text

/-- A list is empty, or a first entry and others with a gap before each. -/
inductive ObjList where
  | empty
  | list (first : Entry) (others : List (Gap × Entry))

def othersText (others : List (Gap × Entry)) : JavaString :=
  others.flatMap fun other => other.1.text ++ other.2.text

def ObjList.text : ObjList → JavaString
  | .empty => []
  | .list first others => first.text ++ othersText others

def ObjList.entries : ObjList → List Entry
  | .empty => []
  | .list first others => first :: others.map Prod.snd

end Projs.Nasm

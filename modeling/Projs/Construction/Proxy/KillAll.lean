/-
This file embeds `killall` of `proxy.cpp` as the calls that it makes on every answer of the system.
-/

import Projs.Library.EventTrace
import Projs.Library.HandleTrace

namespace Projs.Proxy
open EventTrace HandleTrace

/-- A wide string is the sequence of its 16-bit characters before the null character. -/
abbrev WString := List UInt16

def wide (text : String) : WString := text.toList.map fun character => UInt16.ofNat character.toNat

/-- `_wcsicmp` in the locale that every program starts in folds the letters of ASCII only. -/
def foldCase (character : UInt16) : UInt16 :=
  if 0x41 ≤ character ∧ character ≤ 0x5A then character + 0x20 else character

/-- This is the sign of `_wcsicmp`, which compares two strings without their case. -/
def wcsicmp : WString → WString → Int
  | [], [] => 0
  | [], _ :: _ => -1
  | _ :: _, [] => 1
  | first :: left, second :: right =>
      if foldCase first = foldCase second then wcsicmp left right
      else if foldCase first < foldCase second then -1
      else 1

/-- These are the fields of a process entry that the program reads. -/
structure ProcessEntry32 where
  th32ProcessID : UInt32
  szExeFile : WString
  deriving DecidableEq, Repr

def v2ray : WString := wide "v2ray.exe"

def kcptun : WString := wide "client_windows_amd64.exe"

/-- A handle is named by the number of handles that were obtained before it. -/
abbrev Handle := Nat

/-- These are the calls of `killall` with their results: `none` is the invalid or null handle, or an
entry that was not filled. -/
inductive Call where
  | createToolhelp32Snapshot (result : Option Handle)
  | process32First (hSnapshot : Handle) (result : Option ProcessEntry32)
  | process32Next (hSnapshot : Handle) (result : Option ProcessEntry32)
  | openProcess (access : UInt32) (inherit : Bool) (processId : UInt32) (result : Option Handle)
  | getPriorityClass (hProcess : Handle) (result : UInt32)
  | closeHandle (hObject : Handle)
  | wcsicmp (first second : WString)
  | terminateProcess (hProcess : Option Handle) (exitCode : UInt32)
  | tprintf (text : WString)
  | printError (msg : WString)
  deriving DecidableEq, Repr

/-- Three calls can obtain a handle, and five receive one. -/
def handles : Protocol Call Handle where
  obtained
    | .createToolhelp32Snapshot result | .openProcess _ _ _ result => result
    | _ => none
  received
    | .process32First handle _ | .process32Next handle _ | .getPriorityClass handle _
    | .closeHandle handle => some (some handle)
    | .terminateProcess handle _ => some handle
    | _ => none
  closed
    | .closeHandle handle => some handle
    | _ => none
  receives := by
    intro call handle closes
    cases call <;> cases closes
    rfl

/-- The system answers one round of the loop; a priority class of zero is a failure. -/
structure Answers where
  allAccess : Bool
  priorityClass : UInt32
  terminate : Bool
  deriving DecidableEq, Repr

/-- The system has these process entries and lets each call succeed or fail; `unfilled` is what
`pe32` holds before a call fills it. -/
structure System where
  snapshot : Bool
  entries : List ProcessEntry32
  first : Bool
  next : Nat → Bool
  answers : Nat → Answers
  unfilled : ProcessEntry32

/-- `Process32First` fills the entry unless it fails or the snapshot is empty. -/
def System.process32First (system : System) : Option ProcessEntry32 :=
  if system.first then system.entries.head? else none

/-- `PROCESS_ALL_ACCESS` is every standard right, `SYNCHRONIZE` and every specific right. -/
def processAllAccess : UInt32 := 0x000F0000 ||| 0x00100000 ||| 0xFFFF

/-- `SYNCHRONIZE | PROCESS_TERMINATE` are the rights to wait for a process and to end it. -/
def synchronizeTerminate : UInt32 := 0x00100000 ||| 0x0001

/-- A round first asks for the priority class of the entry's process. -/
def askPriority (answers : Answers) (obtained : Nat) (pe32 : ProcessEntry32) : List Call :=
  let hProcess := if answers.allAccess then some obtained else none
  .openProcess processAllAccess false pe32.th32ProcessID hProcess ::
    match hProcess with
    | some handle => [.getPriorityClass handle answers.priorityClass, .closeHandle handle]
    | none => []

/-- The second comparison takes place only when the first one finds a difference. -/
def compareNames (pe32 : ProcessEntry32) : List Call :=
  .wcsicmp pe32.szExeFile v2ray ::
    if wcsicmp pe32.szExeFile v2ray = 0 then [] else [.wcsicmp pe32.szExeFile kcptun]

def isTunnel (pe32 : ProcessEntry32) : Bool :=
  wcsicmp pe32.szExeFile v2ray = 0 || wcsicmp pe32.szExeFile kcptun = 0

/-- The result of the second `OpenProcess` goes to `TerminateProcess` unchecked. -/
def endProcess (answers : Answers) (obtained : Nat) (pe32 : ProcessEntry32) : List Call :=
  let handy := if answers.terminate then some obtained else none
  [.tprintf (wide "v2ray.exe...........\n"),
    .openProcess synchronizeTerminate true pe32.th32ProcessID handy,
    .terminateProcess handy 0]

/-- These are the calls of one round of the loop. -/
def visit (answers : Answers) (obtained : Nat) (pe32 : ProcessEntry32) : List Call :=
  let asked := askPriority answers obtained pe32
  asked ++ (compareNames pe32 ++
    if isTunnel pe32 then endProcess answers (obtained + (handles.gains asked).length) pe32 else [])

/-- The loop goes on while `Process32Next` fills the entry again, and then closes the snapshot. -/
def walk (system : System) (hProcessSnap : Handle) (round obtained : Nat) (pe32 : ProcessEntry32)
    (remaining : List ProcessEntry32) : List Call :=
  let visited := visit (system.answers round) obtained pe32
  visited ++
    match remaining with
    | next :: rest =>
        if system.next round then
          .process32Next hProcessSnap (some next) :: walk system hProcessSnap (round + 1)
            (obtained + (handles.gains visited).length) next rest
        else [.process32Next hProcessSnap none, .closeHandle hProcessSnap]
    | [] => [.process32Next hProcessSnap none, .closeHandle hProcessSnap]

/-- The source's `killall`; nothing returns after a failure of `Process32First`. -/
def killall (system : System) : List Call :=
  if system.snapshot then
    .createToolhelp32Snapshot (some 0) ::
      match system.process32First with
      | some entry =>
          .process32First 0 (some entry) :: walk system 0 0 1 entry system.entries.tail
      | none =>
          [.process32First 0 none, .printError (wide "Process32First"), .closeHandle 0] ++
            walk system 0 0 1 system.unfilled system.entries
  else
    [.createToolhelp32Snapshot none,
      .printError (wide "CreateToolhelp32Snapshot (of modules)")]

/-- These are the entries that the calls report before the first of them that fails. -/
def System.reportedBehind (system : System) (round : Nat) :
    List ProcessEntry32 → List ProcessEntry32
  | [] => []
  | next :: rest =>
      if system.next round then next :: system.reportedBehind (round + 1) rest else []

def System.reported (system : System) : List ProcessEntry32 :=
  if system.snapshot then
    match system.process32First with
    | some entry => entry :: system.reportedBehind 0 system.entries.tail
    | none => []
  else []

end Projs.Proxy

/-
This file embeds the worker threads of `proxy.cpp`, which run between the statements of main.
-/

import Projs.Construction.Proxy.Commands

namespace Projs.Proxy
open LabelledMachine EventTrace

/-- A thread builds its command line from the directory and from what `prog` holds by then. -/
def threadRun (pwd progexe : CString) : Except Fault CString := do
  let progtmp ← strcatS maxPath [] pwd
  strcatS maxPath progtmp progexe

/-- Main has statements left to execute, and threads run beside it. -/
structure Workshop where
  globals : Globals
  pending : List Statement
  deriving DecidableEq, Repr

/-- The scheduler lets main execute its next statement, or a created thread copy `prog`. -/
inductive Turn where
  | main
  | copy (index : Nat)
  deriving DecidableEq, Repr

/-- This thread has passed its command line to `system`. -/
def Globals.copied (globals : Globals) (index : Nat) (thread : Thread) (line : CString) : Globals :=
  { globals with threads := globals.threads.set index { thread with line := some line } }

/-- A thread copies once, at any time after its creation. -/
def workshop : Machine Workshop Turn Fault where
  step state
    | .main =>
        match state.pending with
        | [] => .error .disabled
        | statement :: rest =>
            (statements.step state.globals statement).map fun globals => ⟨globals, rest⟩
    | .copy index =>
        match state.globals.threads[index]? with
        | some thread =>
            if thread.line = none then
              (threadRun state.globals.pwd state.globals.prog).map fun line =>
                ⟨state.globals.copied index thread line, state.pending⟩
            else .error .disabled
        | none => .error .disabled

/-- Main has these keys to process. -/
def Process.workshop (process : Process) (keys : List KeyEventRecord) : Workshop :=
  ⟨process.globals, keys.flatMap keyEventProc⟩

/-- A released key `2` asks for four programs, and no other key asks for one. -/
def KeyEventRecord.requested (ker : KeyEventRecord) : List CString :=
  if ker.command = some .start then tunnelCommands else []

/-- A statement that writes `prog` is the latest write until the next one. -/
def Statement.write : Statement → Option (Option Statement)
  | .zeroMemory => some (some .zeroMemory)
  | .strcatPwd => some (some .strcatPwd)
  | .strcat text => some (some (.strcat text))
  | .strcpy text => some (some (.strcpy text))
  | _ => none

/-- When a thread copies `prog`, the latest write is the copy of the thread's own program. -/
def CopiesOwn (state : Workshop) (turn : Turn) : Prop :=
  ∀ index, turn = .copy index → ∀ thread ∈ state.globals.threads[index]?,
    latest Statement.write none state.globals.trace = some (.strcpy thread.exe)

end Projs.Proxy

/-
This file embeds `main` of `proxy.cpp` and the order in which its input reaches it.
-/

import Projs.Construction.Proxy.Program

namespace Projs.Proxy
open LabelledMachine

/-- A console input record is a key event or an event of another type, which main ignores. -/
inductive InputRecord where
  | key (event : KeyEventRecord)
  | other
  deriving DecidableEq, Repr

def InputRecord.statements : InputRecord → List Statement
  | .key event => keyEventProc event
  | .other => []

/-- The process ends by leaving the loop, by `ErrorExit`, or by the default control handler. -/
inductive Ending where
  | returned
  | errorExit
  | defaultHandler
  deriving DecidableEq, Repr

/-- Main tests its loop, waits for a read, or has records of a read left to handle. -/
inductive Position where
  | test
  | reading
  | handling (rest : List InputRecord)
  | ended (ending : Ending)
  deriving DecidableEq, Repr

structure Process where
  position : Position
  globals : Globals
  deriving DecidableEq, Repr

/-- Main advances by itself, a read ends, a record is handled, or a control event is handled. -/
inductive Input where
  | advance
  | read (records : List InputRecord)
  | readFailed
  | record (record : InputRecord)
  | control (type : CtrlType)
  deriving DecidableEq, Repr

/-- The process executes statements and moves on. -/
def Process.executes (process : Process) (body : List Statement) (position : Position) :
    Except Fault Process :=
  (statements.run process.globals body).map fun globals => ⟨position, globals⟩

/-- A read returns at least one record and at most the 128 that the buffer holds. -/
def mainLoop : Machine Process Input Fault where
  step process input :=
    match process.position, input with
    | .ended _, _ => .error .disabled
    | position, .control type =>
        process.executes (ctrlHandler type).1
          (if (ctrlHandler type).2 then position else .ended .defaultHandler)
    | .test, .advance =>
        if process.globals.isQuit then process.executes [.restoreMode] (.ended .returned)
        else process.executes [] .reading
    | .reading, .read records =>
        if 1 ≤ records.length ∧ records.length ≤ 128 then process.executes [] (.handling records)
        else .error .disabled
    | .reading, .readFailed =>
        process.executes (errorExit (cstring "ReadConsoleInput")) (.ended .errorExit)
    | .handling (next :: rest), .record record =>
        if next = record then process.executes record.statements (.handling rest)
        else .error .disabled
    | .handling [], .advance => process.executes [] .test
    | _, _ => .error .disabled

/-- `ENABLE_WINDOW_INPUT | ENABLE_MOUSE_INPUT` is main's own console mode. -/
def inputMode : UInt32 := 0x0008 ||| 0x0010

/-- Main shows the usage, stores the current directory with a separator, and sets its console
mode. -/
def start (directory : CString) (mode : UInt32) : Except Fault Process := do
  let buffer ← strcatS maxPath [] directory
  let pwd ← strcatS maxPath buffer (cstring "\\")
  let globals ← statements.run
    { consoleMode := inputMode, fdwSaveOldMode := mode, pwd := pwd } usage
  pure ⟨.test, globals⟩

end Projs.Proxy

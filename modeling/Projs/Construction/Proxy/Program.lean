/-
This file embeds the functions of `proxy.cpp` as the statements that they execute.
-/

import Projs.Library.LabelledMachine

namespace Projs.Proxy
open LabelledMachine

/-- A C char is one byte, and a C string is the sequence of bytes before its null byte. -/
abbrev CChar := UInt8

abbrev CString := List CChar

def ascii (character : Char) : CChar := UInt8.ofNat character.toNat

def cstring (text : String) : CString := text.toList.map ascii

/-- A run stops when the environment takes an impossible step, or when a secure string function
meets a buffer that is too small and calls the invalid parameter handler. -/
inductive Fault where
  | disabled
  | invalidParameter
  deriving DecidableEq, Repr

def maxPath : Nat := 260

/-- This is `strcpy_s` into a buffer of the given size. -/
def strcpyS (size : Nat) (source : CString) : Except Fault CString :=
  if source.length < size then .ok source else .error .invalidParameter

/-- This is `strcat_s` onto a string in a buffer of the given size. -/
def strcatS (size : Nat) (destination source : CString) : Except Fault CString :=
  if destination.length + source.length < size then .ok (destination ++ source)
  else .error .invalidParameter

/-- These are the program's own functions, as far as a call of one is worth a mark. -/
inductive Procedure where
  | usage
  | exeSimple (exe : CString)
  | exeSimpleThread (exe : CString)
  | proxy
  | unproxy
  | quit
  | killall
  deriving DecidableEq, Repr

/-- A function executes these statements; a call is a mark before the statements of its body. -/
inductive Statement where
  | call (procedure : Procedure)
  | system (command : CString)
  | printf (format : CString) (arguments : List Nat)
  | fprintf (message : CString)
  | beep (frequency duration : Nat)
  | sleep (milliseconds : Nat)
  | zeroMemory
  | strcatPwd
  | strcat (text : CString)
  | systemProg
  | strcpy (text : CString)
  /-- The thread gets the address of `prog`; `exe` only says what it was created for. -/
  | createThread (exe : CString)
  | setQuit
  | restoreMode
  deriving DecidableEq, Repr

def usage : List Statement :=
  [.call .usage, .system (cstring "CLS"), .printf (cstring "[1]  stop  proxy\n") [],
    .printf (cstring "[2]  start proxy\n") [], .printf (cstring "[u]  show  usage\n") [],
    .printf (cstring "enter command:") []]

def exeSimple (exe : CString) : List Statement :=
  [.call (.exeSimple exe), .zeroMemory, .strcatPwd, .strcat exe, .systemProg]

def exeSimpleThread (exe : CString) : List Statement :=
  [.call (.exeSimpleThread exe), .strcpy exe, .createThread exe, .sleep 500]

def proxyCommand : CString := cstring "sysproxy64.exe global http://127.0.0.1:1080"

def unproxyCommand : CString := cstring "sysproxy64.exe off"

def proxy : List Statement := .call .proxy :: exeSimple proxyCommand

def unproxy : List Statement := .call .unproxy :: exeSimple unproxyCommand

def quit : List Statement :=
  .call .quit :: unproxy ++ [.printf (cstring "quiting...\n") [], .setQuit, .call .killall]

/-- These are the fields of a key event that the program reads. -/
structure KeyEventRecord where
  bKeyDown : Bool
  wVirtualKeyCode : UInt16
  asciiChar : CChar
  deriving DecidableEq, Repr

/-- These are the four programs that the key `2` starts in threads of their own. -/
def tunnelCommands : List CString :=
  [cstring "v2ray.exe",
    cstring "client_windows_amd64.exe -r \"176.122.157.253:13333\" -l \":23333\"",
    cstring "client_windows_amd64.exe -r \"176.122.157.253:13334\" -l \":23334\"",
    cstring "client_windows_amd64.exe -r \"176.122.157.253:13335\" -l \":23335\""]

/-- A released key is printed and then carries out its command; `q` goes on to the later tests. -/
def keyEventProc (ker : KeyEventRecord) : List Statement :=
  if ker.bKeyDown then []
  else
    .printf (cstring "Key event: %d %c \n") [ker.wVirtualKeyCode.toNat, ker.asciiChar.toNat] ::
      if ker.asciiChar = ascii 'u' then usage
      else
        (if ker.asciiChar = ascii 'q' then .system (cstring "CLS") :: quit else []) ++
          if ker.asciiChar = ascii '1' then unproxy ++ [.printf (cstring "unproxy\n") []]
          else if ker.asciiChar = ascii '2' then proxy ++ tunnelCommands.flatMap exeSimpleThread
          else []

def errorExit (message : CString) : List Statement := [.fprintf message, .restoreMode]

/-- The console control handler knows five events; every other one is `other`. -/
inductive CtrlType where
  | ctrlC
  | ctrlBreak
  | ctrlClose
  | ctrlLogoff
  | ctrlShutdown
  | other
  deriving DecidableEq, Repr

/-- The handler executes its statements and says whether it has dealt with the event. -/
def ctrlHandler : CtrlType → List Statement × Bool
  | .ctrlC => ([.printf (cstring "Ctrl-C event\n\n") [], .beep 750 300], true)
  | .ctrlClose => (quit ++ [.beep 600 200, .printf (cstring "Ctrl-Close event\n\n") []], true)
  | .ctrlBreak => ([.beep 900 200, .printf (cstring "Ctrl-Break event\n\n") []], false)
  | .ctrlLogoff => ([.beep 1000 200, .printf (cstring "Ctrl-Logoff event\n\n") []], false)
  | .ctrlShutdown => ([.beep 750 500, .printf (cstring "Ctrl-Shutdown event\n\n") []], false)
  | .other => ([], false)

/-- A created thread will once copy `prog` and pass a command line to `system`. -/
structure Thread where
  exe : CString
  line : Option CString
  deriving DecidableEq, Repr

/-- The array `worker` has this many places. -/
def workerCount : Nat := 4

/-- These are the console's mode, the program's globals, the indices at which `worker` was stored
to, the created threads, what main passed to `system`, and the executed statements. -/
structure Globals where
  consoleMode : UInt32
  fdwSaveOldMode : UInt32
  isQuit : Bool := false
  pwd : CString
  prog : CString := []
  workerId : Nat := 0
  worker : List Nat := []
  threads : List Thread := []
  ran : List CString := []
  trace : List Statement := []
  deriving DecidableEq, Repr

def Globals.withProg (globals : Globals) (prog : CString) : Globals := { globals with prog := prog }

/-- Each statement acts on the globals. -/
def Globals.execute (globals : Globals) : Statement → Except Fault Globals
  | .system command => .ok { globals with ran := globals.ran ++ [command] }
  | .zeroMemory => .ok (globals.withProg [])
  | .strcatPwd => (strcatS maxPath globals.prog globals.pwd).map globals.withProg
  | .strcat text => (strcatS maxPath globals.prog text).map globals.withProg
  | .systemProg => .ok { globals with ran := globals.ran ++ [globals.prog] }
  | .strcpy text => (strcpyS maxPath text).map globals.withProg
  -- Nothing checks the index, so the store is recorded also where the array has no such place.
  | .createThread exe => .ok { globals with
      worker := globals.worker ++ [globals.workerId]
      workerId := globals.workerId + 1
      threads := globals.threads ++ [⟨exe, none⟩] }
  | .setQuit => .ok { globals with isQuit := true }
  | .restoreMode => .ok { globals with consoleMode := globals.fdwSaveOldMode }
  | .call _ | .printf _ _ | .fprintf _ | .beep _ _ | .sleep _ => .ok globals

def Globals.logged (statement : Statement) (globals : Globals) : Globals :=
  { globals with trace := globals.trace ++ [statement] }

/-- Executed statements are added to the trace. -/
def statements : Machine Globals Statement Fault where
  step globals statement := (globals.execute statement).map (Globals.logged statement)

end Projs.Proxy

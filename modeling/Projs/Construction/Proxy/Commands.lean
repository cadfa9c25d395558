/-
This file names what the input of the program asks it to do.
-/

import Projs.Construction.Proxy.MainLoop
import Projs.Library.EventTrace

namespace Projs.Proxy

/-- A released key can ask for one of four commands. -/
inductive Command where
  | usage
  | quit
  | stop
  | start
  deriving DecidableEq, Repr

def KeyEventRecord.command (ker : KeyEventRecord) : Option Command :=
  if ker.bKeyDown then none
  else if ker.asciiChar = ascii 'u' then some .usage
  else if ker.asciiChar = ascii 'q' then some .quit
  else if ker.asciiChar = ascii '1' then some .stop
  else if ker.asciiChar = ascii '2' then some .start
  else none

def InputRecord.command : InputRecord → Option Command
  | .key event => event.command
  | .other => none

/-- A handled record can carry a command; no other input does. -/
def Input.command : Input → Option Command
  | .record handled => handled.command
  | _ => none

/-- The released key `q` and the close event make the program quit. -/
def Input.Quits (input : Input) : Prop :=
  input.command = some .quit ∨ input = .control .ctrlClose

instance (input : Input) : Decidable input.Quits := inferInstanceAs (Decidable (_ ∨ _))

/-- The key `2` switches the system proxy on, and the key `1` and quitting switch it off. -/
def Input.switch (input : Input) : Option Bool :=
  if input.command = some .start then some true
  else if input.command = some .stop ∨ input.Quits then some false
  else none

/-- A call of `proxy` or `unproxy` sets the system proxy. -/
def Statement.switch : Statement → Option Bool
  | .call .proxy => some true
  | .call .unproxy => some false
  | _ => none

/-- These calls switch the system proxy on or start a tunnel. -/
def Statement.activates : Statement → Bool
  | .call .proxy | .call (.exeSimpleThread _) => true
  | _ => false

/-- These are the statements that a command executes behind the print of its key. -/
def Command.statements : Command → List Statement
  | .usage => Proxy.usage
  | .quit => .system (cstring "CLS") :: Proxy.quit
  | .stop => unproxy ++ [.printf (cstring "unproxy\n") []]
  | .start => proxy ++ tunnelCommands.flatMap exeSimpleThread

/-- These are the statements that an input executes besides its own output and the mode's reset. -/
def Input.core (input : Input) : List Statement :=
  if input = .control .ctrlClose then quit else input.command.elim [] Command.statements

/-- These are the records that main has read and not handled yet. -/
def Position.rest : Position → List InputRecord
  | .handling rest => rest
  | _ => []

/-- A finished read delivers its records. -/
def Input.records : Input → List InputRecord
  | .read records => records
  | _ => []

/-- This is the record that an input handles. -/
def Input.handled : Input → Option InputRecord
  | .record found => some found
  | _ => none

/-- Records and control events arrive in an order that no grouping into reads changes. -/
def Input.arrives : Input → Bool
  | .record _ | .control _ => true
  | _ => false

/-- These are the records of the read that are left behind an input. -/
def Position.remaining (position : Position) : Input → List InputRecord
  | .record _ => position.rest.tail
  | _ => position.rest

/-- The commands of a sequence of arrivals end with the first one that makes the program quit. -/
def commandsThroughQuit : List Input → List Command
  | [] => []
  | input :: rest =>
      input.command.toList ++ if input.Quits then [] else commandsThroughQuit rest

/-- When the program quits, the read that it is handling or waiting for brings no more commands. -/
def QuitsLast (process : Process) (input : Input) : Prop :=
  (input.Quits → ∀ record ∈ process.position.remaining input, record.command = none) ∧
    (process.globals.isQuit = true → ∀ record ∈ input.records, record.command = none)

end Projs.Proxy

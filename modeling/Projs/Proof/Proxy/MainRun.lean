import Projs.Construction.Proxy.Commands
import Projs.Library.EventTrace
import Projs.Proof.Proxy.Effects

namespace Projs.Proxy
open LabelledMachine EventTrace

/-- Main moves between its positions by these inputs, and executes these statements. -/
inductive Moves (isQuit : Bool) : Position → Input → List Statement → Position → Prop
  | leave (quitting : isQuit = true) :
      Moves isQuit .test .advance [.restoreMode] (.ended .returned)
  | wait (running : isQuit = false) : Moves isQuit .test .advance [] .reading
  | read (records : List InputRecord) (some : 1 ≤ records.length) (fit : records.length ≤ 128) :
      Moves isQuit .reading (.read records) [] (.handling records)
  | fail : Moves isQuit .reading .readFailed (errorExit (cstring "ReadConsoleInput"))
      (.ended .errorExit)
  | handle (record : InputRecord) (rest : List InputRecord) :
      Moves isQuit (.handling (record :: rest)) (.record record) record.statements (.handling rest)
  | done : Moves isQuit (.handling []) .advance [] .test
  | pass (position : Position) (type : CtrlType) (live : ∀ ending, position ≠ .ended ending)
      (dealt : (ctrlHandler type).2 = true) :
      Moves isQuit position (.control type) (ctrlHandler type).1 position
  | stop (position : Position) (type : CtrlType) (live : ∀ ending, position ≠ .ended ending)
      (passed : (ctrlHandler type).2 = false) :
      Moves isQuit position (.control type) (ctrlHandler type).1 (.ended .defaultHandler)

theorem executes_ok {process next : Process} {body : List Statement} {position : Position}
    (executed : process.executes body position = .ok next) :
    next.position = position ∧ Effects process.globals next.globals body := by
  obtain ⟨globals, reached, same⟩ := map_eq_ok_iff.mp executed
  subst same
  exact ⟨rfl, run_effects reached⟩

theorem Moves.control {isQuit : Bool} (position : Position) (type : CtrlType)
    (live : ∀ ending, position ≠ .ended ending) :
    Moves isQuit position (.control type) (ctrlHandler type).1
      (if (ctrlHandler type).2 then position else .ended .defaultHandler) := by
  by_cases dealt : (ctrlHandler type).2 = true
  · rw [if_pos dealt]
    exact .pass position type live dealt
  · rw [if_neg dealt]
    exact .stop position type live (Bool.not_eq_true _ ▸ dealt)

/-- Every step of the process is one of main's moves. -/
theorem step_moves {process next : Process} {input : Input}
    (stepped : mainLoop.step process input = .ok next) :
    ∃ body, Moves process.globals.isQuit process.position input body next.position ∧
      Effects process.globals next.globals body := by
  obtain ⟨position, globals⟩ := process
  have moved {body : List Statement} {position' : Position}
      (executed : Process.executes ⟨position, globals⟩ body position' = .ok next)
      (move : Moves globals.isQuit position input body position') :
      ∃ body, Moves globals.isQuit position input body next.position ∧
        Effects globals next.globals body := by
    obtain ⟨same, effects⟩ := executes_ok executed
    subst same
    exact ⟨body, move, effects⟩
  cases position with
  | ended ending => cases stepped
  | test =>
      cases input with
      | control type => exact moved stepped (.control _ type nofun)
      | advance =>
          simp only [mainLoop] at stepped
          split at stepped
          · next quitting => exact moved stepped (.leave quitting)
          · next running => exact moved stepped (.wait (Bool.not_eq_true _ ▸ running))
      | _ => cases stepped
  | reading =>
      cases input with
      | control type => exact moved stepped (.control _ type nofun)
      | read records =>
          simp only [mainLoop] at stepped
          split at stepped
          · next bounds => exact moved stepped (.read records bounds.1 bounds.2)
          · cases stepped
      | readFailed =>
          simp only [mainLoop] at stepped
          exact moved stepped .fail
      | _ => cases stepped
  | handling rest =>
      cases input with
      | control type => exact moved stepped (.control _ type nofun)
      | advance =>
          cases rest with
          | nil =>
              simp only [mainLoop] at stepped
              exact moved stepped .done
          | cons record rest => cases stepped
      | record record =>
          cases rest with
          | nil => cases stepped
          | cons next' rest =>
              simp only [mainLoop] at stepped
              split at stepped
              · next same =>
                  subst same
                  exact moved stepped (.handle next' rest)
              · cases stepped
      | _ => cases rest <;> cases stepped

/-- These statements neither call one of the functions at issue nor act on the globals that such a
call changes. -/
def Statement.inert : Statement → Bool
  | .call .quit | .call .killall | .call .proxy | .call .unproxy | .call (.exeSimpleThread _)
  | .createThread _ | .setQuit => false
  | _ => true

/-- A released key is printed first. -/
def KeyEventRecord.printed (ker : KeyEventRecord) : List Statement :=
  if ker.bKeyDown then []
  else [.printf (cstring "Key event: %d %c \n")
    [ker.wVirtualKeyCode.toNat, ker.asciiChar.toNat]]

/-- A key event prints and then executes its command. -/
theorem keyEventProc_eq (ker : KeyEventRecord) :
    keyEventProc ker = ker.printed ++ ker.command.elim [] Command.statements := by
  unfold keyEventProc KeyEventRecord.command KeyEventRecord.printed
  by_cases down : ker.bKeyDown = true
  · simp only [down, if_true]
    rfl
  · rw [if_neg down, if_neg down, if_neg down, List.singleton_append]
    congr 1
    by_cases usage : ker.asciiChar = ascii 'u'
    · rw [usage]
      rfl
    by_cases quitting : ker.asciiChar = ascii 'q'
    · rw [quitting]
      rfl
    by_cases stop : ker.asciiChar = ascii '1'
    · rw [stop]
      rfl
    by_cases start : ker.asciiChar = ascii '2'
    · rw [start]
      rfl
    · simp only [usage, quitting, stop, start, if_false]
      rfl

theorem KeyEventRecord.printed_forall {ker : KeyEventRecord} {property : Statement → Prop}
    (prints : ∀ format arguments, property (.printf format arguments)) :
    ∀ statement ∈ ker.printed, property statement := by
  intro statement member
  unfold printed at member
  split at member
  · cases member
  · rw [List.mem_singleton.mp member]
    exact prints _ _

/-- Each move executes its input's core between inert statements. -/
theorem Moves.core {isQuit : Bool} {position next : Position} {input : Input}
    {body : List Statement} (move : Moves isQuit position input body next) :
    ∃ front back, (∀ statement ∈ front ++ back, statement.inert) ∧
      body = front ++ input.core ++ back := by
  have control (type : CtrlType) : ∃ front back, (∀ statement ∈ front ++ back, statement.inert) ∧
      (ctrlHandler type).1 = front ++ (Input.control type).core ++ back := by
    cases type with
    | ctrlClose => exact ⟨[], (ctrlHandler .ctrlClose).1.drop quit.length, by decide, rfl⟩
    | _ => exact ⟨_, [], by decide, (List.append_nil _).symm.trans (List.append_nil _).symm⟩
  cases move with
  | handle record rest =>
      cases record with
      | key event =>
          refine ⟨event.printed, [], ?_, ?_⟩
          · rw [List.append_nil]
            exact KeyEventRecord.printed_forall fun _ _ => rfl
          · rw [List.append_nil]
            exact keyEventProc_eq event
      | other => exact ⟨[], [], by simp, rfl⟩
  | pass position type => exact control type
  | stop position type => exact control type
  | _ => exact ⟨_, [], by decide, (List.append_nil _).symm.trans (List.append_nil _).symm⟩

/-- An input's core is that of the close event, of a command, or empty. -/
theorem Input.core_cases (input : Input) :
    (input = .control .ctrlClose ∧ input.command = none ∧ input.core = quit) ∨
    (∃ command, input.command = some command ∧ input ≠ .control .ctrlClose ∧
      input.core = command.statements) ∨
    (input.command = none ∧ input ≠ .control .ctrlClose ∧ input.core = []) := by
  by_cases close : input = .control .ctrlClose
  · subst close
    exact .inl ⟨rfl, rfl, rfl⟩
  · have core : input.core = input.command.elim [] Command.statements := if_neg close
    cases command : input.command with
    | none => exact .inr (.inr ⟨rfl, close, by rw [core, command]; rfl⟩)
    | some found => exact .inr (.inl ⟨found, rfl, close, by rw [core, command]; rfl⟩)

/-- Only the key `2` creates threads, one for each tunnel. -/
theorem Input.created_core (input : Input) :
    created input.core = if input.command = some .start then tunnelCommands else [] := by
  rcases input.core_cases with ⟨_, command, core⟩ | ⟨found, command, _, core⟩ | ⟨command, _, core⟩
  · rw [core, command]
    rfl
  · rw [core, command]
    cases found <;> rfl
  · rw [core, command]
    rfl

/-- Only a quitting input sets the flag and calls `quit` and `killall`. -/
theorem Input.mem_core (input : Input) :
    ∀ statement ∈ [Statement.setQuit, .call .quit, .call .killall],
      (statement ∈ input.core ↔ input.Quits) := by
  unfold Input.Quits
  rcases input.core_cases with ⟨close, command, core⟩ | ⟨found, command, live, core⟩ |
    ⟨command, live, core⟩
  · rw [core, command]
    simp only [close, or_true, iff_true]
    decide
  · rw [core, command]
    simp only [live, or_false, Option.some.injEq]
    cases found <;> decide
  · rw [core, command]
    simp [live]

theorem Input.Quits.unproxy {input : Input} (quits : input.Quits) :
    .call .unproxy ∈ input.core := by
  rcases quits with command | close
  · have live : input ≠ .control .ctrlClose := by
      intro close
      subst close
      cases command
    rw [Input.core, if_neg live, command]
    decide
  · rw [Input.core, if_pos close]
    decide

/-- An input switches the system proxy as its statements do. -/
theorem Input.switch_core (input : Input) (value : Bool) :
    latest Statement.switch value input.core = (input.switch).getD value := by
  rcases input.core_cases with ⟨close, _, _⟩ | ⟨found, command, live, core⟩ |
    ⟨command, live, core⟩
  · subst close
    rfl
  · rw [core]
    simp only [Input.switch, Input.Quits, command, live, or_false]
    cases found <;> rfl
  · rw [core]
    simp [Input.switch, Input.Quits, command, live]

theorem switch_of_inert {statement : Statement} (inert : statement.inert) :
    statement.switch = none := by
  unfold Statement.switch
  split
  · cases inert
  · cases inert
  · rfl

theorem created_of_inert {statement : Statement} (inert : statement.inert) :
    statement.created = none := by
  cases statement with
  | createThread exe => cases inert
  | _ => rfl

theorem created_inert {body : List Statement} (inert : ∀ statement ∈ body, statement.inert) :
    created body = [] := by
  unfold Proxy.created
  rw [List.filterMap_eq_nil_iff]
  exact fun statement member => created_of_inert (inert statement member)

/-- What a move creates is what its input's core creates. -/
theorem Moves.created {isQuit : Bool} {position next : Position} {input : Input}
    {body : List Statement} (move : Moves isQuit position input body next) :
    created body = if input.command = some .start then tunnelCommands else [] := by
  obtain ⟨front, back, inert, same⟩ := move.core
  rw [same, created_append, created_append, input.created_core,
    created_inert fun statement member => inert statement (List.mem_append_left _ member),
    created_inert fun statement member => inert statement (List.mem_append_right _ member),
    List.nil_append, List.append_nil]

/-- A move switches the system proxy as its input does. -/
theorem Moves.switch {isQuit : Bool} {position next : Position} {input : Input}
    {body : List Statement} (move : Moves isQuit position input body next) (value : Bool) :
    latest Statement.switch value body = (input.switch).getD value := by
  obtain ⟨front, back, inert, same⟩ := move.core
  rw [same, latest_append, latest_append,
    latest_of_forall fun statement member =>
      switch_of_inert (inert statement (List.mem_append_left _ member)),
    latest_of_forall fun statement member =>
      switch_of_inert (inert statement (List.mem_append_right _ member)),
    input.switch_core]

/-- A statement that is not inert is in a move when it is in its input's core. -/
theorem Moves.mem_iff {isQuit : Bool} {position next : Position} {input : Input}
    {body : List Statement} (move : Moves isQuit position input body next)
    {statement : Statement} (acts : ¬ statement.inert) :
    statement ∈ body ↔ statement ∈ input.core := by
  obtain ⟨front, back, inert, same⟩ := move.core
  rw [same, List.mem_append, List.mem_append]
  constructor
  · intro member
    rcases member with (before | own) | after
    · exact absurd (inert statement (List.mem_append_left _ before)) acts
    · exact own
    · exact absurd (inert statement (List.mem_append_right _ after)) acts
  · exact fun own => .inl (.inr own)

theorem acts_of_quitting :
    ∀ statement ∈ [Statement.call .quit, .call .killall], ¬ statement.inert := by decide

theorem Input.Quits.command {input : Input} (quits : input.Quits) :
    input.command ≠ some .start := by
  rcases quits with command | close
  · rw [command]
    exact nofun
  · rw [close]
    exact nofun

/-- An input among those handled so far has made the program quit. -/
def Quitting (inputs : List Input) : Prop := ∃ input ∈ inputs, input.Quits

instance (inputs : List Input) : Decidable (Quitting inputs) :=
  inferInstanceAs (Decidable (∃ input ∈ inputs, input.Quits))

theorem quitting_concat (inputs : List Input) (input : Input) :
    Quitting (inputs ++ [input]) ↔ Quitting inputs ∨ input.Quits := by
  simp [Quitting, or_and_right, exists_or]

/-- This is how often the key `2` has been handled. -/
def starts (inputs : List Input) : Nat := inputs.countP fun input => input.command = some .start

/-- The state of the process is what the inputs handled so far make of it. -/
structure Recorded (inputs : List Input) (process : Process) : Prop where
  isQuit : process.globals.isQuit = true ↔ Quitting inputs
  calls : ∀ statement ∈ [Statement.call .quit, .call .killall],
    (statement ∈ process.globals.trace ↔ Quitting inputs)
  unproxy : Quitting inputs → .call .unproxy ∈ process.globals.trace
  workerId : process.globals.workerId = 4 * starts inputs
  worker : process.globals.worker = List.range process.globals.workerId
  switch : latest Statement.switch false process.globals.trace = latest Input.switch false inputs

/-- Every step of main keeps the record. -/
theorem recorded_keeps : mainLoop.Keeps Recorded := by
  intro inputs process input next recorded _ stepped
  obtain ⟨body, move, effects⟩ := step_moves stepped
  have created : (created body).length = if input.command = some .start then 4 else 0 := by
    rw [move.created]
    split <;> rfl
  have tunnels : starts (inputs ++ [input]) =
      starts inputs + if input.command = some .start then 1 else 0 := by
    simp [starts, List.countP_append, List.countP_singleton]
  constructor
  · rw [effects.isQuit, Bool.or_eq_true, decide_eq_true_eq, move.mem_iff (by decide),
      input.mem_core _ (by decide), recorded.isQuit, quitting_concat]
  · intro statement member
    rw [effects.trace, List.mem_append, move.mem_iff (acts_of_quitting _ member),
      input.mem_core _ (List.mem_cons_of_mem _ member), recorded.calls _ member, quitting_concat]
  · rw [quitting_concat, effects.trace, List.mem_append, move.mem_iff (by decide)]
    exact Or.imp recorded.unproxy fun quits => quits.unproxy
  · rw [effects.workerId, created, recorded.workerId, tunnels]
    split <;> omega
  · rw [effects.worker, effects.workerId, recorded.worker, List.range_eq_range',
      List.range_eq_range', ← List.range'_append_1, Nat.zero_add]
  · rw [effects.trace, latest_append, recorded.switch, move.switch, latest_append, latest_cons,
      latest_nil]

theorem strcatS_ok {size : Nat} {destination source result : CString}
    (appended : strcatS size destination source = .ok result) : result = destination ++ source := by
  unfold strcatS at appended
  split at appended
  · exact (Except.ok.inj appended).symm
  · cases appended

/-- These are the globals before main shows the usage. -/
def initialGlobals (directory : CString) (mode : UInt32) : Globals where
  consoleMode := inputMode
  fdwSaveOldMode := mode
  pwd := directory ++ cstring "\\"

/-- Main starts its loop right after it has shown the usage. -/
theorem start_ran {directory : CString} {mode : UInt32} {process : Process}
    (started : start directory mode = .ok process) :
    process.position = .test ∧
      statements.run (initialGlobals directory mode) usage = .ok process.globals := by
  obtain ⟨buffer, first, started⟩ := bind_eq_ok_iff.mp started
  obtain ⟨pwd, second, started⟩ := bind_eq_ok_iff.mp started
  obtain ⟨globals, shown, started⟩ := bind_eq_ok_iff.mp started
  cases started
  rw [strcatS_ok second, strcatS_ok first, List.nil_append] at shown
  exact ⟨rfl, shown⟩

/-- At the start of the loop, nothing has happened but the usage. -/
theorem start_spec {directory : CString} {mode : UInt32} {process : Process}
    (started : start directory mode = .ok process) :
    process.position = .test ∧ process.globals.pwd = directory ++ cstring "\\" ∧
      process.globals.isQuit = false ∧ process.globals.workerId = 0 ∧
      process.globals.worker = [] ∧ process.globals.threads = [] ∧
      process.globals.trace = usage := by
  obtain ⟨position, shown⟩ := start_ran started
  have effects := run_effects shown
  have created : created usage = [] := by decide
  refine ⟨position, effects.pwd, effects.isQuit, ?_, ?_, ?_, effects.trace⟩
  · rw [effects.workerId, created]
    rfl
  · rw [effects.worker, created]
    rfl
  · rw [effects.threads, created]
    rfl

theorem recorded_start {directory : CString} {mode : UInt32} {process : Process}
    (started : start directory mode = .ok process) : Recorded [] process := by
  obtain ⟨_, _, isQuit, workerId, worker, _, trace⟩ := start_spec started
  have idle : ¬ Quitting [] := by decide
  constructor
  · rw [isQuit]
    simp [idle]
  · rw [trace]
    decide
  · exact fun quitting => absurd quitting idle
  · exact workerId
  · rw [worker, workerId]
    rfl
  · rw [trace]
    rfl

/-- In every run, the state of the process is what the handled inputs make of it. -/
theorem run_recorded {directory : CString} {mode : UInt32} {process final : Process}
    {inputs : List Input} (started : start directory mode = .ok process)
    (reached : mainLoop.run process inputs = .ok final) : Recorded inputs final :=
  recorded_keeps.run mainLoop (recorded_start started) reached

/-- A key is released in the console. -/
def released (character : Char) : InputRecord := .key ⟨false, 0, ascii character⟩

/-- A read returns some releases of the key `2`, and each of them is handled. -/
def startInputs (count : Nat) : List Input :=
  [.advance, .read (List.replicate count (released '2'))] ++
    List.replicate count (.record (released '2'))

theorem startInputs_run :
    ∃ process final, start (cstring "C:") 7 = .ok process ∧
      mainLoop.run process (startInputs 1) = .ok final := by
  have success : (start (cstring "C:") 7 >>= fun process =>
      mainLoop.run process (startInputs 1)).toOption.map
        (fun _ => ()) = some () := by decide +kernel
  obtain ⟨process, final, started, reached, _⟩ := exists_ok_of_seen success
  exact ⟨process, final, started, reached⟩

end Projs.Proxy

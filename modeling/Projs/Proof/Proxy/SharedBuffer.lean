import Projs.Construction.Proxy.Workers
import Projs.Proof.Proxy.MainRun

namespace Projs.Proxy
open LabelledMachine EventTrace

/-- Each thread runs its own program, and when all is done each request has been run once. -/
structure RunsItsOwn (keys : List KeyEventRecord) (state : Workshop) : Prop where
  own : ∀ thread ∈ state.globals.threads, ∀ line ∈ thread.line,
    line = state.globals.pwd ++ thread.exe
  once : state.pending = [] → (∀ thread ∈ state.globals.threads, thread.line ≠ none) →
    state.globals.threads.map Thread.line =
      (keys.flatMap KeyEventRecord.requested).map fun exe => some (state.globals.pwd ++ exe)

theorem threadRun_ok {pwd progexe line : CString} (built : threadRun pwd progexe = .ok line) :
    line = pwd ++ progexe := by
  obtain ⟨progtmp, first, second⟩ := bind_eq_ok_iff.mp built
  rw [strcatS_ok second, strcatS_ok first, List.nil_append]

/-- The scheduler's turns either execute the next statement or let one thread copy `prog`. -/
inductive Turns : Workshop → Turn → Workshop → Prop
  | main {before after : Globals} {statement : Statement} {rest : List Statement}
      (stepped : statements.step before statement = .ok after) :
      Turns ⟨before, statement :: rest⟩ .main ⟨after, rest⟩
  | copy {globals : Globals} {pending : List Statement} {index : Nat} {exe : CString}
      (waiting : globals.threads[index]? = some ⟨exe, none⟩) :
      Turns ⟨globals, pending⟩ (.copy index)
        ⟨globals.copied index ⟨exe, none⟩ (globals.pwd ++ globals.prog), pending⟩

theorem step_turns {state next : Workshop} {turn : Turn}
    (stepped : workshop.step state turn = .ok next) : Turns state turn next := by
  obtain ⟨globals, pending⟩ := state
  cases turn with
  | main =>
      cases pending with
      | nil => cases stepped
      | cons statement rest =>
          obtain ⟨after, executed, same⟩ := map_eq_ok_iff.mp stepped
          subst same
          exact .main executed
  | copy index =>
      cases found : globals.threads[index]? with
      | none =>
          simp only [workshop, found] at stepped
          cases stepped
      | some thread =>
          simp only [workshop, found] at stepped
          split at stepped
          · next waiting =>
              obtain ⟨line, built, same⟩ := map_eq_ok_iff.mp stepped
              obtain ⟨exe, _⟩ := thread
              cases waiting
              rw [← same, threadRun_ok built]
              exact .copy found
          · cases stepped

/-- Every text that is appended to `prog`, besides the directory, is one of two commands. -/
def Statement.known : Statement → Bool
  | .strcat text => text ∈ [proxyCommand, unproxyCommand]
  | _ => true

theorem Command.statements_known (command : Command) :
    ∀ statement ∈ command.statements, statement.known := by
  cases command <;> decide

theorem keyEventProc_known (ker : KeyEventRecord) :
    ∀ statement ∈ keyEventProc ker, statement.known := by
  intro statement member
  rw [keyEventProc_eq] at member
  rcases List.mem_append.mp member with printed | own
  · have prints : ∀ other ∈ ker.printed, other.known :=
      KeyEventRecord.printed_forall fun _ _ => rfl
    exact prints statement printed
  · cases asked : ker.command with
    | none =>
        rw [asked] at own
        cases own
    | some command =>
        rw [asked] at own
        exact command.statements_known statement own

/-- A key's statements create threads for exactly the programs that the key asks for. -/
theorem keyEventProc_created (ker : KeyEventRecord) :
    created (keyEventProc ker) = ker.requested := by
  have move : Moves false (.handling [.key ker]) (.record (.key ker)) (keyEventProc ker)
      (.handling []) := .handle (.key ker) []
  exact move.created

/-- The latest write tells what the buffer holds, or at least how it ends. -/
def Holds (pwd prog : CString) : Option Statement → Prop
  | none | some .zeroMemory => prog = []
  | some .strcatPwd => prog.getLast? = pwd.getLast?
  | some (.strcat text) => prog.getLast? = text.getLast? ∧ text ∈ [proxyCommand, unproxyCommand]
  | some (.strcpy text) => prog = text
  | some _ => False

/-- The programs of the threads end in other characters than what else the buffer can hold. -/
theorem tunnelCommands_getLast : ∀ exe ∈ tunnelCommands, exe ≠ [] ∧
    exe.getLast? ≠ (cstring "\\").getLast? ∧ exe.getLast? ≠ proxyCommand.getLast? ∧
      exe.getLast? ≠ unproxyCommand.getLast? := by decide +kernel

/-- The buffer holds a thread's program only after the copy of that program. -/
theorem Holds.eq_strcpy {directory prog : CString} {write : Option Statement}
    (holds : Holds (directory ++ cstring "\\") prog write) (member : prog ∈ tunnelCommands) :
    write = some (.strcpy prog) := by
  obtain ⟨some, separator, on, off⟩ := tunnelCommands_getLast prog member
  unfold Holds at holds
  split at holds
  · exact absurd holds some
  · exact absurd holds some
  · rw [List.getLast?_append_of_ne_nil _ (by decide)] at holds
    exact absurd holds separator
  · rcases List.mem_pair.mp holds.2 with same | same
    · exact absurd (same ▸ holds.1) on
    · exact absurd (same ▸ holds.1) off
  · rw [holds]
  · cases holds

/-- A statement leaves what the buffer holds as its latest write says. -/
theorem Holds.step {directory : CString} {before after : Globals} {statement : Statement}
    (pwd : before.pwd = directory ++ cstring "\\") (known : statement.known)
    (holds : Holds before.pwd before.prog (latest Statement.write none before.trace))
    (stepped : statements.step before statement = .ok after) :
    Holds after.pwd after.prog (latest Statement.write none after.trace) := by
  have effects := step_effects stepped
  obtain ⟨next, executed, same⟩ := map_eq_ok_iff.mp stepped
  subst same
  rw [effects.trace, latest_append, latest_cons, latest_nil, effects.pwd]
  cases statement with
  | zeroMemory =>
      cases executed
      exact rfl
  | strcatPwd =>
      obtain ⟨prog, appended, same⟩ := map_eq_ok_iff.mp executed
      subst same
      change prog.getLast? = before.pwd.getLast?
      rw [strcatS_ok appended, pwd, ← List.append_assoc,
        List.getLast?_append_of_ne_nil _ (by decide), List.getLast?_append_of_ne_nil _ (by decide)]
  | strcat text =>
      obtain ⟨prog, appended, same⟩ := map_eq_ok_iff.mp executed
      subst same
      have some : text ≠ [] := by
        rcases List.mem_pair.mp (of_decide_eq_true known) with same | same
        · rw [same]
          decide
        · rw [same]
          decide
      refine ⟨?_, of_decide_eq_true known⟩
      change prog.getLast? = text.getLast?
      rw [strcatS_ok appended, List.getLast?_append_of_ne_nil _ some]
  | strcpy text =>
      obtain ⟨prog, copied, same⟩ := map_eq_ok_iff.mp executed
      subst same
      unfold strcpyS at copied
      split at copied
      · exact (Except.ok.inj copied).symm
      · cases copied
  | _ =>
      cases executed
      exact holds

/-- Completed statements leave what the buffer holds as the latest write says. -/
theorem Holds.run {directory : CString} {before after : Globals} {body : List Statement}
    (known : ∀ statement ∈ body, statement.known)
    (pwd : before.pwd = directory ++ cstring "\\")
    (holds : Holds before.pwd before.prog (latest Statement.write none before.trace))
    (reached : statements.run before body = .ok after) :
    Holds after.pwd after.prog (latest Statement.write none after.trace) := by
  induction body generalizing before with
  | nil =>
      cases reached
      exact holds
  | cons statement rest ih =>
      obtain ⟨next, stepped, later⟩ := (run_cons_ok_iff statements).mp reached
      apply ih (fun other member => known other (List.mem_cons_of_mem _ member))
      · exact (step_effects stepped).pwd.trans pwd
      · exact holds.step pwd (known statement List.mem_cons_self) stepped
      · exact later

/-- In every state of the workshop, the buffer holds the latest write, and the threads and the
statements left make up the requests of the keys. -/
structure Stocked (directory : CString) (keys : List KeyEventRecord) (state : Workshop) : Prop where
  pwd : state.globals.pwd = directory ++ cstring "\\"
  holds : Holds state.globals.pwd state.globals.prog
    (latest Statement.write none state.globals.trace)
  known : ∀ statement ∈ state.pending, statement.known
  requests : state.globals.threads.map Thread.exe ++ created state.pending =
    keys.flatMap KeyEventRecord.requested

theorem set_map_exe {threads : List Thread} {index : Nat} {exe : CString}
    (line : Option CString) (waiting : threads[index]? = some ⟨exe, none⟩) :
    (threads.set index ⟨exe, line⟩).map Thread.exe = threads.map Thread.exe := by
  obtain ⟨inside, _⟩ := List.getElem?_eq_some_iff.mp waiting
  apply List.ext_getElem?
  intro position
  rw [List.getElem?_map, List.getElem?_map]
  by_cases own : index = position
  · subst own
    rw [List.getElem?_set_self inside, waiting]
    rfl
  · rw [List.getElem?_set_ne own]

theorem stocked_keeps (directory : CString) (keys : List KeyEventRecord) :
    workshop.Keeps fun _ state => Stocked directory keys state := by
  intro _ state turn next stocked _ stepped
  cases step_turns stepped with
  | main executed =>
      have effects := step_effects executed
      refine ⟨effects.pwd.trans stocked.pwd, ?_, ?_, ?_⟩
      · exact stocked.holds.step stocked.pwd (stocked.known _ List.mem_cons_self) executed
      · exact fun statement member => stocked.known statement (List.mem_cons_of_mem _ member)
      · have requests := stocked.requests
        rw [← List.singleton_append, created_append] at requests
        rw [effects.threads, List.map_append, List.append_assoc, List.map_map, ← requests]
        congr 1
        exact congrArg (· ++ _) (List.map_id _)
  | copy waiting =>
      refine ⟨stocked.pwd, stocked.holds, stocked.known, ?_⟩
      have requests := stocked.requests
      simp only [Globals.copied, set_map_exe _ waiting]
      exact requests

theorem stocked_start {directory : CString} {mode : UInt32} {process : Process}
    (started : start directory mode = .ok process) (keys : List KeyEventRecord) :
    Stocked directory keys (process.workshop keys) := by
  obtain ⟨_, pwd, _, _, _, threads, _⟩ := start_spec started
  refine ⟨pwd, ?_, ?_, ?_⟩
  · have empty : Holds (initialGlobals directory mode).pwd (initialGlobals directory mode).prog
        (latest Statement.write none (initialGlobals directory mode).trace) := rfl
    exact empty.run (by decide) rfl (start_ran started).2
  · intro statement member
    obtain ⟨ker, _, own⟩ := List.mem_flatMap.mp member
    exact keyEventProc_known ker statement own
  · change process.globals.threads.map Thread.exe ++ created (keys.flatMap keyEventProc) = _
    rw [threads, List.map_nil, List.nil_append, created, List.filterMap_flatMap]
    exact congrArg (keys.flatMap ·) (funext keyEventProc_created)

/-- The thread that copies while its own program is the latest write gets its own command line. -/
theorem own_keeps {directory : CString} {keys : List KeyEventRecord} :
    workshop.KeepsWhile CopiesOwn fun _ state => Stocked directory keys state ∧
      ∀ thread ∈ state.globals.threads, ∀ line ∈ thread.line,
        line = state.globals.pwd ++ thread.exe := by
  intro inputs state turn next both copies stepped
  obtain ⟨stocked, own⟩ := both
  refine ⟨stocked_keeps directory keys inputs state turn next stocked trivial stepped, ?_⟩
  cases step_turns stepped with
  | main executed =>
      have effects := step_effects executed
      rw [effects.threads, effects.pwd]
      intro thread member line present
      rcases List.mem_append.mp member with before | fresh
      · exact own thread before line present
      · obtain ⟨exe, _, same⟩ := List.mem_map.mp fresh
        rw [← same] at present
        cases present
  | copy waiting =>
      rename_i globals pending index exe
      have write := copies index rfl _ waiting
      have holds := stocked.holds
      rw [write] at holds
      have prog : globals.prog = exe := holds
      intro thread member line present
      rcases List.mem_or_eq_of_mem_set member with before | same
      · exact own thread before line present
      · rw [same] at present
        rw [same]
        rw [← Option.some.inj present, prog]
        rfl

/-- When every thread runs its own program, a finished workshop has run each request once. -/
theorem Stocked.once {directory : CString} {keys : List KeyEventRecord} {state : Workshop}
    (stocked : Stocked directory keys state)
    (own : ∀ thread ∈ state.globals.threads, ∀ line ∈ thread.line,
      line = state.globals.pwd ++ thread.exe) : RunsItsOwn keys state := by
  refine ⟨own, ?_⟩
  intro done copied
  have requests := stocked.requests
  rw [done] at requests
  rw [← requests, show created [] = [] from rfl, List.append_nil, List.map_map]
  apply List.map_congr_left
  intro thread member
  obtain ⟨line, present⟩ := Option.ne_none_iff_exists'.mp (copied thread member)
  rw [present, own thread member line present]
  rfl

/-- Threads are only created for the four programs. -/
theorem Stocked.exe_mem {directory : CString} {keys : List KeyEventRecord} {state : Workshop}
    (stocked : Stocked directory keys state) :
    ∀ thread ∈ state.globals.threads, thread.exe ∈ tunnelCommands := by
  intro thread member
  have requested : thread.exe ∈ keys.flatMap KeyEventRecord.requested := by
    rw [← stocked.requests]
    exact List.mem_append_left _ (List.mem_map_of_mem member)
  obtain ⟨ker, _, own⟩ := List.mem_flatMap.mp requested
  unfold KeyEventRecord.requested at own
  split at own
  · exact own
  · cases own

/-- A thread that has copied keeps its command line. -/
theorem line_kept {state final : Workshop} {turns : List Turn} {index : Nat} {exe line : CString}
    (copied : state.globals.threads[index]? = some ⟨exe, some line⟩)
    (reached : workshop.run state turns = .ok final) :
    final.globals.threads[index]? = some ⟨exe, some line⟩ := by
  have keeps : workshop.Keeps fun _ state =>
      state.globals.threads[index]? = some ⟨exe, some line⟩ := by
    intro _ state turn next copied _ stepped
    cases step_turns stepped with
    | main executed =>
        have inside := (List.getElem?_eq_some_iff.mp copied).1
        rw [(step_effects executed).threads, List.getElem?_append_left inside]
        exact copied
    | copy waiting =>
        rename_i globals pending other exe'
        have different : other ≠ index := by
          intro same
          subst same
          rw [waiting] at copied
          cases copied
        simp only [Globals.copied]
        rw [List.getElem?_set_ne different]
        exact copied
  exact keeps.run workshop copied reached

/-- A thread that ran its own program has copied it right after it was written. -/
theorem copiesOwn_of_line {directory : CString} {keys : List KeyEventRecord}
    {state next final : Workshop} {turn : Turn} {after : List Turn}
    (stocked : Stocked directory keys state) (stocked' : Stocked directory keys final)
    (own : ∀ thread ∈ final.globals.threads, ∀ line ∈ thread.line,
      line = final.globals.pwd ++ thread.exe)
    (stepped : workshop.step state turn = .ok next)
    (reached : workshop.run next after = .ok final) : CopiesOwn state turn := by
  cases step_turns stepped with
  | main executed => exact fun index same => by cases same
  | copy waiting =>
      rename_i globals pending index exe
      intro other same thread found
      cases same
      rw [waiting] at found
      cases found
      have inside := (List.getElem?_eq_some_iff.mp waiting).1
      have copied : (globals.copied index ⟨exe, none⟩ (globals.pwd ++ globals.prog)).threads[index]?
          = some ⟨exe, some (globals.pwd ++ globals.prog)⟩ := List.getElem?_set_self inside
      have kept := line_kept copied reached
      have member := List.mem_of_getElem? kept
      have line := own _ member _ rfl
      have pwd : globals.pwd = final.globals.pwd := stocked.pwd.trans stocked'.pwd.symm
      rw [pwd] at line
      have prog : globals.prog = exe := List.append_cancel_left line
      have requested := stocked.exe_mem _ (List.mem_of_getElem? waiting)
      have holds := stocked.holds
      rw [stocked.pwd] at holds
      subst prog
      exact holds.eq_strcpy requested

/-- Every thread runs its own program exactly when each thread copies `prog` while the latest write
there is the thread's own program. -/
theorem runsItsOwn_iff {directory : CString} {mode : UInt32} {process : Process}
    {keys : List KeyEventRecord} {turns : List Turn} {final : Workshop}
    (started : start directory mode = .ok process)
    (reached : workshop.run (process.workshop keys) turns = .ok final) :
    RunsItsOwn keys final ↔ workshop.Along CopiesOwn (process.workshop keys) turns := by
  have stocked := stocked_start started keys
  constructor
  · intro runs before turn after middle split first
    rw [split] at reached
    obtain ⟨other, same, second⟩ := (run_append_ok_iff workshop).mp reached
    rw [first] at same
    cases same
    obtain ⟨next, stepped, later⟩ := (run_cons_ok_iff workshop).mp second
    exact copiesOwn_of_line ((stocked_keeps directory keys).run workshop stocked first)
      ((stocked_keeps directory keys).run workshop stocked reached) runs.own stepped later
  · intro along
    have both := own_keeps.run workshop ⟨stocked, fun thread member => ?_⟩ along reached
    · exact both.1.once both.2
    · have threads : (process.workshop keys).globals.threads = [] :=
        (start_spec started).2.2.2.2.2.1
      rw [threads] at member
      cases member

/-- The key `2` is released once. -/
def startKey : KeyEventRecord := ⟨false, 0, ascii '2'⟩

/-- Main executes some statements more between the creation of the first thread and its copy. -/
def startTurns (late : Fin 5) : List Turn :=
  List.replicate (10 + late) .main ++ [.copy 0] ++ List.replicate (4 - late) .main ++ [.copy 1] ++
    List.replicate 4 .main ++ [.copy 2] ++ List.replicate 4 .main ++ [.copy 3, .main]

theorem runsItsOwn_startTurns :
    ∃ process final, start (cstring "C:") 7 = .ok process ∧
      workshop.run (process.workshop [startKey]) (startTurns 0) = .ok final ∧
      (RunsItsOwn [startKey] final ↔
        workshop.Along CopiesOwn (process.workshop [startKey]) (startTurns 0)) := by
  have success : (start (cstring "C:") 7 >>= fun process =>
      workshop.run (process.workshop [startKey]) (startTurns 0)).toOption.map
        (fun _ => ()) = some () := by decide +kernel
  obtain ⟨process, final, started, reached, _⟩ := exists_ok_of_seen success
  exact ⟨process, final, started, reached, runsItsOwn_iff started reached⟩

/-- When the second program is written before the first thread copies, the first program is lost and
the second one runs twice. -/
theorem startTurns_not_own :
    ∃ process final, start (cstring "C:") 7 = .ok process ∧
      workshop.run (process.workshop [startKey]) (startTurns 3) = .ok final ∧
      final.pending = [] ∧
      final.globals.threads.map Thread.line = [1, 1, 2, 3].map (fun index =>
        (tunnelCommands[index]?).map (cstring "C:\\" ++ ·)) ∧
      ¬ RunsItsOwn [startKey] final := by
  have seen : (start (cstring "C:") 7 >>= fun process =>
      workshop.run (process.workshop [startKey]) (startTurns 3)).toOption.map (fun final =>
        (final.pending, final.globals.pwd, final.globals.threads.map Thread.line)) =
          some ([], cstring "C:\\", [1, 1, 2, 3].map (fun index =>
            (tunnelCommands[index]?).map (cstring "C:\\" ++ ·))) := by decide +kernel
  obtain ⟨process, final, started, reached, seen⟩ := exists_ok_of_seen seen
  obtain ⟨done, rest⟩ := Prod.mk.inj seen
  obtain ⟨pwd, lines⟩ := Prod.mk.inj rest
  refine ⟨process, final, started, reached, done, lines, ?_⟩
  intro runs
  have once := runs.once done (by
    intro thread member absent
    have line := List.mem_map_of_mem (f := Thread.line) member
    rw [lines, absent] at line
    exact absurd line (by decide +kernel))
  rw [lines, pwd] at once
  exact absurd once (by decide +kernel)

end Projs.Proxy

import Projs.Proof.Proxy.MainRun

namespace Projs.Proxy
open LabelledMachine EventTrace

/-- After `quit`, nothing switches the proxy on or starts a tunnel; the executed commands are those
of the arrivals up to the first quitting one; and the loop is left with the proxy off. -/
structure QuitIsFinal (inputs : List Input) (process : Process) : Prop where
  noStart : NeverAfter (· = .call .quit) (·.activates) process.globals.trace
  commands : Quitting inputs → ∀ arrivals, inputs.filter Input.arrives <+: arrivals →
    inputs.filterMap Input.command = commandsThroughQuit arrivals
  order : inputs.filterMap Input.handled <+: inputs.flatMap Input.records
  exit : process.position = .ended .returned →
    latest Statement.switch false process.globals.trace = false ∧
      NeverAfter (· = .call .killall) (·.activates) process.globals.trace

theorem commandsThroughQuit_append (front back : List Input) :
    commandsThroughQuit (front ++ back) =
      commandsThroughQuit front ++ if Quitting front then [] else commandsThroughQuit back := by
  induction front with
  | nil => simp [commandsThroughQuit, Quitting]
  | cons input rest ih =>
      rw [List.cons_append, commandsThroughQuit, commandsThroughQuit, ih]
      by_cases quits : input.Quits
      · have quitting : Quitting (input :: rest) := ⟨input, List.mem_cons_self, quits⟩
        simp [quits, quitting]
      · have same : Quitting (input :: rest) ↔ Quitting rest := by simp [Quitting, quits]
        simp only [quits, if_false, same, List.append_assoc]

theorem arrives_of_quits {input : Input} (quits : input.Quits) : input.arrives = true := by
  rcases quits with command | close
  · cases input with
    | record record => rfl
    | _ => cases command
  · rw [close]
    rfl

theorem quitting_arrivals (inputs : List Input) :
    Quitting (inputs.filter Input.arrives) ↔ Quitting inputs := by
  unfold Quitting
  constructor
  · intro quitting
    obtain ⟨input, member, quits⟩ := quitting
    exact ⟨input, (List.mem_filter.mp member).1, quits⟩
  · intro quitting
    obtain ⟨input, member, quits⟩ := quitting
    exact ⟨input, List.mem_filter.mpr ⟨member, arrives_of_quits quits⟩, quits⟩

/-- Only arrivals carry commands and make the program quit. -/
theorem commandsThroughQuit_arrivals (inputs : List Input) :
    commandsThroughQuit (inputs.filter Input.arrives) = commandsThroughQuit inputs := by
  induction inputs with
  | nil => rfl
  | cons input rest ih =>
      cases arrives : input.arrives with
      | true =>
          rw [List.filter_cons_of_pos arrives, commandsThroughQuit, commandsThroughQuit, ih]
      | false =>
          have running : ¬ input.Quits := by
            intro quits
            rw [arrives_of_quits quits] at arrives
            cases arrives
          have command : input.command = none := by
            cases input with
            | record record => cases arrives
            | _ => rfl
          rw [List.filter_cons_of_neg (by simp [arrives]), ih, commandsThroughQuit, command,
            if_neg running]
          rfl

/-- The commands up to the first quitting input are among all commands. -/
theorem commandsThroughQuit_length (inputs : List Input) :
    (commandsThroughQuit inputs).length ≤ (inputs.filterMap Input.command).length := by
  induction inputs with
  | nil => exact Nat.le_refl 0
  | cons input rest ih =>
      rw [commandsThroughQuit]
      cases command : input.command with
      | none =>
          rw [List.filterMap_cons_none command]
          split
          · exact Nat.zero_le _
          · exact ih
      | some found =>
          rw [List.filterMap_cons_some command]
          split
          · exact Nat.succ_le_succ (Nat.zero_le _)
          · exact Nat.succ_le_succ ih

/-- Only the command of the key `2` switches the proxy on or starts tunnels. -/
theorem Input.core_activates {input : Input} (other : input.command ≠ some .start) :
    ∀ statement ∈ input.core, ¬ statement.activates := by
  rcases input.core_cases with ⟨_, _, core⟩ | ⟨found, command, _, core⟩ | ⟨_, _, core⟩
  · rw [core]
    decide
  · rw [core]
    rw [command] at other
    cases found with
    | start => exact absurd rfl other
    | _ => decide
  · rw [core]
    simp

theorem acts_of_activates {statement : Statement} (activates : statement.activates) :
    ¬ statement.inert := by
  unfold Statement.activates at activates
  split at activates
  · exact nofun
  · exact nofun
  · cases activates

theorem Moves.no_activation {isQuit : Bool} {position next : Position} {input : Input}
    {body : List Statement} (move : Moves isQuit position input body next)
    (other : input.command ≠ some .start) : ∀ statement ∈ body, ¬ statement.activates :=
  fun statement member activates =>
    Input.core_activates other statement
      ((move.mem_iff (acts_of_activates activates)).mp member) activates

/-- Within one move, nothing starts after `quit` or `killall`. -/
theorem Moves.neverAfter {isQuit : Bool} {position next : Position} {input : Input}
    {body : List Statement} (move : Moves isQuit position input body next) {first : Statement}
    (quitting : first ∈ [Statement.call .quit, .call .killall]) :
    NeverAfter (· = first) (·.activates) body := by
  by_cases start : input.command = some .start
  · apply neverAfter_of_forall_first
    intro statement member same
    subst same
    have quits := (input.mem_core _ (List.mem_cons_of_mem _ quitting)).mp
      ((move.mem_iff (acts_of_quitting _ quitting)).mp member)
    exact quits.command start
  · exact neverAfter_of_forall (move.no_activation start)

/-- The records left behind a move were left by its input, or the input brought them. -/
theorem Moves.rest {isQuit : Bool} {position next : Position} {input : Input}
    {body : List Statement} (move : Moves isQuit position input body next) :
    ∀ record ∈ next.rest, record ∈ position.remaining input ∨ record ∈ input.records := by
  intro record member
  cases move with
  | read records => exact .inr member
  | handle head rest => exact .inl member
  | pass => exact .inl member
  | _ => cases member

theorem Position.remaining_subset (position : Position) (input : Input) :
    ∀ record ∈ position.remaining input, record ∈ position.rest := by
  intro record member
  cases input with
  | record head => exact List.mem_of_mem_tail member
  | _ => exact member

theorem Input.Quits.records {input : Input} (quits : input.Quits) : input.records = [] := by
  cases input with
  | read records =>
      rcases quits with command | close
      · cases command
      · cases close
  | _ => rfl

theorem Input.Quits.switch {input : Input} (quits : input.Quits) :
    input.switch = some false := by
  rw [Input.switch, if_neg quits.command, if_pos (.inr quits)]

/-- A handled record was the first of those left. -/
theorem Moves.command_rest {isQuit : Bool} {position next : Position} {input : Input}
    {body : List Statement} (move : Moves isQuit position input body next)
    (silent : ∀ record ∈ position.rest, record.command = none) : input.command = none := by
  cases move with
  | handle head rest => exact silent head List.mem_cons_self
  | _ => rfl

/-- The program leaves its loop only after quitting. -/
theorem returned_keeps : mainLoop.Keeps fun _ process =>
    process.position = .ended .returned → process.globals.isQuit = true := by
  intro _ process input next _ _ stepped returned
  obtain ⟨body, move, effects⟩ := step_moves stepped
  rw [returned] at move
  rw [effects.isQuit]
  generalize process.position = position at move
  cases move with
  | leave quitting =>
      rw [quitting]
      rfl
  | pass _ type live => exact absurd rfl (live .returned)

/-- While every quitting input meets no more commands in its read, quitting stays final. -/
structure Silent (inputs : List Input) (process : Process) : Prop where
  recorded : Recorded inputs process
  noStart : ∀ first ∈ [Statement.call .quit, .call .killall],
    NeverAfter (· = first) (·.activates) process.globals.trace
  rest : process.globals.isQuit = true → ∀ record ∈ process.position.rest, record.command = none
  executed : inputs.filterMap Input.command = commandsThroughQuit inputs
  off : process.globals.isQuit = true → latest Input.switch false inputs = false

theorem silent_keeps : mainLoop.KeepsWhile QuitsLast Silent := by
  intro inputs process input next silent last stepped
  obtain ⟨body, move, effects⟩ := step_moves stepped
  have recorded := recorded_keeps inputs process input next silent.recorded trivial stepped
  have quiet (isQuit : process.globals.isQuit = true) : input.command = none :=
    move.command_rest (silent.rest isQuit)
  refine ⟨recorded, ?_, ?_, ?_, ?_⟩
  · intro first quitting
    rw [effects.trace, neverAfter_append]
    refine ⟨silent.noStart first quitting, move.neverAfter quitting, ?_⟩
    intro found
    obtain ⟨statement, member, same⟩ := found
    subst same
    have isQuit := silent.recorded.isQuit.mpr ((silent.recorded.calls _ quitting).mp member)
    apply move.no_activation
    rw [quiet isQuit]
    exact nofun
  · intro isQuit record member
    have quitting := (quitting_concat inputs input).mp (recorded.isQuit.mp isQuit)
    rcases move.rest record member with left | brought
    · rcases quitting with before | now
      · exact silent.rest (silent.recorded.isQuit.mpr before) record
          (process.position.remaining_subset input record left)
      · exact last.1 now record left
    · rcases quitting with before | now
      · exact last.2 (silent.recorded.isQuit.mpr before) record brought
      · rw [now.records] at brought
        cases brought
  · rw [List.filterMap_append, commandsThroughQuit_append, silent.executed]
    by_cases before : Quitting inputs
    · have command := quiet (silent.recorded.isQuit.mpr before)
      simp [before, command]
    · rw [if_neg before]
      cases command : input.command <;> simp [commandsThroughQuit, command]
  · intro isQuit
    rw [latest_append, latest_cons, latest_nil]
    by_cases quits : input.Quits
    · rw [quits.switch]
      rfl
    · have before := ((quitting_concat inputs input).mp (recorded.isQuit.mp isQuit)).resolve_right
        quits
      have flag := silent.recorded.isQuit.mpr before
      have kept : input.switch = none := by simp [Input.switch, quiet flag, quits]
      rw [kept, silent.off flag]
      rfl

theorem Moves.live {isQuit : Bool} {position next : Position} {input : Input}
    {body : List Statement} (move : Moves isQuit position input body next) (ending : Ending) :
    position ≠ .ended ending := by
  cases move with
  | pass _ type live => exact live ending
  | stop _ type live => exact live ending
  | _ => exact nofun

/-- A move takes its record from those left, and it adds the records of its read. -/
theorem Moves.left {isQuit : Bool} {position next : Position} {input : Input}
    {body : List Statement} (move : Moves isQuit position input body next) :
    ∃ left, position.rest ++ input.records = input.handled.toList ++ left ∧
      ((∀ ending, next ≠ .ended ending) → left = next.rest) := by
  cases move with
  | stop _ type live =>
      exact ⟨position.rest, List.append_nil _, fun alive => absurd rfl (alive .defaultHandler)⟩
  | pass => exact ⟨position.rest, List.append_nil _, fun _ => rfl⟩
  | handle head rest => exact ⟨rest, List.append_nil _, fun _ => rfl⟩
  | read records => exact ⟨records, rfl, fun _ => rfl⟩
  | _ => exact ⟨[], rfl, fun _ => rfl⟩

/-- Records are handled in the order in which they are read. -/
theorem order_keeps : mainLoop.Keeps fun inputs process =>
    ∃ left, inputs.filterMap Input.handled ++ left = inputs.flatMap Input.records ∧
      ((∀ ending, process.position ≠ .ended ending) → left = process.position.rest) := by
  intro inputs process input next ordered _ stepped
  obtain ⟨before, same, rest⟩ := ordered
  obtain ⟨body, move, _⟩ := step_moves stepped
  obtain ⟨left, moved, alive⟩ := move.left
  refine ⟨left, ?_, alive⟩
  have single : [input].filterMap Input.handled = input.handled.toList := by
    cases handled : input.handled <;> simp [handled]
  rw [List.filterMap_append, single, List.flatMap_append, List.flatMap_singleton, ← same,
    rest move.live, List.append_assoc, List.append_assoc, moved]

/-- An ended process takes no further step. -/
theorem run_ended {process final : Process} {inputs : List Input} {ending : Ending}
    (ended : process.position = .ended ending)
    (reached : mainLoop.run process inputs = .ok final) : final = process := by
  cases inputs with
  | nil => exact (Except.ok.inj reached).symm
  | cons input rest =>
      obtain ⟨next, stepped, _⟩ := (run_cons_ok_iff mainLoop).mp reached
      obtain ⟨body, move, _⟩ := step_moves stepped
      exact absurd ended (move.live ending)

/-- Before the program leaves its loop, it handles every record that it has read. -/
theorem handled_of_returned {process final : Process} {inputs : List Input}
    (reached : mainLoop.run process inputs = .ok final)
    (returned : final.position = .ended .returned) :
    ∀ record ∈ process.position.rest, .record record ∈ inputs := by
  intro record member
  induction inputs generalizing process with
  | nil =>
      cases reached
      rw [returned] at member
      cases member
  | cons input rest ih =>
      obtain ⟨next, stepped, later⟩ := (run_cons_ok_iff mainLoop).mp reached
      obtain ⟨body, move, _⟩ := step_moves stepped
      obtain ⟨left, moved, alive⟩ := move.left
      by_cases ended : ∃ ending, next.position = .ended ending
      · obtain ⟨ending, ended⟩ := ended
        rw [run_ended ended later] at returned
        rw [returned] at move
        generalize process.position = position at move member
        cases move with
        | leave => cases member
        | pass _ type live => exact absurd rfl (live .returned)
      · have found : record ∈ input.handled.toList ++ left := by
          rw [← moved]
          exact List.mem_append_left _ member
        rcases List.mem_append.mp found with now | behind
        · cases input with
          | record head =>
              rw [List.mem_singleton.mp now]
              exact List.mem_cons_self
          | _ => cases now
        · rw [alive fun ending same => ended ⟨ending, same⟩] at behind
          exact List.mem_cons_of_mem _ (ih later behind)

/-- In a run that leaves its loop, a command left in a read behind quitting is executed too many. -/
theorem silent_of_final {next final : Process} {before after : List Input}
    (last : QuitIsFinal (before ++ after) final) (quitting : Quitting before)
    (reached : mainLoop.run next after = .ok final)
    (returned : final.position = .ended .returned) :
    ∀ record ∈ next.position.rest, record.command = none := by
  intro record member
  by_contra present
  obtain ⟨command, found⟩ := Option.ne_none_iff_exists'.mp present
  have handled := handled_of_returned reached returned record member
  have executed : command ∈ after.filterMap Input.command :=
    List.mem_filterMap.mpr ⟨_, handled, found⟩
  have whole : Quitting (before ++ after) := by
    obtain ⟨input, member, quits⟩ := quitting
    exact ⟨input, List.mem_append_left _ member, quits⟩
  have same := last.commands whole _ (List.prefix_refl _)
  rw [commandsThroughQuit_arrivals, commandsThroughQuit_append, if_pos quitting, List.append_nil,
    List.filterMap_append] at same
  have length := congrArg List.length same
  have bound := commandsThroughQuit_length before
  have some := List.length_pos_of_mem executed
  rw [List.length_append] at length
  omega

/-- When a move quits, it leaves exactly the records behind its input. -/
theorem Moves.rest_of_quits {isQuit : Bool} {position next : Position} {input : Input}
    {body : List Statement} (move : Moves isQuit position input body next) (quits : input.Quits) :
    next.rest = position.remaining input := by
  cases move with
  | handle head rest => rfl
  | pass => rfl
  | stop _ type live passed =>
      rcases quits with command | close
      · cases command
      · cases close
        cases passed
  | _ =>
      rcases quits with command | close
      · cases command
      · cases close

/-- The records of a finished read are left to be handled. -/
theorem Moves.brought {isQuit : Bool} {position next : Position} {input : Input}
    {body : List Statement} (move : Moves isQuit position input body next) :
    ∀ record ∈ input.records, record ∈ next.rest := by
  intro record member
  cases move with
  | read records => exact member
  | _ => cases member

theorem silent_start {directory : CString} {mode : UInt32} {process : Process}
    (started : start directory mode = .ok process) : Silent [] process := by
  obtain ⟨_, _, running, _, _, _, trace⟩ := start_spec started
  refine ⟨recorded_start started, ?_, ?_, rfl, fun _ => rfl⟩
  · intro first _
    rw [trace]
    exact neverAfter_of_forall (by decide)
  · intro isQuit
    rw [running] at isQuit
    cases isQuit

/-- While every quitting input meets no more commands in its read, quitting is final. -/
theorem Silent.final {inputs : List Input} {process : Process} (silent : Silent inputs process)
    (order : inputs.filterMap Input.handled <+: inputs.flatMap Input.records)
    (left : process.position = .ended .returned → process.globals.isQuit = true) :
    QuitIsFinal inputs process := by
  refine ⟨silent.noStart _ (by decide), ?_, order, ?_⟩
  · intro quitting arrivals arrived
    obtain ⟨later, same⟩ := arrived
    rw [← same, commandsThroughQuit_append, if_pos ((quitting_arrivals inputs).mpr quitting),
      List.append_nil, commandsThroughQuit_arrivals, silent.executed]
  · intro returned
    exact ⟨silent.recorded.switch.trans (silent.off (left returned)),
      silent.noStart _ (by decide)⟩

/-- In every run whose quitting inputs meet no more commands in their read, quitting is final; and a
run that leaves its loop with quitting final is such a run. -/
theorem quitIsFinal_iff {directory : CString} {mode : UInt32} {process final : Process}
    {inputs : List Input} (started : start directory mode = .ok process)
    (reached : mainLoop.run process inputs = .ok final) :
    (mainLoop.Along QuitsLast process inputs → QuitIsFinal inputs final) ∧
      (final.position = .ended .returned →
        (QuitIsFinal inputs final ↔ mainLoop.Along QuitsLast process inputs)) := by
  have position := (start_spec started).1
  have forward : mainLoop.Along QuitsLast process inputs → QuitIsFinal inputs final := by
    intro along
    have silent := silent_keeps.run mainLoop (silent_start started) along reached
    obtain ⟨left, same, _⟩ := order_keeps.run mainLoop
      ⟨[], rfl, fun _ => by rw [position]; rfl⟩ reached
    apply silent.final ⟨left, same⟩
    apply returned_keeps.run mainLoop ?_ reached
    intro returned
    rw [position] at returned
    cases returned
  refine ⟨forward, fun returned => ⟨?_, forward⟩⟩
  intro last before input after middle split first
  rw [split] at reached last
  obtain ⟨other, same, second⟩ := (run_append_ok_iff mainLoop).mp reached
  rw [first] at same
  cases same
  obtain ⟨next, stepped, later⟩ := (run_cons_ok_iff mainLoop).mp second
  obtain ⟨body, move, _⟩ := step_moves stepped
  have regroup : before ++ input :: after = before ++ [input] ++ after := by simp
  rw [regroup] at last
  have silent (quitting : Quitting (before ++ [input])) :=
    silent_of_final last quitting later returned
  constructor
  · intro quits
    rw [← move.rest_of_quits quits]
    exact silent ((quitting_concat before input).mpr (.inr quits))
  · intro isQuit record member
    have quitting := (run_recorded started first).isQuit.mp isQuit
    exact silent ((quitting_concat before input).mpr (.inl quitting)) record
      (move.brought record member)

/-- One read returns a release of the key `q` and further records, and main handles all of them. -/
def quitInputs (rest : List InputRecord) : List Input :=
  [.advance, .read (released 'q' :: rest), .record (released 'q')] ++ rest.map .record ++
    [.advance, .advance]

theorem quitIsFinal_quitInputs :
    ∃ process final, start (cstring "C:") 7 = .ok process ∧
      mainLoop.run process (quitInputs [released 'x']) = .ok final ∧
      (mainLoop.Along QuitsLast process (quitInputs [released 'x']) →
        QuitIsFinal (quitInputs [released 'x']) final) ∧
      (final.position = .ended .returned → (QuitIsFinal (quitInputs [released 'x']) final ↔
        mainLoop.Along QuitsLast process (quitInputs [released 'x']))) := by
  have success : (start (cstring "C:") 7 >>= fun process =>
      mainLoop.run process (quitInputs [released 'x'])).toOption.map
        (fun _ => ()) = some () := by decide +kernel
  obtain ⟨process, final, started, reached, _⟩ := exists_ok_of_seen success
  exact ⟨process, final, started, reached, quitIsFinal_iff started reached⟩

/-- The key `2` behind the key `q` in one read leaves the loop with the system proxy on. -/
theorem quitInputs_not_final :
    ∃ process final, start (cstring "C:") 7 = .ok process ∧
      mainLoop.run process (quitInputs [released '2']) = .ok final ∧
      final.position = .ended .returned ∧
      latest Statement.switch false final.globals.trace = true ∧
      ¬ QuitIsFinal (quitInputs [released '2']) final := by
  have seen : (start (cstring "C:") 7 >>= fun process =>
      mainLoop.run process (quitInputs [released '2'])).toOption.map (fun final =>
        (final.position, latest Statement.switch false final.globals.trace)) =
          some (.ended .returned, true) := by decide +kernel
  obtain ⟨process, final, started, reached, seen⟩ := exists_ok_of_seen seen
  have returned : final.position = .ended .returned := congrArg Prod.fst seen
  have switched : latest Statement.switch false final.globals.trace = true :=
    congrArg Prod.snd seen
  refine ⟨process, final, started, reached, returned, switched, ?_⟩
  intro last
  rw [(last.exit returned).1] at switched
  cases switched

end Projs.Proxy

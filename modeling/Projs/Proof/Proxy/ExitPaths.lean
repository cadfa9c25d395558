import Projs.Proof.Proxy.MainRun

namespace Projs.Proxy
open LabelledMachine EventTrace

/-- Quitting has cleaned up: the functions were called, the program's own exits have restored the
console mode, and the system proxy is off. -/
structure CleanedUp (process : Process) : Prop where
  quit : .call .quit ∈ process.globals.trace
  unproxy : .call .unproxy ∈ process.globals.trace
  killall : .call .killall ∈ process.globals.trace
  mode : ∀ ending, process.position = .ended ending → ending ≠ .defaultHandler →
    process.globals.consoleMode = process.globals.fdwSaveOldMode
  off : latest Statement.switch false process.globals.trace = false

/-- The program's own exits restore the console mode. -/
theorem mode_keeps : mainLoop.Keeps fun _ process =>
    ∀ ending, process.position = .ended ending → ending ≠ .defaultHandler →
      process.globals.consoleMode = process.globals.fdwSaveOldMode := by
  intro _ process input next _ _ stepped ending ended own
  obtain ⟨body, move, effects⟩ := step_moves stepped
  have restored : .restoreMode ∈ body := by
    rw [ended] at move
    generalize process.position = position at move
    cases move with
    | leave => exact List.mem_cons_self
    | fail => exact List.mem_cons_of_mem _ List.mem_cons_self
    | pass _ type live => exact absurd rfl (live ending)
    | stop _ type live => exact absurd rfl own
  rw [effects.consoleMode, if_pos restored, effects.fdwSaveOldMode]

/-- Wherever a run has got to, and so wherever it ends, it has cleaned up exactly when an input made
it quit and none switched the system proxy on again. -/
theorem cleanedUp_iff {directory : CString} {mode : UInt32} {process final : Process}
    {inputs : List Input} (started : start directory mode = .ok process)
    (reached : mainLoop.run process inputs = .ok final) :
    CleanedUp final ↔ Quitting inputs ∧ latest Input.switch false inputs = false := by
  have recorded := run_recorded started reached
  have fresh : ∀ ending, process.position = .ended ending → ending ≠ .defaultHandler →
      process.globals.consoleMode = process.globals.fdwSaveOldMode := by
    intro ending ended
    rw [(start_spec started).1] at ended
    cases ended
  constructor
  · intro cleaned
    exact ⟨(recorded.calls _ (by decide)).mp cleaned.quit, recorded.switch ▸ cleaned.off⟩
  · intro condition
    obtain ⟨quitting, off⟩ := condition
    exact {
      quit := (recorded.calls _ (by decide)).mpr quitting
      unproxy := recorded.unproxy quitting
      killall := (recorded.calls _ (by decide)).mpr quitting
      mode := mode_keeps.run mainLoop fresh reached
      off := recorded.switch.trans off }

theorem cleanedUp_startInputs :
    ∃ process final, start (cstring "C:") 7 = .ok process ∧
      mainLoop.run process (startInputs 1) = .ok final ∧
      (CleanedUp final ↔
        Quitting (startInputs 1) ∧ latest Input.switch false (startInputs 1) = false) := by
  obtain ⟨process, final, started, reached⟩ := startInputs_run
  exact ⟨process, final, started, reached, cleanedUp_iff started reached⟩

/-- The break event ends the process without cleaning up, and so does a failed read. -/
theorem startInputs_not_cleanedUp :
    (∃ process final, start (cstring "C:") 7 = .ok process ∧
      mainLoop.run process (startInputs 1 ++ [.control .ctrlBreak]) = .ok final ∧
      final.position = .ended .defaultHandler ∧ ¬ CleanedUp final) ∧
    ∃ process final, start (cstring "C:") 7 = .ok process ∧
      mainLoop.run process (startInputs 1 ++ [.advance, .advance, .readFailed]) = .ok final ∧
      final.position = .ended .errorExit ∧ ¬ CleanedUp final := by
  have runs (last : List Input) (ending : Ending)
      (ended : (start (cstring "C:") 7 >>= fun process =>
        mainLoop.run process (startInputs 1 ++ last)).toOption.map
          (fun final => (final.position, decide (.call .quit ∈ final.globals.trace))) =
            some (.ended ending, false)) :
      ∃ process final, start (cstring "C:") 7 = .ok process ∧
        mainLoop.run process (startInputs 1 ++ last) = .ok final ∧
        final.position = .ended ending ∧ ¬ CleanedUp final := by
    obtain ⟨process, final, started, reached, seen⟩ := exists_ok_of_seen ended
    refine ⟨process, final, started, reached, congrArg Prod.fst seen, ?_⟩
    intro cleaned
    exact absurd cleaned.quit (of_decide_eq_false (congrArg Prod.snd seen))
  exact ⟨runs _ _ (by decide +kernel), runs _ _ (by decide +kernel)⟩

end Projs.Proxy

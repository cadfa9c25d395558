import Projs.Proof.Proxy.MainRun

namespace Projs.Proxy
open LabelledMachine

/-- The index stays within the array, and no store is outside it or on an earlier one. -/
structure TableFits (globals : Globals) : Prop where
  workerId : globals.workerId ≤ workerCount
  inside : ∀ index ∈ globals.worker, index < workerCount
  nodup : globals.worker.Nodup

/-- The table of a recorded state fits when it has at most four stores. -/
theorem Recorded.fits_iff_workerId {inputs : List Input} {process : Process}
    (recorded : Recorded inputs process) :
    TableFits process.globals ↔ process.globals.workerId ≤ workerCount := by
  constructor
  · exact TableFits.workerId
  · intro bound
    refine ⟨bound, ?_, ?_⟩
    · rw [recorded.worker]
      intro index member
      have before := List.mem_range.mp member
      omega
    · rw [recorded.worker]
      exact List.nodup_range

/-- The worker table is never overrun exactly when the key `2` is handled at most once. -/
theorem tableFits_iff {directory : CString} {mode : UInt32} {process final : Process}
    {inputs : List Input} (started : start directory mode = .ok process)
    (reached : mainLoop.run process inputs = .ok final) :
    TableFits final.globals ↔ starts inputs ≤ 1 := by
  have recorded := run_recorded started reached
  have stores := recorded.workerId
  rw [recorded.fits_iff_workerId, workerCount]
  omega

theorem tableFits_startInputs :
    ∃ process final, start (cstring "C:") 7 = .ok process ∧
      mainLoop.run process (startInputs 1) = .ok final ∧
      (TableFits final.globals ↔ starts (startInputs 1) ≤ 1) := by
  obtain ⟨process, final, started, reached⟩ := startInputs_run
  exact ⟨process, final, started, reached, tableFits_iff started reached⟩

/-- The second release of the key `2` stores four handles behind the end of the table. -/
theorem startInputs_overrun :
    ∃ process final, start (cstring "C:") 7 = .ok process ∧
      mainLoop.run process (startInputs 2) = .ok final ∧
      final.globals.worker = [0, 1, 2, 3, 4, 5, 6, 7] ∧ ¬ TableFits final.globals := by
  have stores : (start (cstring "C:") 7 >>= fun process =>
      mainLoop.run process (startInputs 2)).toOption.map (fun final => final.globals.worker) =
        some [0, 1, 2, 3, 4, 5, 6, 7] := by decide +kernel
  obtain ⟨process, final, started, reached, worker⟩ := exists_ok_of_seen stores
  refine ⟨process, final, started, reached, worker, ?_⟩
  intro fits
  have inside := fits.inside 4 (by rw [worker]; decide)
  exact absurd inside (by decide)

end Projs.Proxy

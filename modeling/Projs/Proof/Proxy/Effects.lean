import Mathlib.Data.List.Range
import Projs.Construction.Proxy.MainLoop

namespace Projs.Proxy
open LabelledMachine

/-- A thread creation names what its thread is for. -/
def Statement.created : Statement → Option CString
  | .createThread exe => some exe
  | _ => none

/-- These are the programs that a sequence of statements creates threads for. -/
def created (body : List Statement) : List CString := body.filterMap Statement.created

@[simp] theorem created_append (first second : List Statement) :
    created (first ++ second) = created first ++ created second := List.filterMap_append

/-- Executed statements have these effects, whatever the buffer holds. -/
structure Effects (before after : Globals) (body : List Statement) : Prop where
  trace : after.trace = before.trace ++ body
  isQuit : after.isQuit = (before.isQuit || decide (.setQuit ∈ body))
  workerId : after.workerId = before.workerId + (created body).length
  worker : after.worker =
    before.worker ++ List.range' before.workerId (created body).length
  threads : after.threads = before.threads ++ (created body).map fun exe => ⟨exe, none⟩
  consoleMode : after.consoleMode =
    if .restoreMode ∈ body then before.fdwSaveOldMode else before.consoleMode
  fdwSaveOldMode : after.fdwSaveOldMode = before.fdwSaveOldMode
  pwd : after.pwd = before.pwd

theorem Effects.refl (globals : Globals) : Effects globals globals [] := by
  constructor <;> simp [created]

/-- The effects of two sequences of statements add up. -/
theorem Effects.trans {before middle after : Globals} {first second : List Statement}
    (left : Effects before middle first) (right : Effects middle after second) :
    Effects before after (first ++ second) := by
  constructor
  · rw [right.trace, left.trace, List.append_assoc]
  · rw [right.isQuit, left.isQuit, Bool.or_assoc]
    simp only [List.mem_append, Bool.decide_or]
  · rw [right.workerId, left.workerId, created_append, List.length_append, Nat.add_assoc]
  · rw [right.worker, left.worker, left.workerId, created_append, List.length_append,
      List.append_assoc, List.range'_append_1]
  · rw [right.threads, left.threads, created_append, List.map_append, List.append_assoc]
  · rw [right.consoleMode, left.consoleMode, left.fdwSaveOldMode]
    simp only [List.mem_append]
    split <;> split <;> simp_all
  · rw [right.fdwSaveOldMode, left.fdwSaveOldMode]
  · rw [right.pwd, left.pwd]

/-- A statement either leaves the globals but `prog` and `ran` alone, or is one of three others. -/
theorem execute_cases {before next : Globals} {statement : Statement}
    (executed : before.execute statement = .ok next) :
    (statement.created = none ∧ statement ≠ .setQuit ∧ statement ≠ .restoreMode ∧
      ∃ prog ran, next = { before with prog := prog, ran := ran }) ∨
    (∃ exe, statement = .createThread exe ∧ next = { before with
      worker := before.worker ++ [before.workerId]
      workerId := before.workerId + 1
      threads := before.threads ++ [⟨exe, none⟩] }) ∨
    (statement = .setQuit ∧ next = { before with isQuit := true }) ∨
    statement = .restoreMode ∧ next = { before with consoleMode := before.fdwSaveOldMode } := by
  cases statement with
  | createThread exe =>
      cases executed
      exact .inr (.inl ⟨exe, rfl, rfl⟩)
  | setQuit =>
      cases executed
      exact .inr (.inr (.inl ⟨rfl, rfl⟩))
  | restoreMode =>
      cases executed
      exact .inr (.inr (.inr ⟨rfl, rfl⟩))
  | strcatPwd =>
      obtain ⟨prog, _, same⟩ := map_eq_ok_iff.mp executed
      exact .inl ⟨rfl, nofun, nofun, prog, before.ran, same.symm⟩
  | strcat text =>
      obtain ⟨prog, _, same⟩ := map_eq_ok_iff.mp executed
      exact .inl ⟨rfl, nofun, nofun, prog, before.ran, same.symm⟩
  | strcpy text =>
      obtain ⟨prog, _, same⟩ := map_eq_ok_iff.mp executed
      exact .inl ⟨rfl, nofun, nofun, prog, before.ran, same.symm⟩
  | _ =>
      cases executed
      exact .inl ⟨rfl, nofun, nofun, _, _, rfl⟩

/-- One statement has its own effects. -/
theorem step_effects {before after : Globals} {statement : Statement}
    (stepped : statements.step before statement = .ok after) :
    Effects before after [statement] := by
  obtain ⟨next, executed, same⟩ := map_eq_ok_iff.mp stepped
  subst same
  rcases execute_cases executed with
    ⟨plain, noQuit, noMode, prog, ran, rfl⟩ | ⟨exe, rfl, rfl⟩ | ⟨rfl, rfl⟩ | ⟨rfl, rfl⟩
  · constructor <;> simp [Globals.logged, created, plain, noQuit.symm, noMode.symm]
  · constructor <;> simp [Globals.logged, created, Statement.created]
  · constructor <;> simp [Globals.logged, created, Statement.created]
  · constructor <;> simp [Globals.logged, created, Statement.created]

/-- Every completed sequence of statements has the effects that its statements name. -/
theorem run_effects {before after : Globals} {body : List Statement}
    (reached : statements.run before body = .ok after) : Effects before after body := by
  induction body generalizing before with
  | nil =>
      cases reached
      exact Effects.refl _
  | cons statement rest ih =>
      obtain ⟨next, stepped, later⟩ := (run_cons_ok_iff statements).mp reached
      exact (step_effects stepped).trans (ih later)

end Projs.Proxy

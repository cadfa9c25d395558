import Mathlib.Data.List.Forall2
import Mathlib.Logic.Function.Basic
import Projs.Construction.Proxy.KillAll

namespace Projs.Proxy
open LabelledMachine EventTrace HandleTrace

/-- These calls pass a field of `pe32`. -/
def Call.readsEntry : Call → Bool
  | .openProcess .. | .wcsicmp .. => true
  | _ => false

/-- These calls fill `pe32` or fail to. -/
def Call.fills : Call → Option Bool
  | .process32First _ result | .process32Next _ result => some result.isSome
  | _ => none

/-- An entry is reported by the call that fills it. -/
def Call.reported : Call → Option ProcessEntry32
  | .process32First _ result | .process32Next _ result => result
  | _ => none

/-- A handle stands for the process whose id the last `OpenProcess` that returned it was given. -/
def Call.opens (opened : Handle → Option UInt32) : Call → Handle → Option UInt32
  | .openProcess _ _ processId (some handle) => Function.update opened handle (some processId)
  | _ => opened

/-- A call of `TerminateProcess` is the attempt to end the process that its handle stands for; the
null handle stands for none. -/
def Call.attempts (opened : Handle → Option UInt32) : Call → List (Option UInt32)
  | .terminateProcess handle _ => [handle.bind opened]
  | _ => []

/-- These are the processes that the calls attempt to end, in order. -/
def attempted (opened : Handle → Option UInt32) : List Call → List (Option UInt32)
  | [] => []
  | call :: rest => call.attempts opened ++ attempted (call.opens opened) rest

/-- The file name is one of the two tunnel programs, in any case. -/
def ProcessEntry32.NamesTunnel (entry : ProcessEntry32) : Prop :=
  entry.szExeFile.map foldCase = v2ray.map foldCase ∨
    entry.szExeFile.map foldCase = kcptun.map foldCase

instance (entry : ProcessEntry32) : Decidable entry.NamesTunnel :=
  inferInstanceAs (Decidable (_ ∨ _))

/-- The handles are disciplined, only filled entries are read, and the processes of exactly the
reported entries of the tunnel programs are ended, once each. -/
structure UsesHandlesWell (calls : List Call) : Prop where
  disciplined : handles.Disciplined calls
  filled : OnlyWhile Call.fills (fun call => call.readsEntry = true) false calls
  ended : attempted (fun _ => none) calls =
    ((calls.filterMap Call.reported).filter fun entry => entry.NamesTunnel).map
      fun entry => some entry.th32ProcessID

/-- An attempt is on the process of an entry, or its handle is null. -/
def AttemptOn (attempt : Option UInt32) (entry : ProcessEntry32) : Prop :=
  ∀ processId ∈ attempt, processId = entry.th32ProcessID

/-- The comparison finds no difference exactly between strings that differ in case only. -/
theorem wcsicmp_eq_zero_iff (first second : WString) :
    wcsicmp first second = 0 ↔ first.map foldCase = second.map foldCase := by
  induction first generalizing second with
  | nil => cases second <;> simp [wcsicmp]
  | cons head tail ih =>
      cases second with
      | nil => simp [wcsicmp]
      | cons other rest =>
          simp only [wcsicmp, List.map_cons, List.cons.injEq]
          by_cases same : foldCase head = foldCase other
          · rw [if_pos same, ih]
            simp [same]
          · rw [if_neg same]
            split <;> simp [same]

theorem isTunnel_iff (entry : ProcessEntry32) : isTunnel entry = true ↔ entry.NamesTunnel := by
  rw [isTunnel, Bool.or_eq_true, decide_eq_true_eq, decide_eq_true_eq, wcsicmp_eq_zero_iff,
    wcsicmp_eq_zero_iff]
  rfl

theorem gains_askPriority (answers : Answers) (obtained : Nat) (entry : ProcessEntry32) :
    handles.gains (askPriority answers obtained entry) =
      if answers.allAccess then [obtained] else [] := by
  cases found : answers.allAccess <;> simp [askPriority, found, Protocol.gains, handles]

theorem losses_askPriority (answers : Answers) (obtained : Nat) (entry : ProcessEntry32) :
    handles.losses (askPriority answers obtained entry) =
      if answers.allAccess then [obtained] else [] := by
  cases found : answers.allAccess <;> simp [askPriority, found, Protocol.losses, handles]

theorem gains_compareNames (entry : ProcessEntry32) : handles.gains (compareNames entry) = [] := by
  unfold compareNames
  split <;> rfl

theorem losses_compareNames (entry : ProcessEntry32) :
    handles.losses (compareNames entry) = [] := by
  unfold compareNames
  split <;> rfl

theorem gains_endProcess (answers : Answers) (obtained : Nat) (entry : ProcessEntry32) :
    handles.gains (endProcess answers obtained entry) =
      if answers.terminate then [obtained] else [] := by
  cases found : answers.terminate <;> simp [endProcess, found, Protocol.gains, handles]

theorem losses_endProcess (answers : Answers) (obtained : Nat) (entry : ProcessEntry32) :
    handles.losses (endProcess answers obtained entry) = [] := rfl

/-- A round obtains a handle for the priority class and one for the process that it ends. -/
theorem gains_visit (answers : Answers) (obtained : Nat) (entry : ProcessEntry32) :
    handles.gains (visit answers obtained entry) =
      (if answers.allAccess then [obtained] else []) ++
        if isTunnel entry && answers.terminate then
          [obtained + if answers.allAccess then 1 else 0] else [] := by
  simp only [visit, gains_append, gains_askPriority, gains_compareNames, List.nil_append]
  cases isTunnel entry
  · rfl
  · rw [if_pos rfl, gains_endProcess, Bool.true_and]
    cases answers.allAccess <;> rfl

/-- A round closes the first of these handles only. -/
theorem losses_visit (answers : Answers) (obtained : Nat) (entry : ProcessEntry32) :
    handles.losses (visit answers obtained entry) =
      if answers.allAccess then [obtained] else [] := by
  simp only [visit, losses_append, losses_askPriority, losses_compareNames, List.nil_append]
  cases isTunnel entry
  · rw [if_neg Bool.false_ne_true, losses_nil, List.append_nil]
  · rw [if_pos rfl, losses_endProcess, List.append_nil]

/-- The handles of a round are numbered on from those before it. -/
theorem gains_visit_range (answers : Answers) (obtained : Nat) (entry : ProcessEntry32) :
    handles.gains (visit answers obtained entry) =
      List.range' obtained (handles.gains (visit answers obtained entry)).length := by
  rw [gains_visit]
  cases answers.allAccess <;> cases isTunnel entry && answers.terminate <;> rfl

/-- A round closes what it obtains, except for the handle of a process that it ends. -/
theorem visit_balance (answers : Answers) (obtained : Nat) (entry : ProcessEntry32) :
    (handles.gains (visit answers obtained entry)).length =
      (handles.losses (visit answers obtained entry)).length +
        if isTunnel entry && answers.terminate then 1 else 0 := by
  rw [gains_visit, losses_visit]
  cases answers.allAccess <;> cases isTunnel entry && answers.terminate <;> rfl

/-- A round that ends a process passes on a null handle or leaves a handle open. -/
theorem visit_misuses (answers : Answers) (obtained : Nat) {entry : ProcessEntry32}
    (tunnel : isTunnel entry = true) :
    (∃ call ∈ visit answers obtained entry, handles.received call = some none) ∨
      (handles.losses (visit answers obtained entry)).length <
        (handles.gains (visit answers obtained entry)).length := by
  have balance := visit_balance answers obtained entry
  cases opened : answers.terminate with
  | true =>
      rw [tunnel, opened, Bool.true_and, if_pos rfl] at balance
      exact .inr (by omega)
  | false =>
      left
      refine ⟨.terminateProcess none 0, ?_, rfl⟩
      simp [visit, tunnel, endProcess, opened]

/-- A round that ends no process leaves the custodian with the snapshot alone. -/
theorem custodian_visit {answers : Answers} {obtained : Nat} {entry : ProcessEntry32}
    (later : 0 < obtained) (other : isTunnel entry = false) :
    handles.custodian.run [0] (visit answers obtained entry) = .ok [0] := by
  have asked : handles.custodian.run [0] (askPriority answers obtained entry) = .ok [0] := by
    cases found : answers.allAccess
    · simp [askPriority, found, run_cons, Protocol.custodian, handles]
    · simp [askPriority, found, run_cons, Protocol.custodian, handles, Nat.ne_of_gt later]
  have compared : handles.custodian.run [0] (compareNames entry) = .ok [0] := by
    unfold compareNames
    split <;> simp [run_cons, Protocol.custodian, handles]
  simp only [visit, other, Bool.false_eq_true, if_false, List.append_nil]
  rw [run_append_of_ok _ _ asked, compared]

/-- No call of a round fills the entry. -/
theorem visit_unset (answers : Answers) (obtained : Nat) (entry : ProcessEntry32) :
    ∀ call ∈ visit answers obtained entry, call.fills = none ∧ call.reported = none := by
  have asked : ∀ call ∈ askPriority answers obtained entry,
      call.fills = none ∧ call.reported = none := by
    cases found : answers.allAccess <;> simp [askPriority, found, Call.fills, Call.reported]
  have compared : ∀ call ∈ compareNames entry, call.fills = none ∧ call.reported = none := by
    unfold compareNames
    split <;> simp [Call.fills, Call.reported]
  have ended (number : Nat) : ∀ call ∈ endProcess answers number entry,
      call.fills = none ∧ call.reported = none := by
    simp [endProcess, Call.fills, Call.reported]
  intro call member
  rcases List.mem_append.mp member with first | second
  · exact asked call first
  rcases List.mem_append.mp second with names | last
  · exact compared call names
  split at last
  · exact ended _ call last
  · exact absurd last List.not_mem_nil

/-- Behind the first calls, a handle stands for the process that they opened last. -/
theorem attempted_append (opened : Handle → Option UInt32) (first second : List Call) :
    attempted opened (first ++ second) =
      attempted opened first ++ attempted (first.foldl Call.opens opened) second := by
  induction first generalizing opened with
  | nil => rfl
  | cons call rest ih =>
      simp only [List.cons_append, attempted, ih, List.append_assoc, List.foldl_cons]

theorem attempted_askPriority (opened : Handle → Option UInt32) (answers : Answers)
    (obtained : Nat) (entry : ProcessEntry32) :
    attempted opened (askPriority answers obtained entry) = [] := by
  cases found : answers.allAccess <;> simp [askPriority, found, attempted, Call.attempts]

theorem attempted_compareNames (opened : Handle → Option UInt32) (entry : ProcessEntry32) :
    attempted opened (compareNames entry) = [] := by
  unfold compareNames
  split <;> rfl

/-- The handle that is passed to `TerminateProcess` is that of the entry's process, or null. -/
theorem attempted_endProcess (opened : Handle → Option UInt32) (answers : Answers)
    (obtained : Nat) (entry : ProcessEntry32) :
    attempted opened (endProcess answers obtained entry) =
      [if answers.terminate then some entry.th32ProcessID else none] := by
  cases found : answers.terminate <;>
    simp [endProcess, found, attempted, Call.attempts, Call.opens]

/-- A round attempts to end a process, that of its entry, exactly when it is a tunnel program. -/
theorem visit_attempted (opened : Handle → Option UInt32) (answers : Answers) (obtained : Nat)
    (entry : ProcessEntry32) :
    List.Forall₂ AttemptOn (attempted opened (visit answers obtained entry))
      ([entry].filter fun entry => entry.NamesTunnel) := by
  simp only [visit, attempted_append, attempted_askPriority, attempted_compareNames,
    List.nil_append, isTunnel_iff]
  by_cases tunnel : entry.NamesTunnel
  · have kept : [entry].filter (fun entry => entry.NamesTunnel) = [entry] := by simp [tunnel]
    rw [if_pos tunnel, kept, attempted_endProcess]
    refine .cons ?_ .nil
    intro processId attempt
    split at attempt
    · exact (Option.some.inj attempt).symm
    · cases attempt
  · have dropped : [entry].filter (fun entry => entry.NamesTunnel) = [] := by simp [tunnel]
    rw [if_neg tunnel, dropped]
    exact .nil

/-- A tour visits entries that are all reported. -/
def tour (system : System) (hProcessSnap : Handle) (round obtained : Nat) (pe32 : ProcessEntry32) :
    List ProcessEntry32 → List Call
  | [] =>
      visit (system.answers round) obtained pe32 ++
        [.process32Next hProcessSnap none, .closeHandle hProcessSnap]
  | next :: rest =>
      let visited := visit (system.answers round) obtained pe32
      visited ++ .process32Next hProcessSnap (some next) :: tour system hProcessSnap (round + 1)
        (obtained + (handles.gains visited).length) next rest

/-- A walk is the tour of the entries that the system reports to it. -/
theorem walk_eq_tour (system : System) (hProcessSnap : Handle) (round obtained : Nat)
    (pe32 : ProcessEntry32) (remaining : List ProcessEntry32) :
    walk system hProcessSnap round obtained pe32 remaining =
      tour system hProcessSnap round obtained pe32 (system.reportedBehind round remaining) := by
  induction remaining generalizing round obtained pe32 with
  | nil => simp only [walk, System.reportedBehind, tour]
  | cons next rest ih =>
      simp only [walk, System.reportedBehind]
      split
      · simp only [tour, ih]
      · simp only [tour]

section Tour
variable (system : System) (round obtained : Nat) (entry : ProcessEntry32)
  (others : List ProcessEntry32)

theorem gains_ending : handles.gains [.process32Next 0 none, .closeHandle 0] = [] := rfl

theorem losses_ending : handles.losses [.process32Next 0 none, .closeHandle 0] = [0] := rfl

theorem gains_next (next : ProcessEntry32) (calls : List Call) :
    handles.gains (.process32Next 0 (some next) :: calls) = handles.gains calls := rfl

theorem losses_next (next : ProcessEntry32) (calls : List Call) :
    handles.losses (.process32Next 0 (some next) :: calls) = handles.losses calls := rfl

/-- The handles of a tour are numbered on from those before it. -/
theorem gains_tour :
    handles.gains (tour system 0 round obtained entry others) =
      List.range' obtained (handles.gains (tour system 0 round obtained entry others)).length := by
  induction others generalizing round obtained entry with
  | nil =>
      simp only [tour, gains_append, gains_ending, List.append_nil]
      exact gains_visit_range _ _ _
  | cons next rest ih =>
      simp only [tour, gains_append, gains_next]
      rw [List.length_append, List.range'_append_1.symm, ← gains_visit_range, ← ih]

/-- The last round of a tour is followed by the closing of the snapshot. -/
theorem lengths_tour_nil :
    (handles.gains (tour system 0 round obtained entry [])).length =
        (handles.gains (visit (system.answers round) obtained entry)).length ∧
      (handles.losses (tour system 0 round obtained entry [])).length =
        (handles.losses (visit (system.answers round) obtained entry)).length + 1 := by
  simp only [tour, gains_append, losses_append, gains_ending, losses_ending, List.append_nil,
    List.length_append, List.length_singleton, and_self]

/-- An earlier round of a tour adds its own handles to those of the later ones. -/
theorem lengths_tour_cons (next : ProcessEntry32) (rest : List ProcessEntry32) :
    ∃ later, (handles.gains (tour system 0 round obtained entry (next :: rest))).length =
        (handles.gains (visit (system.answers round) obtained entry)).length +
          (handles.gains (tour system 0 (round + 1) later next rest)).length ∧
      (handles.losses (tour system 0 round obtained entry (next :: rest))).length =
        (handles.losses (visit (system.answers round) obtained entry)).length +
          (handles.losses (tour system 0 (round + 1) later next rest)).length ∧
      ∀ call ∈ tour system 0 (round + 1) later next rest,
        call ∈ tour system 0 round obtained entry (next :: rest) := by
  refine ⟨obtained + (handles.gains (visit (system.answers round) obtained entry)).length, ?_, ?_,
    ?_⟩
  · simp only [tour, gains_append, gains_next, List.length_append]
  · simp only [tour, losses_append, losses_next, List.length_append]
  · exact fun call found => List.mem_append_right _ (List.mem_cons_of_mem _ found)

theorem mem_tour_of_mem_visit {call : Call}
    (found : call ∈ visit (system.answers round) obtained entry) :
    call ∈ tour system 0 round obtained entry others := by
  cases others <;> exact List.mem_append_left _ found

/-- A tour closes its snapshot and at most the handles that it obtains. -/
theorem losses_tour_le :
    (handles.losses (tour system 0 round obtained entry others)).length ≤
      (handles.gains (tour system 0 round obtained entry others)).length + 1 := by
  have balance := visit_balance (system.answers round) obtained entry
  induction others generalizing round obtained entry with
  | nil =>
      obtain ⟨gains, losses⟩ := lengths_tour_nil system round obtained entry
      omega
  | cons next rest ih =>
      obtain ⟨later, gains, losses, _⟩ := lengths_tour_cons system round obtained entry next rest
      have behind := ih (round + 1) later next (visit_balance _ _ _)
      omega

/-- A tour that meets a tunnel program passes on a null handle or leaves a handle open. -/
theorem tour_misuses (met : ∃ tunnel ∈ entry :: others, isTunnel tunnel = true) :
    (∃ call ∈ tour system 0 round obtained entry others, handles.received call = some none) ∨
      (handles.losses (tour system 0 round obtained entry others)).length ≤
        (handles.gains (tour system 0 round obtained entry others)).length := by
  induction others generalizing round obtained entry with
  | nil =>
      obtain ⟨tunnel, member, named⟩ := met
      obtain ⟨gains, losses⟩ := lengths_tour_nil system round obtained entry
      rw [List.mem_singleton.mp member] at named
      rcases visit_misuses (system.answers round) obtained named with ⟨call, found, null⟩ | leak
      · exact .inl ⟨call, mem_tour_of_mem_visit _ _ _ _ _ found, null⟩
      · exact .inr (by omega)
  | cons next rest ih =>
      have balance := visit_balance (system.answers round) obtained entry
      obtain ⟨later, gains, losses, inside⟩ :=
        lengths_tour_cons system round obtained entry next rest
      have most := losses_tour_le system (round + 1) later next rest
      obtain ⟨tunnel, member, named⟩ := met
      rcases List.mem_cons.mp member with same | behind
      · rw [same] at named
        rcases visit_misuses (system.answers round) obtained named with ⟨call, found, null⟩ | leak
        · exact .inl ⟨call, mem_tour_of_mem_visit _ _ _ _ _ found, null⟩
        · exact .inr (by omega)
      · rcases ih (round + 1) later next ⟨tunnel, behind, named⟩ with ⟨call, found, null⟩ | leak
        · exact .inl ⟨call, inside call found, null⟩
        · exact .inr (by omega)

/-- A tour that meets no tunnel program leaves the custodian without an open handle. -/
theorem custodian_tour (later : 0 < obtained)
    (others_only : ∀ other ∈ entry :: others, isTunnel other = false) :
    handles.custodian.run [0] (tour system 0 round obtained entry others) = .ok [] := by
  induction others generalizing round obtained entry with
  | nil =>
      rw [tour, run_append_of_ok _ _
        (custodian_visit later (others_only entry List.mem_cons_self))]
      rfl
  | cons next rest ih =>
      have advanced : handles.custodian.step [0] (.process32Next 0 (some next)) = .ok [0] := rfl
      simp only [tour]
      rw [run_append_of_ok _ _ (custodian_visit later (others_only entry List.mem_cons_self)),
        run_cons_of_ok _ _ advanced]
      exact ih _ _ _ (by omega) fun other member =>
        others_only other (List.mem_cons_of_mem _ member)

/-- A tour reads an entry only when a call has filled it. -/
theorem filled_tour :
    OnlyWhile Call.fills (fun call => call.readsEntry = true) true
      (tour system 0 round obtained entry others) := by
  have unset (answers : Answers) (number : Nat) (pe32 : ProcessEntry32) :
      ∀ call ∈ visit answers number pe32, call.fills = none := fun call member =>
    (visit_unset answers number pe32 call member).1
  induction others generalizing round obtained entry with
  | nil =>
      rw [tour, onlyWhile_append, latest_of_forall (unset _ _ _)]
      refine ⟨onlyWhile_of_forall (unset _ _ _), ?_⟩
      simp [onlyWhile_cons, onlyWhile_nil, Call.readsEntry]
  | cons next rest ih =>
      simp only [tour]
      rw [onlyWhile_append, latest_of_forall (unset _ _ _), onlyWhile_cons]
      exact ⟨onlyWhile_of_forall (unset _ _ _), nofun, ih _ _ _⟩

/-- A tour reports all entries but its first one. -/
theorem reported_tour :
    (tour system 0 round obtained entry others).filterMap Call.reported = others := by
  have silent (answers : Answers) (number : Nat) (pe32 : ProcessEntry32) :
      (visit answers number pe32).filterMap Call.reported = [] :=
    List.filterMap_eq_nil_iff.mpr fun call member =>
      (visit_unset answers number pe32 call member).2
  induction others generalizing round obtained entry with
  | nil =>
      simp [tour, silent, Call.reported]
  | cons next rest ih =>
      simp [tour, silent, Call.reported, ih]

/-- A tour attempts to end a process for each tunnel program that it visits, in order. -/
theorem attempted_tour (opened : Handle → Option UInt32) :
    List.Forall₂ AttemptOn (attempted opened (tour system 0 round obtained entry others))
      ((entry :: others).filter fun entry => entry.NamesTunnel) := by
  induction others generalizing opened round obtained entry with
  | nil =>
      have ending (found : Handle → Option UInt32) :
          attempted found [.process32Next 0 none, .closeHandle 0] = [] := rfl
      rw [tour, attempted_append, ending, List.append_nil]
      exact visit_attempted _ _ _ _
  | cons next rest ih =>
      have split : entry :: next :: rest = [entry] ++ next :: rest := rfl
      have fill (found : Handle → Option UInt32) (calls : List Call) :
          attempted found (.process32Next 0 (some next) :: calls) = attempted found calls := rfl
      simp only [tour]
      rw [split, List.filter_append, attempted_append, fill]
      exact List.rel_append (visit_attempted _ _ _ _) (ih _ _ _ _)

end Tour

/-- Behind a first entry, the calls are the tour of the reported entries. -/
theorem killall_of_first {system : System} {entry : ProcessEntry32} {others : List ProcessEntry32}
    (reported : system.reported = entry :: others) :
    killall system = .createToolhelp32Snapshot (some 0) :: .process32First 0 (some entry) ::
      tour system 0 0 1 entry others := by
  unfold System.reported at reported
  unfold killall
  split at reported
  · next snapshot =>
      rw [if_pos snapshot]
      cases first : system.process32First with
      | none =>
          rw [first] at reported
          cases reported
      | some found =>
          rw [first] at reported
          cases reported
          simp only [walk_eq_tour]
  · cases reported

/-- The snapshot is the first handle that the calls obtain. -/
theorem gains_killall {system : System} {entry : ProcessEntry32} {others : List ProcessEntry32}
    (reported : system.reported = entry :: others) :
    handles.gains (killall system) = 0 :: handles.gains (tour system 0 0 1 entry others) := by
  rw [killall_of_first reported]
  rfl

/-- The handles that the calls obtain are all different. -/
theorem gains_killall_nodup {system : System} {entry : ProcessEntry32}
    {others : List ProcessEntry32} (reported : system.reported = entry :: others) :
    (handles.gains (killall system)).Nodup := by
  have range (count : Nat) : 0 :: List.range' 1 count = List.range' 0 (count + 1) := rfl
  rw [gains_killall reported, gains_tour, range]
  exact List.nodup_range'

/-- When an entry is reported, the calls report it and the entries behind it. -/
theorem reported_killall {system : System} {entry : ProcessEntry32} {others : List ProcessEntry32}
    (reported : system.reported = entry :: others) :
    (killall system).filterMap Call.reported = entry :: others := by
  have first (calls : List Call) : (.createToolhelp32Snapshot (some 0) ::
      .process32First 0 (some entry) :: calls).filterMap Call.reported =
        entry :: calls.filterMap Call.reported := rfl
  rw [killall_of_first reported, first, reported_tour]

/-- When an entry is reported, the calls attempt to end a process for each reported tunnel program,
in order. -/
theorem ended_killall {system : System} {entry : ProcessEntry32} {others : List ProcessEntry32}
    (reported : system.reported = entry :: others) :
    List.Forall₂ AttemptOn (attempted (fun _ => none) (killall system))
      (((killall system).filterMap Call.reported).filter fun entry => entry.NamesTunnel) := by
  have first (calls : List Call) : attempted (fun _ => none) (.createToolhelp32Snapshot (some 0) ::
      .process32First 0 (some entry) :: calls) = attempted (fun _ => none) calls := rfl
  rw [reported_killall reported, killall_of_first reported, first]
  exact attempted_tour _ _ _ _ _ _

/-- Without a snapshot, nothing is left to be misused. -/
theorem usesHandlesWell_of_no_snapshot {system : System} (snapshot : system.snapshot = false) :
    UsesHandlesWell (killall system) := by
  have calls : killall system = [.createToolhelp32Snapshot none,
      .printError (wide "CreateToolhelp32Snapshot (of modules)")] := by
    rw [killall, snapshot, if_neg Bool.false_ne_true]
  rw [calls]
  refine ⟨disciplined_of_custodian _ List.nodup_nil rfl, ?_, rfl⟩
  simp [onlyWhile_cons, onlyWhile_nil, Call.readsEntry]

/-- Behind a failure of `Process32First`, the first round reads an entry that nothing has filled. -/
theorem not_usesHandlesWell_of_no_first {system : System} (snapshot : system.snapshot = true)
    (first : system.process32First = none) : ¬ UsesHandlesWell (killall system) := by
  intro well
  have opened : ∃ result rest, walk system 0 0 1 system.unfilled system.entries =
      .openProcess processAllAccess false system.unfilled.th32ProcessID result :: rest := by
    rw [walk_eq_tour]
    cases system.reportedBehind 0 system.entries <;> exact ⟨_, _, rfl⟩
  obtain ⟨result, rest, opened⟩ := opened
  have calls : killall system = [.createToolhelp32Snapshot (some 0), .process32First 0 none,
      .printError (wide "Process32First"), .closeHandle 0] ++
        .openProcess processAllAccess false system.unfilled.th32ProcessID result :: rest := by
    rw [killall, snapshot, if_pos rfl, first, opened]
    rfl
  exact absurd (well.filled _ _ _ calls rfl) (by decide)

/-- When entries are reported and none of them is a tunnel program, everything is in order. -/
theorem usesHandlesWell_of_others {system : System} {entry : ProcessEntry32}
    {others : List ProcessEntry32} (reported : system.reported = entry :: others)
    (none_named : ∀ other ∈ entry :: others, ¬ other.NamesTunnel) :
    UsesHandlesWell (killall system) := by
  constructor
  · apply disciplined_of_custodian _ (gains_killall_nodup reported)
    have taken : handles.custodian.step [] (.createToolhelp32Snapshot (some 0)) = .ok [0] := rfl
    have filled : handles.custodian.step [0] (.process32First 0 (some entry)) = .ok [0] := rfl
    rw [killall_of_first reported, run_cons_of_ok _ _ taken, run_cons_of_ok _ _ filled]
    apply custodian_tour _ _ _ _ _ Nat.one_pos
    intro other member
    exact Bool.eq_false_iff.mpr fun named => none_named other member ((isTunnel_iff other).mp named)
  · rw [killall_of_first reported, onlyWhile_cons, onlyWhile_cons]
    exact ⟨nofun, nofun, filled_tour _ _ _ _ _⟩
  · have ended := ended_killall reported
    have none_ended : ((killall system).filterMap Call.reported).filter
        (fun entry => entry.NamesTunnel) = [] := by
      rw [List.filter_eq_nil_iff, reported_killall reported]
      intro other member
      simpa using none_named other member
    rw [none_ended] at ended ⊢
    exact List.forall₂_nil_right_iff.mp ended

/-- A reported tunnel program is ended through a null handle or a handle that stays open. -/
theorem none_named_of_usesHandlesWell {system : System} {entry : ProcessEntry32}
    {others : List ProcessEntry32} (reported : system.reported = entry :: others)
    (well : UsesHandlesWell (killall system)) :
    ∀ other ∈ entry :: others, ¬ other.NamesTunnel := by
  intro other member named
  have balance := well.disciplined.length_le _ (gains_killall_nodup reported)
  have losses : handles.losses (killall system) =
      handles.losses (tour system 0 0 1 entry others) := by
    rw [killall_of_first reported]
    rfl
  rcases tour_misuses system 0 1 entry others ⟨other, member, (isTunnel_iff other).mpr named⟩ with
    ⟨call, found, null⟩ | leak
  · have called : call ∈ killall system := by
      rw [killall_of_first reported]
      exact List.mem_cons_of_mem _ (List.mem_cons_of_mem _ found)
    exact well.disciplined.received_ne _ called null
  · rw [gains_killall reported, losses, List.length_cons] at balance
    omega

/-- The snapshot is not taken, or an entry is reported and no reported entry is a tunnel program. -/
def System.MeetsNoTunnel (system : System) : Prop :=
  system.snapshot = false ∨
    system.process32First.isSome = true ∧ ∀ entry ∈ system.reported, ¬ entry.NamesTunnel

/-- The calls use their handles well exactly when they meet no tunnel program. -/
theorem usesHandlesWell_iff (system : System) :
    UsesHandlesWell (killall system) ↔ system.MeetsNoTunnel := by
  cases snapshot : system.snapshot with
  | false => exact ⟨fun _ => .inl snapshot, fun _ => usesHandlesWell_of_no_snapshot snapshot⟩
  | true =>
      cases first : system.process32First with
      | none =>
          have misused := not_usesHandlesWell_of_no_first snapshot first
          simp [misused, System.MeetsNoTunnel, snapshot, first]
      | some entry =>
          have reported : system.reported =
              entry :: system.reportedBehind 0 system.entries.tail := by
            rw [System.reported, snapshot, if_pos rfl, first]
          simp only [System.MeetsNoTunnel, snapshot, first, reported, Option.isSome_some, true_and,
            Bool.true_eq_false, false_or]
          exact ⟨none_named_of_usesHandlesWell reported, usesHandlesWell_of_others reported⟩

/-- Every call succeeds for one entry with this name. -/
def obedientSystem (name : WString) : System where
  snapshot := true
  entries := [⟨4, name⟩]
  first := true
  next := fun _ => true
  answers := fun _ => ⟨true, 0x20, true⟩
  unfilled := ⟨0, []⟩

/-- The handle of a tunnel program that was ended stays open. -/
theorem obedientSystem_not_well :
    (killall (obedientSystem (wide "V2Ray.exe"))).contains
        (.openProcess synchronizeTerminate true 4 (some 2)) = true ∧
      (killall (obedientSystem (wide "V2Ray.exe"))).contains (.closeHandle 2) = false ∧
      ¬ UsesHandlesWell (killall (obedientSystem (wide "V2Ray.exe"))) := by
  refine ⟨by decide, by decide, ?_⟩
  intro well
  have closed := well.disciplined.closed 2 (by decide)
  exact absurd closed (by decide)

end Projs.Proxy

import VidbyteSdk.Agents.Multi.Recovery

/-!
# Attempts

How one attempt passes through the ledger: an accepted dispatch opens it on an idle ledger, and while
it is open both closing calls are accepted and leave the ledger idle.
-/

namespace VidbyteSdk.Agents.Multi

open VidbyteSdk.Lib

variable {V : Type}

namespace TaskLedger

open Prog

variable {ledger : TaskLedger V} {taskId owner : String}

structure OpenAttempt (ledger : TaskLedger V) (taskId owner : String) : Prop where
  found : ∃ record, findTask ledger.tasks taskId = some record ∧ record.status = .inProgress ∧
    record.owner = some owner
  only : ∀ record ∈ ledger.tasks, record.status = .inProgress → record.taskId = taskId

theorem startTask_opens (hidle : ledger.Idle) (dispatch : AgentDispatch) :
    wp (fun _ => True) (startTask dispatch)
      (fun _ ledger' => OpenAttempt ledger' dispatch.taskId dispatch.owner)
      (fun _ => (· = ledger)) ledger := by
  simp only [startTask, setTask, commitEvent, wp_bind, wp_get, wp_ofExcept, wp_modify, true_and]
  refine ⟨fun record hrecord => ⟨fun _ _ => ?_, fun _ _ => trivial⟩, fun _ _ => trivial⟩
  have hid : record.taskId = dispatch.taskId := (findTask_some (task_eq_ok hrecord)).2
  constructor
  · refine ⟨{ record with
      owner := some dispatch.owner
      status := .inProgress
      attempts := dispatch.attempt }, ?_, rfl, rfl⟩
    show findTask (upsert _ _ _) _ = _
    rw [findTask_upsert, if_pos hid]
  · intro other hother hstatus
    rcases mem_upsert.mp hother with rfl | ⟨hother, -⟩
    · exact hid
    · exact absurd hstatus (hidle other hother)

theorem OpenAttempt.idle {record : TaskRecord V} (h : OpenAttempt ledger taskId owner)
    (hid : record.taskId = taskId) (hclosed : record.status ≠ .inProgress) :
    ∀ other ∈ upsert (·.taskId) record ledger.tasks, other.status ≠ .inProgress := by
  intro other hother hstatus
  rcases mem_upsert.mp hother with rfl | ⟨hother, hne⟩
  · exact hclosed hstatus
  · exact hne ((h.only other hother hstatus).trans hid.symm)

theorem OpenAttempt.task (h : OpenAttempt ledger taskId owner) :
    ∃ record, ledger.task taskId = .ok record ∧ record.taskId = taskId ∧
      requireInProgressOwner record owner = .ok () := by
  obtain ⟨record, hfind, hstatus, howner⟩ := h.found
  refine ⟨record, ?_, (findTask_some hfind).2, ?_⟩
  · simp only [TaskLedger.task, hfind]
  · rw [requireInProgressOwner, if_pos ⟨hstatus, howner⟩]

theorem applyReport_closes (same : V → V → Bool) {report : AgentReport V}
    (h : OpenAttempt ledger report.taskId owner) :
    wp (fun _ => True) (applyReport same report owner) (fun _ ledger' => ledger'.Idle)
      (fun _ _ => False) ledger := by
  obtain ⟨record, htask, hid, howner⟩ := h.task
  obtain ⟨hsame, hclosed⟩ := reduceReport_spec same record report
  simp only [applyReport, setTask, commitEvent, wp_bind, wp_get, htask, wp_ofExcept_ok, howner,
    wp_modify, wp_pure, true_and]
  refine h.idle (hsame.taskId.trans hid) ?_
  rcases hclosed with h | h | h <;> simp [h]

theorem recordDispatchFailure_closes (blocker : TaskBlocker V) (blocked : Bool)
    (h : OpenAttempt ledger taskId owner) :
    wp (fun _ => True) (recordDispatchFailure taskId owner blocker blocked)
      (fun _ ledger' => ledger'.Idle) (fun _ _ => False) ledger := by
  obtain ⟨record, htask, hid, howner⟩ := h.task
  simp only [recordDispatchFailure, setTask, commitEvent, wp_bind, wp_get, htask, wp_ofExcept_ok,
    howner, wp_modify, true_and]
  refine h.idle hid ?_
  show dispatchFailureStatus record blocker blocked ≠ _
  unfold dispatchFailureStatus
  split <;> simp

theorem idle_replanCandidate {plan : OrchestratorPlan V} {candidate : List (TaskRecord V)}
    (h : ledger.replanCandidate plan = .ok candidate) :
    ∀ record ∈ candidate, record.status ≠ .inProgress := by
  intro record hmem
  rcases replanCandidate_origin h hmem with ⟨h, -⟩ | ⟨h, -⟩ | ⟨h, -⟩ <;> simp [h]

theorem applyReplan_idle (plan : OrchestratorPlan V) :
    wp (fun _ => True) (applyReplan plan) (fun _ ledger' => ledger'.Idle) (fun _ => (· = ledger))
      ledger := by
  simp only [applyReplan, commitPlan, commitEvent, wp_bind, wp_get, wp_throwIf, wp_ofExcept,
    wp_modify, true_and]
  refine ⟨fun _ => trivial, fun _ => ⟨fun _ _ => ⟨fun candidate hcandidate => ?_, fun _ _ => trivial⟩,
    fun _ _ => trivial⟩⟩
  exact idle_replanCandidate hcandidate

theorem applyPlan_idle (plan : OrchestratorPlan V) (replan : Bool) :
    wp (fun _ => True) (applyPlan plan replan) (fun _ ledger' => ledger'.Idle)
      (fun _ => (· = ledger)) ledger := by
  rw [applyPlan, wp_ite]
  refine ⟨fun _ => applyReplan_idle plan, fun _ => ?_⟩
  simp only [commitPlan, commitEvent, wp_bind, wp_get, wp_throwIf, wp_ofExcept, wp_modify, true_and]
  refine ⟨fun _ => trivial, fun hempty => ⟨fun _ => trivial, fun _ =>
    ⟨fun candidate hcandidate => ?_, fun _ _ => trivial⟩⟩⟩
  have hnil : ledger.tasks = [] := by simpa using hempty
  rw [planCandidate_of_empty hnil] at hcandidate
  exact idle_replanCandidate hcandidate

theorem recordDecisionRejection_tasks (message : String) (task owner : Option String) :
    wp (fun _ => True) (recordDecisionRejection message task owner)
      (fun _ ledger' => ledger'.tasks = ledger.tasks) (fun _ _ => False) ledger := by
  simp [recordDecisionRejection, commitEvent, committed]

theorem setNextAction_tasks (nextAction : Option String) :
    wp (fun _ => True) (setNextAction nextAction) (fun _ ledger' => ledger'.tasks = ledger.tasks)
      (fun _ _ => False) ledger := by
  simp [setNextAction, commitEvent, committed]

end TaskLedger

end VidbyteSdk.Agents.Multi

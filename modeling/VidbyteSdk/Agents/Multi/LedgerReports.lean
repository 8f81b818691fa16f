import VidbyteSdk.Agents.Multi.Records

/-!
# Reports

`TaskLedgerReportReducer`: the record that an accepted report makes of a task. `same` is the
equality of two opaque values; it is `false` where comparing them raises or gives no `bool`.
-/

namespace VidbyteSdk.Agents.Multi

variable {V : Type}

section Merge

variable (same : V → V → Bool)

/-- `_evidence_matches` -/
def evidenceMatches (left right : TaskEvidence V) : Bool :=
  left.source = right.source && left.kind = right.kind && left.verified = right.verified &&
    same left.value right.value

/-- `_merge_evidence` -/
def mergeEvidence (existing incoming : List (TaskEvidence V)) : List (TaskEvidence V) :=
  incoming.foldl (fun merged candidate =>
    if merged.any fun item => evidenceMatches same item candidate then merged
    else merged ++ [candidate]) existing

/-- `_merge_blockers`; the keys seen are those of the merged blockers. -/
def mergeBlockers (existing incoming : List (TaskBlocker V)) : List (TaskBlocker V) :=
  incoming.foldl (fun merged blocker =>
    if merged.any fun item => item.code = blocker.code && item.message = blocker.message &&
        item.retryable = blocker.retryable then merged
    else merged ++ [blocker]) existing

/-- `_complete` -/
def complete (record : TaskRecord V) (report : AgentReport V) : TaskRecord V × Bool :=
  ({ record with
      status := .completed
      result := report.result
      evidence := mergeEvidence same record.evidence report.evidence
      blockers := mergeBlockers (record.blockers.filter fun blocker => !blocker.retryable)
        (report.blockers.filter fun blocker => !blocker.retryable)
      nextAction := report.nextAction }, true)

/-- `_terminal` -/
def terminal (record : TaskRecord V) (report : AgentReport V) (status : TaskStatus) :
    TaskRecord V × Bool :=
  let evidence := mergeEvidence same record.evidence report.evidence
  let blockers := mergeBlockers record.blockers report.blockers
  ({ record with
      status := status
      result := report.result
      evidence := evidence
      blockers := blockers
      nextAction := report.nextAction },
    record.evidence.length < evidence.length || record.blockers.length < blockers.length ||
      report.nextAction ≠ record.nextAction)

def failedStatus (record : TaskRecord V) : TaskStatus :=
  if record.attempts < record.maxAttempts.val then .failed else .blocked

/-- `TaskLedgerReportReducer.apply` -/
def reduceReport (record : TaskRecord V) (report : AgentReport V) : TaskRecord V × Bool :=
  match report.status with
  | .completed => complete same record report
  | .failed => terminal same record report (failedStatus record)
  | .blocked => terminal same record report .blocked

end Merge

structure SameWork (record record' : TaskRecord V) : Prop where
  taskId : record'.taskId = record.taskId
  goal : record'.goal = record.goal
  owner : record'.owner = record.owner
  dependsOn : record'.dependsOn = record.dependsOn
  required : record'.required = record.required
  attempts : record'.attempts = record.attempts
  maxAttempts : record'.maxAttempts = record.maxAttempts
  evidence : record.evidence <+: record'.evidence

theorem prefix_mergeEvidence (same : V → V → Bool) (existing incoming : List (TaskEvidence V)) :
    existing <+: mergeEvidence same existing incoming := by
  induction incoming generalizing existing with
  | nil => exact List.prefix_rfl
  | cons candidate incoming ih =>
    rw [mergeEvidence, List.foldl_cons]
    split
    · exact ih existing
    · exact (List.prefix_append existing [candidate]).trans (ih _)

theorem reduceReport_spec (same : V → V → Bool) (record : TaskRecord V) (report : AgentReport V) :
    SameWork record (reduceReport same record report).1 ∧
      ((reduceReport same record report).1.status = .completed ∨
        (reduceReport same record report).1.status = .failed ∨
        (reduceReport same record report).1.status = .blocked) := by
  have hevidence := prefix_mergeEvidence same record.evidence report.evidence
  unfold reduceReport
  cases report.status with
  | completed => exact ⟨⟨rfl, rfl, rfl, rfl, rfl, rfl, rfl, hevidence⟩, .inl rfl⟩
  | failed =>
    refine ⟨⟨rfl, rfl, rfl, rfl, rfl, rfl, rfl, hevidence⟩, .inr ?_⟩
    show failedStatus record = _ ∨ failedStatus record = _
    unfold failedStatus
    split
    · exact .inl rfl
    · exact .inr rfl
  | blocked => exact ⟨⟨rfl, rfl, rfl, rfl, rfl, rfl, rfl, hevidence⟩, .inr (.inr rfl)⟩

end VidbyteSdk.Agents.Multi

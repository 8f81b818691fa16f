import VidbyteSdk.Agents.Multi.Ledger
import VidbyteSdk.Lib.Checks

/-!
# Runs of the task ledger

What an accepted candidate satisfies, what each call can do to the tasks, and from these the
invariant of every run: the dependencies of active tasks, the two statuses that need finished
dependencies, and what a task keeps for good.
-/

namespace VidbyteSdk.Agents.Multi

open VidbyteSdk.Lib

variable {V : Type}

/-! ### Tables of tasks -/

def UniqueIds (tasks : List (TaskRecord V)) : Prop := (tasks.map (·.taskId)).Nodup

variable {tasks : List (TaskRecord V)} {record record' : TaskRecord V} {taskId : String}

theorem findTask_some (h : findTask tasks taskId = some record) :
    record ∈ tasks ∧ record.taskId = taskId :=
  ⟨List.mem_of_find?_eq_some h, by simpa using List.find?_some h⟩

theorem findTask_of_mem (hunique : UniqueIds tasks) (hmem : record ∈ tasks) :
    findTask tasks record.taskId = some record := by
  induction tasks with
  | nil => cases hmem
  | cons head rest ih =>
    obtain ⟨hnew, hrest⟩ := List.nodup_cons.mp hunique
    rcases List.mem_cons.mp hmem with rfl | hmem
    · simp [findTask]
    · have hne : head.taskId ≠ record.taskId := by
        intro heq
        exact hnew (List.mem_map.mpr ⟨record, hmem, heq.symm⟩)
      rw [findTask, List.find?_cons_of_neg (by simpa using hne)]
      exact ih hrest hmem

theorem UniqueIds.eq (hunique : UniqueIds tasks) (hmem : record ∈ tasks) (hmem' : record' ∈ tasks)
    (h : record'.taskId = record.taskId) : record' = record := by
  have hfind := findTask_of_mem hunique hmem'
  rw [h, findTask_of_mem hunique hmem] at hfind
  exact (Option.some.inj hfind).symm

theorem findTask_upsert (taskId : String) :
    findTask (upsert (·.taskId) record tasks) taskId
      = if record.taskId = taskId then some record else findTask tasks taskId :=
  find?_upsert taskId

theorem dependencies_upsert (hfind : findTask tasks record'.taskId = some record)
    (hdeps : record'.dependsOn = record.dependsOn) :
    dependencies (upsert (·.taskId) record' tasks) = dependencies tasks := by
  funext taskId
  rw [dependencies, findTask_upsert, dependencies]
  by_cases h : record'.taskId = taskId
  · rw [if_pos h, ← h, hfind, Option.map_some, Option.map_some, hdeps]
  · rw [if_neg h]

theorem dependencies_of_mem (hunique : UniqueIds tasks) (hmem : record ∈ tasks) :
    dependencies tasks record.taskId = record.dependsOn := by
  rw [dependencies, findTask_of_mem hunique hmem]
  rfl

/-! ### What validation accepts -/

structure ActiveTask (owners : List String) (tasks : List (TaskRecord V)) (record : TaskRecord V) :
    Prop where
  owner : ∀ owner ∈ record.owner, owner ∈ owners
  distinct : record.dependsOn.Nodup
  present : ∀ dependency ∈ record.dependsOn, ∃ found ∈ tasks,
    found.taskId = dependency ∧ found.status ≠ .superseded

theorem validateDependency_eq_ok {dependency : String}
    (h : validateDependency record tasks dependency = .ok ()) :
    ∃ found ∈ tasks, found.taskId = dependency ∧ found.status ≠ .superseded := by
  unfold validateDependency at h
  split at h
  · cases h
  · split at h
    · cases h
    · next found hfind =>
      split at h
      · cases h
      · next hactive =>
        obtain ⟨hmem, hid⟩ := findTask_some hfind
        exact ⟨found, hmem, hid, hactive⟩

theorem validateRecord_eq_ok {owners : List String}
    (h : validateRecord owners tasks record = .ok ()) (hactive : record.status ≠ .superseded) :
    ActiveTask owners tasks record := by
  rw [validateRecord, if_neg hactive] at h
  obtain ⟨⟨⟩, howner, hdeps⟩ := bind_eq_ok h
  refine ⟨?_, ?_, ?_⟩
  · intro owner hmem
    rw [Option.mem_def] at hmem
    simp only [validateCandidateOwner, hmem] at howner
    by_contra hnot
    rw [if_neg hnot] at howner
    cases howner
  · rw [validateCandidateDependencies] at hdeps
    split at hdeps
    · cases hdeps
    · next hlen =>
      have hnodup := nodup_of_length_upsertAll (not_not.mp hlen)
      rwa [List.map_id] at hnodup
  · rw [validateCandidateDependencies] at hdeps
    split at hdeps
    · cases hdeps
    · exact fun dependency hmem => validateDependency_eq_ok (forM_eq_ok hdeps dependency hmem)

theorem validateCandidate_eq_ok {owners : List String}
    (h : validateCandidate owners tasks = .ok ()) :
    (∀ record ∈ tasks, record.status ≠ .superseded → ActiveTask owners tasks record) ∧
      ∀ record ∈ tasks, record.status ≠ .superseded →
        ¬ Relation.TransGen (DependsOn (dependencies tasks)) record.taskId record.taskId := by
  obtain ⟨⟨⟩, hrecords, hacyclic⟩ := bind_eq_ok h
  refine ⟨fun record hmem hactive => validateRecord_eq_ok (forM_eq_ok hrecords record hmem) hactive,
    fun record hmem hactive => ?_⟩
  rw [validateAcyclic] at hacyclic
  split at hacyclic
  · cases hacyclic
  · next colors hvisit =>
    obtain ⟨hsettled, hblack⟩ := visitAll_settled visit_settled ⟨nofun, nofun⟩ hvisit
    apply hsettled.acyclic
    apply hblack
    exact List.mem_map_of_mem (List.mem_filter.mpr ⟨hmem, by simpa [isActive] using hactive⟩)

theorem uniqueSpecs_eq_ok {specs specs' : List (TaskSpec V)} (h : uniqueSpecs specs = .ok specs') :
    specs' = specs ∧ (specs.map (·.taskId)).Nodup := by
  rw [uniqueSpecs] at h
  split at h
  · cases h
  · next hlen =>
    cases h
    refine ⟨rfl, ?_⟩
    have hnodup := nodup_of_length_upsertAll (not_not.mp hlen).symm
    rwa [List.map_id] at hnodup

/-! ### Calls -/

inductive LedgerCall (V : Type)
  | applyPlan (plan : OrchestratorPlan V) (replan : Bool)
  | applyReplan (plan : OrchestratorPlan V)
  | startTask (dispatch : AgentDispatch)
  | applyReport (report : AgentReport V) (owner : String)
  | recordDispatchFailure (taskId owner : String) (blocker : TaskBlocker V) (blocked : Bool)
  | recordDecisionRejection (message : String) (taskId owner : Option String)
  | setNextAction (nextAction : Option String)

namespace LedgerCall

def run (same : V → V → Bool) : LedgerCall V → LedgerM V Unit
  | .applyPlan plan replan => TaskLedger.applyPlan plan replan
  | .applyReplan plan => TaskLedger.applyReplan plan
  | .startTask dispatch => TaskLedger.startTask dispatch
  | .applyReport report owner => (fun _ => ()) <$> TaskLedger.applyReport same report owner
  | .recordDispatchFailure taskId owner blocker blocked =>
    TaskLedger.recordDispatchFailure taskId owner blocker blocked
  | .recordDecisionRejection message taskId owner =>
    TaskLedger.recordDecisionRejection message taskId owner
  | .setNextAction nextAction => TaskLedger.setNextAction nextAction

def plans : LedgerCall V → Bool
  | .applyPlan _ _ | .applyReplan _ => true
  | _ => false

def startedTask : LedgerCall V → Option String
  | .startTask dispatch => some dispatch.taskId
  | _ => none

end LedgerCall

namespace TaskLedger

/-- What an accepted call does to the tasks: whether it plans, and the task it starts. -/
inductive TaskChange (ledger : TaskLedger V) : Bool → Option String → List (TaskRecord V) → Prop
  | plan (plan : OrchestratorPlan V) (candidate : List (TaskRecord V))
      (hempty : ledger.tasks = []) (hcandidate : ledger.planCandidate plan = .ok candidate) :
      TaskChange ledger true none candidate
  | replan (plan : OrchestratorPlan V) (candidate : List (TaskRecord V))
      (hcandidate : ledger.replanCandidate plan = .ok candidate) :
      TaskChange ledger true none candidate
  | start {plans : Bool} (dispatch : AgentDispatch) (record : TaskRecord V)
      (hfind : findTask ledger.tasks dispatch.taskId = some record)
      (hvalid : validateDispatch ledger.owners dispatch record ledger.revision ledger.isReady
        = .ok ()) :
      TaskChange ledger plans (some dispatch.taskId)
        (upsert (·.taskId)
          { record with
            owner := some dispatch.owner
            status := .inProgress
            attempts := dispatch.attempt } ledger.tasks)
  | close {plans : Bool} (record record' : TaskRecord V)
      (hfind : findTask ledger.tasks record.taskId = some record)
      (hprogress : record.status = .inProgress) (hsame : SameWork record record')
      (hclosed : record'.status = .completed ∨ record'.status = .failed ∨
        record'.status = .blocked) :
      TaskChange ledger plans none (upsert (·.taskId) record' ledger.tasks)
  | same {plans : Bool} : TaskChange ledger plans none ledger.tasks

/-- What every accepted call does beside the tasks. -/
structure Committed (ledger ledger' : TaskLedger V) : Prop where
  owners : ledger'.owners = ledger.owners
  settings : ledger'.settings = ledger.settings
  revision : ledger'.revision = ledger.revision + 1
  eventIndex : ledger'.eventIndex = ledger.eventIndex + 1
  events : ∃ event : LedgerEvent, event.index = ledger.eventIndex ∧
    event.revision = ledger.revision + 1 ∧
    ledger'.events = retained ledger.settings.maxEvents (ledger.events ++ [event])

structure Moved (call : LedgerCall V) (ledger ledger' : TaskLedger V) : Prop where
  tasks : TaskChange ledger call.plans call.startedTask ledger'.tasks
  committed : Committed ledger ledger'

theorem committed_committed (kind : String) (taskId owner : Option String) (message : String)
    (metadata : List (String × EventValue)) {ledger ledger' : TaskLedger V}
    (howners : ledger'.owners = ledger.owners) (hsettings : ledger'.settings = ledger.settings)
    (hrevision : ledger'.revision = ledger.revision)
    (hindex : ledger'.eventIndex = ledger.eventIndex) (hevents : ledger'.events = ledger.events) :
    Committed ledger (committed kind taskId owner message metadata ledger') where
  owners := howners
  settings := hsettings
  revision := congrArg (· + 1) hrevision
  eventIndex := congrArg (· + 1) hindex
  events := by
    refine ⟨⟨ledger.eventIndex, kind, ledger.revision + 1, taskId, owner, message, metadata⟩, rfl,
      rfl, ?_⟩
    simp only [committed, hsettings, hrevision, hindex, hevents]

theorem task_eq_ok {ledger : TaskLedger V} (h : ledger.task taskId = .ok record) :
    findTask ledger.tasks taskId = some record := by
  rw [task] at h
  split at h
  · cases h
  · next found hfind => rw [hfind, Except.ok.inj h]

theorem requireInProgressOwner_eq_ok {owner : String}
    (h : requireInProgressOwner record owner = .ok ()) :
    record.status = .inProgress ∧ record.owner = some owner := by
  rw [requireInProgressOwner] at h
  split at h
  · assumption
  · cases h

open Prog

variable (same : V → V → Bool) (ledger : TaskLedger V)

theorem applyReplan_spec (plan : OrchestratorPlan V) :
    wp (fun _ => True) (applyReplan plan) (fun _ => Moved (.applyReplan plan) ledger)
      (fun _ => (· = ledger)) ledger := by
  simp only [applyReplan, commitPlan, commitEvent, wp_bind, wp_get, wp_throwIf, wp_ofExcept,
    wp_modify, true_and]
  refine ⟨fun _ => trivial, fun _ => ⟨fun _ _ => ⟨fun candidate hcandidate => ?_, fun _ _ => trivial⟩,
    fun _ _ => trivial⟩⟩
  exact ⟨.replan plan candidate hcandidate, committed_committed _ _ _ _ _ rfl rfl rfl rfl rfl⟩

theorem applyPlan_spec (plan : OrchestratorPlan V) (replan : Bool) :
    wp (fun _ => True) (applyPlan plan replan) (fun _ => Moved (.applyPlan plan replan) ledger)
      (fun _ => (· = ledger)) ledger := by
  rw [applyPlan, wp_ite]
  constructor
  · intro _
    exact wp_post (applyReplan_spec ledger plan) (fun _ _ h => ⟨h.tasks, h.committed⟩) fun _ _ => id
  · intro _
    simp only [commitPlan, commitEvent, wp_bind, wp_get, wp_throwIf, wp_ofExcept, wp_modify,
      true_and]
    refine ⟨fun _ => trivial, fun hempty => ⟨fun _ => trivial, fun _ =>
      ⟨fun candidate hcandidate => ?_, fun _ _ => trivial⟩⟩⟩
    have hnil : ledger.tasks = [] := by simpa using hempty
    exact ⟨.plan plan candidate hnil hcandidate, committed_committed _ _ _ _ _ rfl rfl rfl rfl rfl⟩

theorem startTask_spec (dispatch : AgentDispatch) :
    wp (fun _ => True) (startTask dispatch) (fun _ => Moved (.startTask dispatch) ledger)
      (fun _ => (· = ledger)) ledger := by
  simp only [startTask, setTask, commitEvent, wp_bind, wp_get, wp_ofExcept, wp_modify, true_and]
  refine ⟨fun record hrecord => ⟨fun _ hvalid => ?_, fun _ _ => trivial⟩, fun _ _ => trivial⟩
  exact ⟨.start dispatch record (task_eq_ok hrecord) hvalid,
    committed_committed _ _ _ _ _ rfl rfl rfl rfl rfl⟩

theorem applyReport_spec (report : AgentReport V) (owner : String) :
    wp (fun _ => True) (applyReport same report owner)
      (fun _ => Moved (.applyReport report owner) ledger) (fun _ => (· = ledger)) ledger := by
  simp only [applyReport, setTask, commitEvent, wp_bind, wp_get, wp_ofExcept, wp_modify, wp_pure,
    true_and]
  refine ⟨fun record hrecord => ⟨fun _ howner => ?_, fun _ _ => trivial⟩, fun _ _ => trivial⟩
  have hfind := task_eq_ok hrecord
  obtain ⟨hsame, hclosed⟩ := reduceReport_spec same record report
  refine ⟨.close record _ ?_ (requireInProgressOwner_eq_ok howner).1 hsame hclosed,
    committed_committed _ _ _ _ _ rfl rfl rfl rfl rfl⟩
  rw [(findTask_some hfind).2, hfind]

theorem recordDispatchFailure_spec (taskId owner : String) (blocker : TaskBlocker V)
    (blocked : Bool) :
    wp (fun _ => True) (recordDispatchFailure taskId owner blocker blocked)
      (fun _ => Moved (.recordDispatchFailure taskId owner blocker blocked) ledger)
      (fun _ => (· = ledger)) ledger := by
  simp only [recordDispatchFailure, setTask, commitEvent, wp_bind, wp_get, wp_ofExcept, wp_modify,
    true_and]
  refine ⟨fun record hrecord => ⟨fun _ howner => ?_, fun _ _ => trivial⟩, fun _ _ => trivial⟩
  have hfind := task_eq_ok hrecord
  refine ⟨.close record _ ?_ (requireInProgressOwner_eq_ok howner).1
    ⟨rfl, rfl, rfl, rfl, rfl, rfl, rfl, List.prefix_rfl⟩ (.inr ?_),
    committed_committed _ _ _ _ _ rfl rfl rfl rfl rfl⟩
  · rw [(findTask_some hfind).2, hfind]
  · show dispatchFailureStatus record blocker blocked = _ ∨
      dispatchFailureStatus record blocker blocked = _
    unfold dispatchFailureStatus
    split
    · exact .inl rfl
    · exact .inr rfl

/-- Every call either does what `Moved` says, or raises and leaves the ledger as it was. -/
theorem run_spec (call : LedgerCall V) :
    wp (fun _ => True) (call.run same) (fun _ => Moved call ledger) (fun _ => (· = ledger))
      ledger := by
  cases call with
  | applyPlan plan replan => exact applyPlan_spec ledger plan replan
  | applyReplan plan => exact applyReplan_spec ledger plan
  | startTask dispatch => exact startTask_spec ledger dispatch
  | applyReport report owner =>
    rw [LedgerCall.run, wp_map]
    exact applyReport_spec same ledger report owner
  | recordDispatchFailure taskId owner blocker blocked =>
    exact recordDispatchFailure_spec ledger taskId owner blocker blocked
  | recordDecisionRejection message taskId owner =>
    simp only [LedgerCall.run, recordDecisionRejection, commitEvent, wp_modify, true_and]
    exact ⟨.same, committed_committed _ _ _ _ _ rfl rfl rfl rfl rfl⟩
  | setNextAction nextAction =>
    simp only [LedgerCall.run, setNextAction, commitEvent, wp_bind, wp_modify, true_and]
    exact ⟨.same, committed_committed _ _ _ _ _ rfl rfl rfl rfl rfl⟩

/-! ### What a dispatch has passed -/

theorem allCompleted_eq_true {ledger : TaskLedger V} {ids : List String}
    (h : ledger.allCompleted ids = .ok true) :
    ∀ dependency ∈ ids, ∃ found ∈ ledger.tasks,
      found.taskId = dependency ∧ found.status = .completed := by
  induction ids with
  | nil => exact nofun
  | cons head rest ih =>
    rw [allCompleted] at h
    obtain ⟨record, hrecord, hrest⟩ := bind_eq_ok h
    split at hrest
    · next hcompleted =>
      intro dependency hmem
      rcases List.mem_cons.mp hmem with rfl | hmem
      · obtain ⟨hfound, hid⟩ := findTask_some (task_eq_ok hrecord)
        exact ⟨record, hfound, hid, hcompleted⟩
      · exact ih hrest dependency hmem
    · cases hrest

theorem isReady_eq_true {ledger : TaskLedger V} (h : ledger.isReady taskId = .ok true) :
    ∃ record, findTask ledger.tasks taskId = some record ∧ isStartable record = true ∧
      ∀ dependency ∈ record.dependsOn, ∃ found ∈ ledger.tasks,
        found.taskId = dependency ∧ found.status = .completed := by
  obtain ⟨record, hrecord, hready⟩ := bind_eq_ok h
  split at hready
  · next hstartable =>
    exact ⟨record, task_eq_ok hrecord, hstartable, allCompleted_eq_true hready⟩
  · cases hready

theorem isStartable_iff :
    isStartable record = true ↔
      (record.status = .pending ∨ record.status = .failed) ∧
        record.attempts < record.maxAttempts.val := by
  simp [isStartable]

theorem validateDispatch_eq_ok {ledger : TaskLedger V} {dispatch : AgentDispatch}
    (h : validateDispatch ledger.owners dispatch record ledger.revision ledger.isReady = .ok ()) :
    dispatch.owner ∈ ledger.owners ∧ ledger.isReady dispatch.taskId = .ok true ∧
      dispatch.attempt = record.attempts + 1 := by
  rw [validateDispatch] at h
  split at h
  · cases h
  · obtain ⟨⟨⟩, howner, hrest⟩ := bind_eq_ok h
    obtain ⟨ready, hready, hattempt⟩ := bind_eq_ok hrest
    refine ⟨?_, ?_, ?_⟩
    · by_contra hnot
      rw [validateDispatchOwner, if_pos hnot] at howner
      cases howner
    · cases ready with
      | true => exact hready
      | false => cases hattempt
    · by_contra hne
      cases ready with
      | true =>
        rw [if_neg (by simp), if_pos hne] at hattempt
        cases hattempt
      | false => cases hattempt

/-! ### Replans -/

variable {spec : TaskSpec V}

theorem replanned_cases {ledger : TaskLedger V}
    (h : ledger.replanned spec = .ok record) :
    (findTask ledger.tasks spec.taskId = none ∧ record = newRecord ledger.settings spec) ∨
      (findTask ledger.tasks spec.taskId = some record ∧ record.status = .completed) ∨
      ∃ existing, findTask ledger.tasks spec.taskId = some existing ∧
        existing.status ≠ .superseded ∧ existing.status ≠ .completed ∧
        record = updateUnfinishedRecord ledger.settings existing spec := by
  rw [replanned] at h
  split at h
  · next hfind => exact .inl ⟨hfind, (Except.ok.inj h).symm⟩
  · next existing hfind =>
    split at h
    · cases h
    · next hactive =>
      split at h
      · next hcompleted =>
        obtain ⟨⟨⟩, -, hresult⟩ := bind_eq_ok h
        obtain rfl := Except.ok.inj hresult
        exact .inr (.inl ⟨hfind, hcompleted⟩)
      · next hunfinished =>
        exact .inr (.inr ⟨existing, hfind, hactive, hunfinished, (Except.ok.inj h).symm⟩)

theorem taskId_replanned {ledger : TaskLedger V}
    (h : ledger.replanned spec = .ok record) : record.taskId = spec.taskId := by
  rcases replanned_cases h with ⟨-, rfl⟩ | ⟨hfind, -⟩ | ⟨existing, hfind, -, -, rfl⟩
  · rfl
  · exact (findTask_some hfind).2
  · exact (findTask_some hfind).2

theorem replanCandidate_eq_ok {ledger : TaskLedger V} {plan : OrchestratorPlan V}
    {candidate : List (TaskRecord V)} (h : ledger.replanCandidate plan = .ok candidate) :
    ∃ records, List.Forall₂ (fun spec record => ledger.replanned spec = .ok record) plan.tasks
        records ∧
      candidate = records ++ ledger.omitted plan.tasks ∧ (plan.tasks.map (·.taskId)).Nodup ∧
      validateCandidate ledger.owners candidate = .ok () := by
  obtain ⟨specs, hspecs, hrest⟩ := bind_eq_ok h
  obtain ⟨rfl, hnodup⟩ := uniqueSpecs_eq_ok hspecs
  obtain ⟨records, hrecords, hvalidated⟩ := bind_eq_ok hrest
  obtain ⟨⟨⟩, hvalid, hresult⟩ := bind_eq_ok hvalidated
  cases hresult
  exact ⟨records, mapM_eq_ok hrecords, rfl, hnodup, hvalid⟩

theorem planCandidate_of_empty {ledger : TaskLedger V} (h : ledger.tasks = [])
    (plan : OrchestratorPlan V) : ledger.planCandidate plan = ledger.replanCandidate plan := by
  have hreplanned : ledger.replanned = fun spec => .ok (newRecord ledger.settings spec) := by
    funext spec
    rw [replanned, h]
    rfl
  have homitted : ∀ specs, ledger.omitted specs = [] := by
    intro specs
    rw [omitted, h]
    rfl
  have hmapM : ∀ specs : List (TaskSpec V), specs.mapM ledger.replanned
      = .ok (specs.map (newRecord ledger.settings)) := by
    intro specs
    rw [hreplanned]
    exact List.mapM_pure
  rw [planCandidate, replanCandidate]
  simp only [hmapM, homitted, List.append_nil]
  rfl

section Replan

variable {ledger : TaskLedger V} {specs : List (TaskSpec V)} {records : List (TaskRecord V)}
  (hrecords : List.Forall₂ (fun spec record => ledger.replanned spec = .ok record) specs records)

include hrecords

theorem map_taskId_replanned : records.map (·.taskId) = specs.map (·.taskId) := by
  induction hrecords with
  | nil => rfl
  | cons hrecord _ ih => rw [List.map_cons, List.map_cons, ih, taskId_replanned hrecord]

theorem exists_replanned_of_mem (hmem : record ∈ records) :
    ∃ spec ∈ specs, ledger.replanned spec = .ok record := by
  induction hrecords with
  | nil => cases hmem
  | @cons spec head specs records hhead _ ih =>
    rcases List.mem_cons.mp hmem with rfl | hmem
    · exact ⟨spec, List.mem_cons_self, hhead⟩
    · obtain ⟨spec, hspec, hrecord⟩ := ih hmem
      exact ⟨spec, List.mem_cons_of_mem _ hspec, hrecord⟩

theorem exists_replanned_of_spec (hmem : spec ∈ specs) :
    ∃ record ∈ records, ledger.replanned spec = .ok record := by
  induction hrecords with
  | nil => cases hmem
  | @cons head record specs records hhead _ ih =>
    rcases List.mem_cons.mp hmem with rfl | hmem
    · exact ⟨record, List.mem_cons_self, hhead⟩
    · obtain ⟨record, hrecord, hspec⟩ := ih hmem
      exact ⟨record, List.mem_cons_of_mem _ hrecord, hspec⟩

end Replan

end TaskLedger

end VidbyteSdk.Agents.Multi

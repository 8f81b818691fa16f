import VidbyteSdk.Agents.Multi.LedgerHistory

/-!
# Recovery

When a team can still go on: which tasks of the required work are ready, what
`required_work_is_unrecoverable` says, and that no attempt brings unrecoverable work to completion.
-/

namespace VidbyteSdk.Agents.Multi

open VidbyteSdk.Lib

variable {V : Type}

def isCompleted (tasks : List (TaskRecord V)) (taskId : String) : Bool :=
  match findTask tasks taskId with
  | some record => record.status = .completed
  | none => false

theorem isCompleted_eq_true {tasks : List (TaskRecord V)} {taskId : String} :
    isCompleted tasks taskId = true ↔
      ∃ record, findTask tasks taskId = some record ∧ record.status = .completed := by
  unfold isCompleted
  cases findTask tasks taskId with
  | some record => simp
  | none => simp

namespace TaskLedger

variable {ledger : TaskLedger V} {record : TaskRecord V} {taskId : String}

def ready (ledger : TaskLedger V) (taskId : String) : Bool :=
  match findTask ledger.tasks taskId with
  | some record => isStartable record && record.dependsOn.all (isCompleted ledger.tasks)
  | none => false

def Needed (ledger : TaskLedger V) (taskId : String) : Prop :=
  ∃ record ∈ ledger.requiredTasks,
    Relation.ReflTransGen (DependsOn (dependencies ledger.tasks)) record.taskId taskId

/-- No attempt is open. -/
def Idle (ledger : TaskLedger V) : Prop := ∀ record ∈ ledger.tasks, record.status ≠ .inProgress

/-! ### The reading methods on a sound ledger -/

def activeIds (ledger : TaskLedger V) : List String := (ledger.tasks.filter isActive).map (·.taskId)

theorem mem_activeIds :
    taskId ∈ ledger.activeIds ↔ ∃ record ∈ ledger.tasks,
      record.taskId = taskId ∧ record.status ≠ .superseded := by
  simp only [activeIds, List.mem_map, List.mem_filter, isActive, decide_eq_true_eq]
  constructor
  · rintro ⟨record, ⟨hmem, hactive⟩, hid⟩
    exact ⟨record, hmem, hid, hactive⟩
  · rintro ⟨record, hmem, hid, hactive⟩
    exact ⟨record, ⟨hmem, hactive⟩, hid⟩

theorem required_mem_activeIds (hmem : record ∈ ledger.requiredTasks) :
    record.taskId ∈ ledger.activeIds := by
  obtain ⟨hmem, hrequired⟩ := List.mem_filter.mp hmem
  simp only [isActive, Bool.and_eq_true, decide_eq_true_eq] at hrequired
  exact mem_activeIds.mpr ⟨record, hmem, rfl, hrequired.2⟩

section Reading

variable (hsound : Sound ledger.owners ledger.tasks)

include hsound

theorem closedUnder_activeIds : ClosedUnder (dependencies ledger.tasks) ledger.activeIds := by
  intro taskId htask dependency hdependency
  obtain ⟨record, hmem, rfl, hactive⟩ := mem_activeIds.mp htask
  rw [dependencies_of_mem hsound.unique hmem] at hdependency
  exact mem_activeIds.mpr ((hsound.active record hmem hactive).present dependency hdependency)

theorem Needed.exists_record (h : ledger.Needed taskId) :
    ∃ record ∈ ledger.tasks, record.taskId = taskId ∧ record.status ≠ .superseded := by
  obtain ⟨record, hmem, hreach⟩ := h
  apply mem_activeIds.mp
  exact (closedUnder_activeIds hsound).reach (required_mem_activeIds hmem) hreach

theorem mem_neededTasks : taskId ∈ ledger.neededTasks ↔ ledger.Needed taskId := by
  have hroots : ∀ root ∈ ledger.requiredTasks.map (·.taskId), root ∈ ledger.activeIds := by
    intro root hroot
    obtain ⟨record, hmem, rfl⟩ := List.mem_map.mp hroot
    exact required_mem_activeIds hmem
  have hfuel : ledger.activeIds.length < ledger.tasks.length + 1 := by
    rw [activeIds, List.length_map]
    exact Nat.lt_succ_of_le (List.length_filter_le _ _)
  rw [neededTasks, mem_foldl_collect (closedUnder_activeIds hsound) hroots hfuel]
  simp only [List.mem_map, exists_exists_and_eq_and, Needed]

theorem allCompleted_eq {ids : List String}
    (hpresent : ∀ dependency ∈ ids, ∃ found ∈ ledger.tasks, found.taskId = dependency) :
    ledger.allCompleted ids = .ok (ids.all (isCompleted ledger.tasks)) := by
  induction ids with
  | nil => rfl
  | cons dependency ids ih =>
    obtain ⟨found, hfound, rfl⟩ := hpresent dependency List.mem_cons_self
    have hfind := findTask_of_mem hsound.unique hfound
    have hrest := ih fun other hother => hpresent other (List.mem_cons_of_mem _ hother)
    have htask : ledger.task found.taskId = .ok found := by
      simp only [task, hfind]
    rw [allCompleted, htask]
    change (if found.status = .completed then ledger.allCompleted ids else .ok false) = _
    rw [hrest, List.all_cons, isCompleted, hfind]
    by_cases h : found.status = .completed <;> simp [h]

theorem allCompleted_dependsOn (hmem : record ∈ ledger.tasks) (hactive : record.status ≠ .superseded) :
    ledger.allCompleted record.dependsOn
      = .ok (record.dependsOn.all (isCompleted ledger.tasks)) := by
  apply allCompleted_eq hsound
  intro dependency hdependency
  obtain ⟨found, hfound, hid, -⟩ := (hsound.active record hmem hactive).present dependency hdependency
  exact ⟨found, hfound, hid⟩

theorem isReady_eq (hmem : record ∈ ledger.tasks) (hactive : record.status ≠ .superseded) :
    ledger.isReady record.taskId = .ok (ledger.ready record.taskId) := by
  have hfind := findTask_of_mem hsound.unique hmem
  have htask : ledger.task record.taskId = .ok record := by
    simp only [task, hfind]
  rw [isReady, htask, ready, hfind]
  change (if isStartable record then ledger.allCompleted record.dependsOn else .ok false) = _
  rw [allCompleted_dependsOn hsound hmem hactive]
  cases h : isStartable record <;> simp [h]

theorem isComplete_eq (flag : Bool) (hmem : record ∈ ledger.tasks)
    (hactive : record.status ≠ .superseded) :
    ledger.isComplete flag record
      = .ok (record.status = .completed && (!flag || hasVerifiedEvidence record)) := by
  rw [isComplete]
  by_cases hcompleted : record.status = .completed
  · have hall : record.dependsOn.all (isCompleted ledger.tasks) = true := by
      rw [List.all_eq_true]
      intro dependency hdependency
      obtain ⟨found, hfound, rfl, hdone⟩ :=
        hsound.finished record hmem (.inr hcompleted) dependency hdependency
      exact isCompleted_eq_true.mpr ⟨found, findTask_of_mem hsound.unique hfound, hdone⟩
    rw [if_pos hcompleted, allCompleted_dependsOn hsound hmem hactive, hall]
    simp [hcompleted, Bind.bind, Except.bind]
  · simp [hcompleted]

theorem allRequiredComplete_eq (flag : Bool) :
    ledger.allRequiredComplete flag = .ok (ledger.requiredTasks.all fun record =>
      record.status = .completed && (!flag || hasVerifiedEvidence record)) := by
  apply allM_eq_all
  intro record hmem
  obtain ⟨hmem, hrequired⟩ := List.mem_filter.mp hmem
  simp only [isActive, Bool.and_eq_true, decide_eq_true_eq] at hrequired
  exact isComplete_eq hsound flag hmem hrequired.2

theorem requiredWorkIsUnrecoverable_eq :
    ledger.requiredWorkIsUnrecoverable = .ok
      (!(ledger.requiredTasks.all fun record => record.status = .completed) &&
        !ledger.neededTasks.any ledger.ready) := by
  have hany : ledger.neededTasks.anyM ledger.isReady
      = .ok (ledger.neededTasks.any ledger.ready) := by
    apply anyM_eq_any
    intro taskId htask
    obtain ⟨record, hmem, rfl, hactive⟩ :=
      Needed.exists_record hsound ((mem_neededTasks hsound).mp htask)
    exact isReady_eq hsound hmem hactive
  rw [requiredWorkIsUnrecoverable, allRequiredComplete_eq hsound, hany]
  simp only [Bool.not_false, Bool.true_or, Bool.and_true]
  cases ledger.requiredTasks.all fun record => decide (record.status = .completed) <;> rfl

end Reading

theorem ready_eq_true : ledger.ready taskId = true ↔
    ∃ record, findTask ledger.tasks taskId = some record ∧ isStartable record = true ∧
      ∀ dependency ∈ record.dependsOn, isCompleted ledger.tasks dependency = true := by
  unfold ready
  cases findTask ledger.tasks taskId with
  | some record => simp
  | none => simp

theorem ready_of_isReady (hsound : Sound ledger.owners ledger.tasks)
    (h : ledger.isReady taskId = .ok true) : ledger.ready taskId = true := by
  obtain ⟨record, hfind, hstartable, hdone⟩ := isReady_eq_true h
  refine ready_eq_true.mpr ⟨record, hfind, hstartable, fun dependency hdependency => ?_⟩
  obtain ⟨found, hfound, rfl, hcompleted⟩ := hdone dependency hdependency
  exact isCompleted_eq_true.mpr ⟨found, findTask_of_mem hsound.unique hfound, hcompleted⟩

/-! ### Dispatches -/

/-- The dispatch that starts a ready task under its planned owner, or the first one. -/
def nextDispatch (ledger : TaskLedger V) (record : TaskRecord V) : AgentDispatch where
  baseRevision := ledger.revision
  taskId := record.taskId
  owner := record.owner.getD (ledger.owners.head ledger.owners_ne_nil)
  attempt := record.attempts + 1

theorem startTask_nextDispatch (hsound : Sound ledger.owners ledger.tasks)
    (hmem : record ∈ ledger.tasks) (hactive : record.status ≠ .superseded)
    (hready : ledger.ready record.taskId = true) :
    (startTask (ledger.nextDispatch record) ledger).result = .ok () := by
  have htask : ledger.task record.taskId = .ok record := by
    simp only [task, findTask_of_mem hsound.unique hmem]
  have hisReady : ledger.isReady record.taskId = .ok true := by
    rw [isReady_eq hsound hmem hactive, hready]
  have howner : validateDispatchOwner ledger.owners (ledger.nextDispatch record) record = .ok () := by
    have hconfigured : (ledger.nextDispatch record).owner ∈ ledger.owners := by
      show record.owner.getD _ ∈ _
      cases howner : record.owner with
      | none => exact List.head_mem ledger.owners_ne_nil
      | some owner => exact (hsound.active record hmem hactive).owner owner howner
    rw [validateDispatchOwner, if_neg (not_not_intro hconfigured)]
    cases howner : record.owner with
    | none => rfl
    | some owner => simp [nextDispatch, howner]
  have hvalid : validateDispatch ledger.owners (ledger.nextDispatch record) record ledger.revision
      ledger.isReady = .ok () := by
    have hrevision : (ledger.nextDispatch record).baseRevision = ledger.revision := rfl
    have hid : (ledger.nextDispatch record).taskId = record.taskId := rfl
    have hattempt : (ledger.nextDispatch record).attempt = record.attempts + 1 := rfl
    rw [validateDispatch, if_neg (not_not_intro hrevision), howner, hid, hisReady, hattempt]
    simp [Bind.bind, Except.bind]
  have hwp : Prog.wp (fun _ => True) (startTask (ledger.nextDispatch record)) (fun _ _ => True)
      (fun _ _ => False) ledger := by
    have hid : (ledger.nextDispatch record).taskId = record.taskId := rfl
    simp only [startTask, setTask, commitEvent, Prog.wp_bind, Prog.wp_get, hid, htask,
      Prog.wp_ofExcept_ok, hvalid, Prog.wp_modify, and_self]
  have hend := hwp.2
  split at hend
  · next hresult => exact hresult
  · exact hend.elim

theorem ready_of_started {dispatch : AgentDispatch} (hsound : Sound ledger.owners ledger.tasks)
    (h : (startTask dispatch ledger).result = .ok ()) : ledger.ready dispatch.taskId = true := by
  have hend := (startTask_spec ledger dispatch).2
  rw [h] at hend
  exact ready_of_isReady hsound hend.tasks.isReady

def Refuses (ledger : TaskLedger V) (taskId : String) : Prop :=
  ∀ dispatch : AgentDispatch, dispatch.taskId = taskId →
    ∃ error, (startTask dispatch ledger).result = .error error

theorem refuses_iff (hsound : Sound ledger.owners ledger.tasks) (hneeded : ledger.Needed taskId) :
    ledger.Refuses taskId ↔ ledger.ready taskId = false := by
  constructor
  · intro hrefuses
    obtain ⟨record, hmem, rfl, hactive⟩ := hneeded.exists_record hsound
    by_contra hready
    rw [Bool.not_eq_false] at hready
    obtain ⟨error, herror⟩ := hrefuses (ledger.nextDispatch record) rfl
    rw [startTask_nextDispatch hsound hmem hactive hready] at herror
    cases herror
  · rintro hready dispatch rfl
    cases hresult : (startTask dispatch ledger).result with
    | error error => exact ⟨error, rfl⟩
    | ok _ =>
      rw [ready_of_started hsound hresult] at hready
      cases hready

/-! ### No deadlock -/

theorem exists_incomplete (hsound : Sound ledger.owners ledger.tasks)
    (h : ledger.allRequiredComplete false = .ok false) :
    ∃ record ∈ ledger.requiredTasks, record.status ≠ .completed := by
  rw [allRequiredComplete_eq hsound] at h
  have hall := Except.ok.inj h
  simpa using hall

theorem exists_ready (hsound : Sound ledger.owners ledger.tasks) (hidle : ledger.Idle)
    (hincomplete : ledger.allRequiredComplete false = .ok false)
    (hopen : ∀ record ∈ ledger.tasks, ledger.Needed record.taskId →
      record.status ≠ .blocked ∧ record.attempts < record.maxAttempts.val) :
    ∃ taskId, ledger.Needed taskId ∧ ledger.isReady taskId = .ok true := by
  obtain ⟨root, hroot, hstatus⟩ := exists_incomplete hsound hincomplete
  have hmem : root ∈ ledger.tasks := (List.mem_filter.mp hroot).1
  have hroot' : isCompleted ledger.tasks root.taskId ≠ true := by
    rw [Ne, isCompleted_eq_true, findTask_of_mem hsound.unique hmem]
    rintro ⟨_, ⟨⟩, hcompleted⟩
    exact hstatus hcompleted
  -- the lowest unfinished task below the root has only finished dependencies
  obtain ⟨taskId, hreach, hunfinished, hlowest⟩ :=
    exists_minimal_dependency (closedUnder_activeIds hsound) (fun taskId _ => hsound.acyclic taskId)
      (p := fun taskId => isCompleted ledger.tasks taskId ≠ true)
      (required_mem_activeIds hroot) hroot'
  have hneeded : ledger.Needed taskId := ⟨root, hroot, hreach⟩
  obtain ⟨record, hrecord, rfl, hactive⟩ := hneeded.exists_record hsound
  obtain ⟨hblocked, hattempts⟩ := hopen record hrecord hneeded
  have hfind := findTask_of_mem hsound.unique hrecord
  have hnotcompleted : record.status ≠ .completed := by
    intro hcompleted
    exact hunfinished (isCompleted_eq_true.mpr ⟨record, hfind, hcompleted⟩)
  have hstartable : isStartable record = true := by
    refine isStartable_iff.mpr ⟨?_, hattempts⟩
    have hnotprogress := hidle record hrecord
    cases hstatus : record.status <;> simp_all
  refine ⟨record.taskId, hneeded, ?_⟩
  rw [isReady_eq hsound hrecord hactive]
  congr 1
  refine ready_eq_true.mpr ⟨record, hfind, hstartable, fun dependency hdependency => ?_⟩
  have hedge : dependency ∈ dependencies ledger.tasks record.taskId := by
    rwa [dependencies_of_mem hsound.unique hrecord]
  exact not_not.mp (hlowest dependency hedge)

/-! ### Without a new plan -/

/-- The tasks of the required work are as they were. -/
def KeepsNeeded (ledger ledger' : TaskLedger V) : Prop :=
  ∀ taskId, ledger.Needed taskId → findTask ledger'.tasks taskId = findTask ledger.tasks taskId

theorem Needed.dependency {dependency : String} (h : ledger.Needed taskId)
    (hfind : findTask ledger.tasks taskId = some record) (hmem : dependency ∈ record.dependsOn) :
    ledger.Needed dependency := by
  obtain ⟨root, hroot, hreach⟩ := h
  have hedge : DependsOn (dependencies ledger.tasks) taskId dependency := by
    rw [Lib.DependsOn, dependencies, hfind]
    exact hmem
  exact ⟨root, hroot, hreach.tail hedge⟩

variable {ledger' : TaskLedger V}

theorem KeepsNeeded.ready (h : KeepsNeeded ledger ledger')
    (hneeded : ledger.Needed taskId) (hready : ledger'.ready taskId = true) :
    ledger.ready taskId = true := by
  obtain ⟨record, hfind, hstartable, hdone⟩ := ready_eq_true.mp hready
  rw [h taskId hneeded] at hfind
  refine ready_eq_true.mpr ⟨record, hfind, hstartable, fun dependency hdependency => ?_⟩
  obtain ⟨found, hfound, hcompleted⟩ := isCompleted_eq_true.mp (hdone dependency hdependency)
  rw [h dependency (hneeded.dependency hfind hdependency)] at hfound
  exact isCompleted_eq_true.mpr ⟨found, hfound, hcompleted⟩

theorem TaskChange.keepsNeeded {ledger' ledger'' : TaskLedger V} {started : Option String}
    (hidle : ledger.Idle) (hstuck : ∀ taskId, ledger.Needed taskId → ledger.ready taskId = false)
    (hsound' : Sound ledger'.owners ledger'.tasks) (hkeeps : KeepsNeeded ledger ledger')
    (h : TaskChange ledger' false started ledger''.tasks) : KeepsNeeded ledger ledger'' := by
  intro taskId hneeded
  rw [← hkeeps taskId hneeded]
  generalize htasks : ledger''.tasks = tasks'' at h
  cases h with
  | start dispatch record hfind hvalid =>
    have hready := ready_of_isReady hsound' (validateDispatch_eq_ok hvalid).2.1
    have hne : record.taskId ≠ taskId := by
      rintro rfl
      rw [← (findTask_some hfind).2] at hready
      have hbefore := hkeeps.ready hneeded hready
      rw [hstuck _ hneeded] at hbefore
      cases hbefore
    rw [findTask_upsert, if_neg hne]
  | close record record' hfind hprogress hsame _ =>
    have hne : record'.taskId ≠ taskId := by
      rintro rfl
      rw [hsame.taskId] at hneeded
      rw [hkeeps _ hneeded] at hfind
      exact hidle record (findTask_some hfind).1 hprogress
    rw [findTask_upsert, if_neg hne]
  | same => rfl

theorem keepsNeeded_after (same : V → V → Bool) (hidle : ledger.Idle)
    (hstuck : ∀ taskId, ledger.Needed taskId → ledger.ready taskId = false)
    {later : List (LedgerCall V)} (hlater : ∀ call ∈ later, call.plans = false)
    (hlawful : Lawful ledger') (hkeeps : KeepsNeeded ledger ledger') :
    KeepsNeeded ledger (after same ledger' later) := by
  induction later generalizing ledger' with
  | nil => exact hkeeps
  | cons call later ih =>
    refine ih (fun other hother => hlater other (List.mem_cons_of_mem _ hother))
      (lawful_run same call hlawful).1 ?_
    have hend := run_final same call ledger'
    show KeepsNeeded ledger (call.run same ledger').final
    split at hend
    · have hchange := hend.tasks
      rw [hlater call List.mem_cons_self] at hchange
      exact hchange.keepsNeeded hidle hstuck hlawful.tasks hkeeps
    · rw [hend]
      exact hkeeps

theorem KeepsNeeded.incomplete (h : KeepsNeeded ledger ledger')
    (hsound : Sound ledger.owners ledger.tasks) (hsound' : Sound ledger'.owners ledger'.tasks)
    (hincomplete : ledger.allRequiredComplete false = .ok false) (flag : Bool) :
    ledger'.allRequiredComplete flag = .ok false := by
  obtain ⟨root, hroot, hstatus⟩ := exists_incomplete hsound hincomplete
  obtain ⟨hmem, hrequired⟩ := List.mem_filter.mp hroot
  have hfind := h root.taskId ⟨root, hroot, .refl⟩
  rw [findTask_of_mem hsound.unique hmem] at hfind
  have hroot' : root ∈ ledger'.requiredTasks :=
    List.mem_filter.mpr ⟨(findTask_some hfind).1, hrequired⟩
  rw [allRequiredComplete_eq hsound']
  congr 1
  rw [List.all_eq_false]
  exact ⟨root, hroot', by simp [hstatus]⟩

theorem unrecoverable_iff (hsound : Sound ledger.owners ledger.tasks) :
    ledger.requiredWorkIsUnrecoverable = .ok true ↔
      ledger.allRequiredComplete false = .ok false ∧
        ∀ taskId, ledger.Needed taskId → ledger.ready taskId = false := by
  rw [requiredWorkIsUnrecoverable_eq hsound, allRequiredComplete_eq hsound]
  simp only [Except.ok.injEq, Bool.and_eq_true, Bool.not_eq_true', Bool.not_false, Bool.true_or,
    Bool.and_true, List.any_eq_false, mem_neededTasks hsound, Bool.not_eq_true]

/-- A team with no open attempt is stuck only through blocked or exhausted required work; the ledger
calls it unrecoverable exactly when it refuses every dispatch of incomplete required work; and then
only a new plan can bring the required work to completion. -/
theorem stuck_only_by_blocked_or_exhausted (same : V → V → Bool)
    (owners : { owners : List String // owners ≠ [] }) (settings : MultiAgentSettings)
    (calls : List (LedgerCall V)) (hidle : (after same (create owners settings) calls).Idle) :
    let ledger := after same (create owners settings) calls
    (ledger.allRequiredComplete false ≠ .ok true →
      (∀ record ∈ ledger.tasks, ledger.Needed record.taskId →
        record.status ≠ .blocked ∧ record.attempts < record.maxAttempts.val) →
      ∃ taskId, ledger.Needed taskId ∧ ledger.isReady taskId = .ok true) ∧
    (ledger.requiredWorkIsUnrecoverable = .ok true ↔
      ledger.allRequiredComplete false = .ok false ∧
        ∀ taskId, ledger.Needed taskId → ledger.Refuses taskId) ∧
    (ledger.requiredWorkIsUnrecoverable = .ok true →
      ∀ later : List (LedgerCall V), (∀ call ∈ later, call.plans = false) →
        ∀ flag, (after same ledger later).allRequiredComplete flag = .ok false) := by
  intro ledger
  have hlawful : Lawful ledger := (lawful_after same calls (lawful_create owners settings)).1
  have hsound := hlawful.tasks
  refine ⟨?_, ?_, ?_⟩
  · intro hincomplete hopen
    refine exists_ready hsound hidle ?_ hopen
    rw [allRequiredComplete_eq hsound] at hincomplete ⊢
    simpa using hincomplete
  · rw [unrecoverable_iff hsound]
    refine and_congr_right fun _ => ?_
    exact forall_congr' fun taskId => imp_congr_right fun hneeded =>
      (refuses_iff hsound hneeded).symm
  · intro hunrecoverable later hlater flag
    obtain ⟨hincomplete, hstuck⟩ := (unrecoverable_iff hsound).mp hunrecoverable
    have hkeeps := keepsNeeded_after same hidle hstuck hlater hlawful fun _ _ => rfl
    exact hkeeps.incomplete hsound (lawful_after same later hlawful).1.tasks hincomplete flag

def blockedCalls : List (LedgerCall Unit) :=
  let spec (taskId : String) (dependsOn : List String) : TaskSpec Unit :=
    ⟨taskId, "goal", none, dependsOn, true, [], none, none, []⟩
  [.applyPlan ⟨"plan", [spec "build" [], spec "ship" ["build"]], [], [], [], [], none⟩ false,
    .startTask ⟨1, "build", "worker", 1⟩,
    .recordDispatchFailure "build" "worker" ⟨"denied", "no approval", false, []⟩ true]

def smallSettings : MultiAgentSettings :=
  ⟨⟨20, by decide⟩, 3, ⟨3, by decide⟩, ⟨3, by decide⟩, false, false, true, ⟨500, by decide⟩⟩

theorem blockedCalls_stay_incomplete :
    let ledger := after (fun _ _ => true) (create ⟨["worker"], by decide⟩ smallSettings) blockedCalls
    ledger.requiredWorkIsUnrecoverable = .ok true ∧
      ∀ later : List (LedgerCall Unit), (∀ call ∈ later, call.plans = false) →
        ∀ flag, (after (fun _ _ => true) ledger later).allRequiredComplete flag = .ok false := by
  intro ledger
  have hidle : ∀ record ∈ ledger.tasks, record.status ≠ .inProgress := by decide +kernel
  have hstuck : ledger.requiredWorkIsUnrecoverable = .ok true := by decide +kernel
  exact ⟨hstuck, (stuck_only_by_blocked_or_exhausted (fun _ _ => true) ⟨["worker"], by decide⟩
    smallSettings blockedCalls hidle).2.2 hstuck⟩

end TaskLedger

end VidbyteSdk.Agents.Multi

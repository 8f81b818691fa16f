import VidbyteSdk.Agents.Multi.LedgerInvariant

/-!
# Histories of the task ledger

What one accepted call does to a reachable ledger, and what follows for every run from an empty one.
-/

namespace VidbyteSdk.Agents.Multi

open VidbyteSdk.Lib

variable {V : Type}

namespace TaskLedger

/-! ### One call -/

section Change

variable {ledger : TaskLedger V} {plans : Bool} {started : Option String} {tasks' : List (TaskRecord V)}

theorem TaskChange.sound (h : TaskChange ledger plans started tasks')
    (hsound : Sound ledger.owners ledger.tasks) : Sound ledger.owners tasks' := by
  cases h with
  | plan plan _ hempty hcandidate =>
    rw [planCandidate_of_empty hempty] at hcandidate
    exact sound_replanCandidate hcandidate hsound
  | replan plan _ hcandidate => exact sound_replanCandidate hcandidate hsound
  | start dispatch record hfind hvalid =>
    obtain ⟨howner, hready, -⟩ := validateDispatch_eq_ok hvalid
    obtain ⟨record', hfind', hstartable, hdone⟩ := isReady_eq_true hready
    rw [hfind] at hfind'
    cases hfind'
    have hstatus := (isStartable_iff.mp hstartable).1
    have hrecord : findTask ledger.tasks record.taskId = some record := by
      rw [(findTask_some hfind).2, hfind]
    refine hsound.update hrecord rfl ?_ ?_ nofun ?_ fun _ => hdone
    · rcases hstatus with h | h <;> simp [h]
    · rcases hstatus with h | h <;> simp [h]
    · rintro owner ⟨⟩
      exact howner
  | close record record' hfind hprogress hsame hclosed =>
    obtain ⟨hmem, -⟩ := findTask_some hfind
    have hactive : record.status ≠ .superseded := by simp [hprogress]
    have hactive' : record'.status ≠ .superseded := by
      rcases hclosed with h | h | h <;> simp [h]
    refine hsound.update (by rwa [hsame.taskId]) hsame.dependsOn hactive (by simp [hprogress])
      hactive' ?_ fun _ => hsound.finished record hmem (.inl hprogress)
    rw [hsame.owner]
    exact (hsound.active record hmem hactive).owner
  | same => exact hsound

theorem TaskChange.extends (h : TaskChange ledger plans started tasks')
    (hunique : UniqueIds ledger.tasks) : Extends ledger.tasks tasks' := by
  cases h with
  | plan plan _ hempty hcandidate =>
    rw [planCandidate_of_empty hempty] at hcandidate
    exact extends_replanCandidate hcandidate hunique
  | replan plan _ hcandidate => exact extends_replanCandidate hcandidate hunique
  | start dispatch record hfind hvalid =>
    obtain ⟨-, hready, hattempt⟩ := validateDispatch_eq_ok hvalid
    obtain ⟨record', hfind', hstartable, -⟩ := isReady_eq_true hready
    rw [hfind] at hfind'
    cases hfind'
    have hrecord : findTask ledger.tasks record.taskId = some record := by
      rw [(findTask_some hfind).2, hfind]
    refine Extends.update hunique hrecord ⟨rfl, ?_, ?_, ?_, List.prefix_rfl⟩
    · rcases (isStartable_iff.mp hstartable).1 with h | h <;> simp [h]
    · rcases (isStartable_iff.mp hstartable).1 with h | h <;> simp [h]
    · show record.attempts ≤ dispatch.attempt
      omega
  | close record record' hfind hprogress hsame hclosed =>
    refine Extends.update hunique (by rwa [hsame.taskId])
      ⟨hsame.taskId, ?_, ?_, hsame.attempts.ge, hsame.evidence⟩
    · simp [hprogress]
    · simp [hprogress]
  | same => exact Extends.refl _

theorem TaskChange.attemptsOf (h : TaskChange ledger plans started tasks')
    (hunique : UniqueIds ledger.tasks) (taskId : String) :
    attemptsOf tasks' taskId
      = attemptsOf ledger.tasks taskId + if started = some taskId then 1 else 0 := by
  cases h with
  | plan plan _ hempty hcandidate =>
    rw [planCandidate_of_empty hempty] at hcandidate
    exact attemptsOf_replanCandidate hcandidate hunique taskId
  | replan plan _ hcandidate => exact attemptsOf_replanCandidate hcandidate hunique taskId
  | start dispatch record hfind hvalid =>
    obtain ⟨-, -, hattempt⟩ := validateDispatch_eq_ok hvalid
    obtain ⟨hmem, hid⟩ := findTask_some hfind
    rw [attemptsOf_upsert]
    simp only [Option.some.injEq, hid]
    by_cases h : dispatch.taskId = taskId
    · rw [if_pos h, if_pos h, ← h, ← hid, attemptsOf_of_mem hunique hmem, hattempt]
    · rw [if_neg h, if_neg h]
      rfl
  | close record record' hfind hprogress hsame hclosed =>
    obtain ⟨hmem, -⟩ := findTask_some hfind
    rw [attemptsOf_upsert]
    by_cases h : record'.taskId = taskId
    · rw [if_pos h, ← h, hsame.taskId, attemptsOf_of_mem hunique hmem, hsame.attempts]
      rfl
    · rw [if_neg h]
      rfl
  | same => rfl

theorem TaskChange.isReady {taskId : String} (h : TaskChange ledger plans (some taskId) tasks') :
    ledger.isReady taskId = .ok true := by
  cases h with
  | start dispatch record hfind hvalid => exact (validateDispatch_eq_ok hvalid).2.1

theorem TaskChange.attempt_left {taskId : String} (h : TaskChange ledger plans (some taskId) tasks') :
    ∃ record ∈ ledger.tasks, record.taskId = taskId ∧ record.attempts < record.maxAttempts.val := by
  obtain ⟨record, hfind, hstartable, -⟩ := isReady_eq_true h.isReady
  obtain ⟨hmem, hid⟩ := findTask_some hfind
  exact ⟨record, hmem, hid, (isStartable_iff.mp hstartable).2⟩

end Change

/-! ### Events -/

/-- The retained events are the last ones, without a gap, and no more than configured. -/
structure EventsInOrder (ledger : TaskLedger V) : Prop where
  contiguous : ledger.events.map (·.index)
    = List.range' (ledger.eventIndex - ledger.events.length) ledger.events.length
  counted : ledger.events.length ≤ ledger.eventIndex
  bounded : ledger.events.length ≤ ledger.settings.maxEvents.val

theorem map_index_retained {maxEvents : Positive} {events : List LedgerEvent} {start : ℕ}
    (h : events.map (·.index) = List.range' start events.length) :
    (retained maxEvents events).map (·.index)
      = List.range' (start + events.length - (retained maxEvents events).length)
          (retained maxEvents events).length := by
  unfold retained
  split
  · rw [List.map_drop, h, List.drop_range', List.length_drop]
    congr 1
    omega
  · rw [h]
    congr 1
    omega

theorem length_retained_le (maxEvents : Positive) (events : List LedgerEvent) :
    (retained maxEvents events).length ≤ maxEvents.val ∧
      (retained maxEvents events).length ≤ events.length := by
  unfold retained
  split
  · rw [List.length_drop]
    omega
  · omega

theorem Committed.eventsInOrder {ledger ledger' : TaskLedger V} (h : Committed ledger ledger')
    (horder : EventsInOrder ledger) : EventsInOrder ledger' := by
  obtain ⟨event, hindex, -, hevents⟩ := h.events
  obtain ⟨hcontiguous, hcounted, -⟩ := horder
  have hall : (ledger.events ++ [event]).map (·.index)
      = List.range' (ledger.eventIndex - ledger.events.length)
          (ledger.events ++ [event]).length := by
    rw [List.map_append, hcontiguous, List.length_append, List.length_singleton,
      List.range'_1_concat, List.map_singleton, hindex]
    congr 2
    omega
  obtain ⟨hmax, hlen⟩ :=
    length_retained_le ledger.settings.maxEvents (ledger.events ++ [event])
  rw [List.length_append, List.length_singleton] at hlen
  refine ⟨?_, ?_, ?_⟩
  · rw [hevents, map_index_retained hall, h.eventIndex, List.length_append, List.length_singleton]
    congr 1
    omega
  · rw [hevents, h.eventIndex]
    omega
  · rw [hevents, h.settings]
    exact hmax

/-! ### Runs -/

structure Lawful (ledger : TaskLedger V) : Prop where
  tasks : Sound ledger.owners ledger.tasks
  events : EventsInOrder ledger

theorem lawful_create (owners : { owners : List String // owners ≠ [] })
    (settings : MultiAgentSettings) : Lawful (create owners settings : TaskLedger V) :=
  ⟨Sound.nil, ⟨rfl, Nat.le_refl _, Nat.zero_le _⟩⟩

theorem Moved.lawful {call : LedgerCall V} {ledger ledger' : TaskLedger V}
    (h : Moved call ledger ledger') (hlawful : Lawful ledger) : Lawful ledger' where
  tasks := h.committed.owners ▸ h.tasks.sound hlawful.tasks
  events := h.committed.eventsInOrder hlawful.events

def after (same : V → V → Bool) (ledger : TaskLedger V) (calls : List (LedgerCall V)) :
    TaskLedger V :=
  calls.foldl (fun ledger call => (call.run same ledger).final) ledger

theorem after_concat (same : V → V → Bool) (ledger : TaskLedger V) (calls : List (LedgerCall V))
    (call : LedgerCall V) :
    after same ledger (calls ++ [call]) = (call.run same (after same ledger calls)).final := by
  rw [after, List.foldl_append]
  rfl

theorem run_final (same : V → V → Bool) (call : LedgerCall V) (ledger : TaskLedger V) :
    match (call.run same ledger).result with
    | .ok _ => Moved call ledger (call.run same ledger).final
    | .error _ => (call.run same ledger).final = ledger := by
  have hend := (run_spec same ledger call).2
  cases hresult : (call.run same ledger).result with
  | ok _ =>
    rw [hresult] at hend
    exact hend
  | error _ =>
    rw [hresult] at hend
    exact hend

theorem lawful_run (same : V → V → Bool) (call : LedgerCall V) {ledger : TaskLedger V}
    (h : Lawful ledger) : Lawful (call.run same ledger).final ∧
      Extends ledger.tasks (call.run same ledger).final.tasks := by
  have hfinal := run_final same call ledger
  split at hfinal
  · exact ⟨hfinal.lawful h, hfinal.tasks.extends h.tasks.unique⟩
  · rw [hfinal]
    exact ⟨h, Extends.refl _⟩

theorem lawful_after (same : V → V → Bool) (calls : List (LedgerCall V)) {ledger : TaskLedger V}
    (h : Lawful ledger) : Lawful (after same ledger calls) ∧
      Extends ledger.tasks (after same ledger calls).tasks := by
  induction calls generalizing ledger with
  | nil => exact ⟨h, Extends.refl _⟩
  | cons call calls ih =>
    obtain ⟨hnext, hextends⟩ := lawful_run same call h
    obtain ⟨hlast, hextends'⟩ := ih hnext
    exact ⟨hlast, hextends.trans hextends'⟩

structure Accepted (call : LedgerCall V) (ledger ledger' : TaskLedger V) : Prop where
  revision : ledger'.revision = ledger.revision + 1
  eventIndex : ledger'.eventIndex = ledger.eventIndex + 1
  attempts : ∀ taskId, Multi.attemptsOf ledger'.tasks taskId
    = Multi.attemptsOf ledger.tasks taskId + if call.startedTask = some taskId then 1 else 0
  attempt_left : ∀ taskId, call.startedTask = some taskId → ∃ record ∈ ledger.tasks,
    record.taskId = taskId ∧ record.attempts < record.maxAttempts.val

theorem Moved.accepted {call : LedgerCall V} {ledger ledger' : TaskLedger V}
    (h : Moved call ledger ledger') (hlawful : Lawful ledger) : Accepted call ledger ledger' where
  revision := h.committed.revision
  eventIndex := h.committed.eventIndex
  attempts := h.tasks.attemptsOf hlawful.tasks.unique
  attempt_left := fun _ hstarted => TaskChange.attempt_left (hstarted ▸ h.tasks)

/-- Every run from an empty ledger keeps the invariant; a later ledger extends an earlier one; and a
further call adds exactly what `Accepted` says, or raises and changes nothing. -/
theorem invariant_of_run (same : V → V → Bool) (owners : { owners : List String // owners ≠ [] })
    (settings : MultiAgentSettings) (calls later : List (LedgerCall V)) (call : LedgerCall V) :
    let ledger := after same (create owners settings) calls
    Lawful ledger ∧
      Extends ledger.tasks (after same ledger later).tasks ∧
      match (call.run same ledger).result with
      | .ok _ => Accepted call ledger (call.run same ledger).final
      | .error _ => (call.run same ledger).final = ledger := by
  intro ledger
  have hlawful : Lawful ledger := (lawful_after same calls (lawful_create owners settings)).1
  refine ⟨hlawful, (lawful_after same later hlawful).2, ?_⟩
  have hfinal := run_final same call ledger
  split
  · next hresult =>
    rw [hresult] at hfinal
    exact hfinal.accepted hlawful
  · next hresult =>
    rw [hresult] at hfinal
    exact hfinal

end TaskLedger

end VidbyteSdk.Agents.Multi

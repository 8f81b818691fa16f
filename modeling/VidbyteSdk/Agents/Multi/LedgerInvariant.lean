import VidbyteSdk.Agents.Multi.LedgerRuns

/-!
# The invariant of the task ledger

`Sound` is what the tasks of every reachable ledger satisfy; `Extends` is what a later ledger of the
same run keeps of an earlier one.
-/

namespace VidbyteSdk.Agents.Multi

open VidbyteSdk.Lib

variable {V : Type} {owners : List String} {tasks : List (TaskRecord V)}
  {record record' : TaskRecord V}

/-- What the tasks of a reachable ledger satisfy. -/
structure Sound (owners : List String) (tasks : List (TaskRecord V)) : Prop where
  unique : UniqueIds tasks
  active : ∀ record ∈ tasks, record.status ≠ .superseded → ActiveTask owners tasks record
  acyclic : ∀ taskId, ¬ Relation.TransGen (DependsOn (dependencies tasks)) taskId taskId
  /-- Work starts, and ends well, only on finished dependencies. -/
  finished : ∀ record ∈ tasks, record.status = .inProgress ∨ record.status = .completed →
    ∀ dependency ∈ record.dependsOn, ∃ found ∈ tasks,
      found.taskId = dependency ∧ found.status = .completed

theorem Sound.nil : Sound owners ([] : List (TaskRecord V)) where
  unique := List.nodup_nil
  active := fun _ hmem => nomatch hmem
  acyclic := by
    intro taskId h
    obtain ⟨_, hedge, -⟩ := Relation.TransGen.head'_iff.mp h
    cases hedge
  finished := fun _ hmem => nomatch hmem

/-! ### One task replaced -/

/-- A task that is there before a write is there after it, in its own form or the new one. -/
theorem exists_mem_upsert {found : TaskRecord V} (hmem : found ∈ tasks) :
    ∃ found' ∈ upsert (·.taskId) record' tasks, found'.taskId = found.taskId ∧
      (found' = found ∨ found' = record') := by
  by_cases h : found.taskId = record'.taskId
  · exact ⟨record', mem_upsert_self, h.symm, .inr rfl⟩
  · exact ⟨found, mem_upsert.mpr (.inr ⟨hmem, h⟩), rfl, .inl rfl⟩

theorem mem_upsert_of_ne (hunique : UniqueIds tasks)
    (hfind : findTask tasks record'.taskId = some record) {found : TaskRecord V}
    (hmem : found ∈ tasks) (hne : found ≠ record) : found ∈ upsert (·.taskId) record' tasks := by
  obtain ⟨hrecord, hid⟩ := findTask_some hfind
  apply mem_upsert.mpr
  right
  refine ⟨hmem, fun h => hne ?_⟩
  exact hunique.eq hrecord hmem (h.trans hid.symm)

theorem Sound.update (h : Sound owners tasks)
    (hfind : findTask tasks record'.taskId = some record)
    (hdeps : record'.dependsOn = record.dependsOn) (hactive : record.status ≠ .superseded)
    (hopen : record.status ≠ .completed) (hactive' : record'.status ≠ .superseded)
    (howner : ∀ owner ∈ record'.owner, owner ∈ owners)
    (hfinished : record'.status = .inProgress ∨ record'.status = .completed →
      ∀ dependency ∈ record.dependsOn, ∃ found ∈ tasks,
        found.taskId = dependency ∧ found.status = .completed) :
    Sound owners (upsert (·.taskId) record' tasks) := by
  obtain ⟨hrecord, -⟩ := findTask_some hfind
  have hpresent : ∀ dependency,
      (∃ found ∈ tasks, found.taskId = dependency ∧ found.status ≠ .superseded) →
        ∃ found ∈ upsert (·.taskId) record' tasks,
          found.taskId = dependency ∧ found.status ≠ .superseded := by
    rintro dependency ⟨found, hmem, hid, hstatus⟩
    obtain ⟨found', hmem', hid', hform⟩ := exists_mem_upsert hmem
    refine ⟨found', hmem', hid'.trans hid, ?_⟩
    rcases hform with rfl | rfl
    · exact hstatus
    · exact hactive'
  have hcompleted : ∀ dependency,
      (∃ found ∈ tasks, found.taskId = dependency ∧ found.status = .completed) →
        ∃ found ∈ upsert (·.taskId) record' tasks,
          found.taskId = dependency ∧ found.status = .completed := by
    rintro dependency ⟨found, hmem, hid, hstatus⟩
    refine ⟨found, mem_upsert_of_ne h.unique hfind hmem ?_, hid, hstatus⟩
    rintro rfl
    exact hopen hstatus
  constructor
  · exact nodup_map_key_upsert h.unique
  · intro r hr hstatus
    rcases mem_upsert.mp hr with rfl | ⟨hr, -⟩
    · have hold := h.active record hrecord hactive
      exact ⟨howner, hdeps ▸ hold.distinct, fun dependency hmem =>
        hpresent dependency (hold.present dependency (hdeps ▸ hmem))⟩
    · have hold := h.active r hr hstatus
      exact ⟨hold.owner, hold.distinct, fun dependency hmem =>
        hpresent dependency (hold.present dependency hmem)⟩
  · rw [dependencies_upsert hfind hdeps]
    exact h.acyclic
  · intro r hr hstatus dependency hmem
    apply hcompleted
    rcases mem_upsert.mp hr with rfl | ⟨hr, -⟩
    · exact hfinished hstatus dependency (hdeps ▸ hmem)
    · exact h.finished r hr hstatus dependency hmem

/-! ### What a later ledger keeps -/

structure Kept (record record' : TaskRecord V) : Prop where
  taskId : record'.taskId = record.taskId
  completed : record.status = .completed → record' = record
  superseded : record.status = .superseded → record' = record
  attempts : record.attempts ≤ record'.attempts
  evidence : record.evidence <+: record'.evidence

theorem Kept.refl (record : TaskRecord V) : Kept record record :=
  ⟨rfl, fun _ => rfl, fun _ => rfl, Nat.le_refl _, List.prefix_rfl⟩

theorem Kept.trans {r s t : TaskRecord V} (h : Kept r s) (h' : Kept s t) : Kept r t where
  taskId := h'.taskId.trans h.taskId
  completed := by
    intro hcompleted
    obtain rfl := h.completed hcompleted
    exact h'.completed hcompleted
  superseded := by
    intro hsuperseded
    obtain rfl := h.superseded hsuperseded
    exact h'.superseded hsuperseded
  attempts := h.attempts.trans h'.attempts
  evidence := h.evidence.trans h'.evidence

/-- No task disappears, and each keeps what it keeps for good. -/
def Extends (tasks tasks' : List (TaskRecord V)) : Prop :=
  ∀ record ∈ tasks, ∃ record' ∈ tasks', Kept record record'

theorem Extends.refl (tasks : List (TaskRecord V)) : Extends tasks tasks :=
  fun record hmem => ⟨record, hmem, Kept.refl record⟩

theorem Extends.trans {tasks' tasks'' : List (TaskRecord V)} (h : Extends tasks tasks')
    (h' : Extends tasks' tasks'') : Extends tasks tasks'' := by
  intro record hmem
  obtain ⟨record', hmem', hkept⟩ := h record hmem
  obtain ⟨record'', hmem'', hkept'⟩ := h' record' hmem'
  exact ⟨record'', hmem'', hkept.trans hkept'⟩

theorem Extends.update (hunique : UniqueIds tasks)
    (hfind : findTask tasks record'.taskId = some record) (hkept : Kept record record') :
    Extends tasks (upsert (·.taskId) record' tasks) := by
  intro found hmem
  by_cases h : found = record
  · subst h
    exact ⟨record', mem_upsert_self, hkept⟩
  · exact ⟨found, mem_upsert_of_ne hunique hfind hmem h, Kept.refl found⟩

def attemptsOf (tasks : List (TaskRecord V)) (taskId : String) : ℕ :=
  ((findTask tasks taskId).map (·.attempts)).getD 0

theorem attemptsOf_of_mem (hunique : UniqueIds tasks) (hmem : record ∈ tasks) :
    attemptsOf tasks record.taskId = record.attempts := by
  rw [attemptsOf, findTask_of_mem hunique hmem]
  rfl

theorem attemptsOf_upsert (taskId : String) :
    attemptsOf (upsert (·.taskId) record' tasks) taskId
      = if record'.taskId = taskId then record'.attempts else attemptsOf tasks taskId := by
  rw [attemptsOf, findTask_upsert, attemptsOf]
  split
  · rfl
  · rfl

/-! ### Replans -/

namespace TaskLedger

variable {ledger : TaskLedger V} {plan : OrchestratorPlan V} {candidate : List (TaskRecord V)}

theorem mem_omitted {specs : List (TaskSpec V)} :
    record ∈ ledger.omitted specs ↔ ∃ old ∈ ledger.tasks, old.taskId ∉ specs.map (·.taskId) ∧
      record = if old.status = .completed then old else { old with status := .superseded } := by
  rw [omitted, List.mem_map]
  constructor
  · rintro ⟨old, hold, rfl⟩
    obtain ⟨hmem, hnot⟩ := List.mem_filter.mp hold
    exact ⟨old, hmem, of_decide_eq_true hnot, rfl⟩
  · rintro ⟨old, hmem, hnot, rfl⟩
    exact ⟨old, List.mem_filter.mpr ⟨hmem, decide_eq_true hnot⟩, rfl⟩

theorem map_taskId_omitted (specs : List (TaskSpec V)) :
    (ledger.omitted specs).map (·.taskId)
      = (ledger.tasks.map (·.taskId)).filter fun taskId => taskId ∉ specs.map (·.taskId) := by
  rw [omitted, List.map_map, List.filter_map]
  apply List.map_congr_left
  intro record _
  show TaskRecord.taskId (if _ then _ else _) = _
  split <;> rfl

variable (h : ledger.replanCandidate plan = .ok candidate)

include h

theorem uniqueIds_replanCandidate (hunique : UniqueIds ledger.tasks) : UniqueIds candidate := by
  obtain ⟨records, hrecords, rfl, hnodup, -⟩ := replanCandidate_eq_ok h
  rw [UniqueIds, List.map_append, map_taskId_replanned hrecords, map_taskId_omitted,
    List.nodup_append]
  refine ⟨hnodup, hunique.filter _, ?_⟩
  rintro taskId hplan _ homitted rfl
  exact of_decide_eq_true (List.mem_filter.mp homitted).2 hplan

theorem replanCandidate_origin (hmem : record ∈ candidate) :
    (record.status = .completed ∧ record ∈ ledger.tasks) ∨
      (record.status = .pending ∧
        (findTask ledger.tasks record.taskId = none → record.attempts = 0)) ∨
      (record.status = .superseded ∧ ∃ old ∈ ledger.tasks,
        old.taskId = record.taskId ∧ old.dependsOn = record.dependsOn) := by
  obtain ⟨records, hrecords, rfl, -, -⟩ := replanCandidate_eq_ok h
  rcases List.mem_append.mp hmem with hmem | hmem
  · obtain ⟨spec, -, hspec⟩ := exists_replanned_of_mem hrecords hmem
    rcases replanned_cases hspec with ⟨-, rfl⟩ | ⟨hfind, hcompleted⟩ | ⟨old, hfind, -, -, rfl⟩
    · exact .inr (.inl ⟨rfl, fun _ => rfl⟩)
    · exact .inl ⟨hcompleted, (findTask_some hfind).1⟩
    · refine .inr (.inl ⟨rfl, fun hnone => ?_⟩)
      have hid : old.taskId = spec.taskId := (findTask_some hfind).2
      have hsome : findTask ledger.tasks old.taskId = some old := hid ▸ hfind
      exact absurd (hsome.symm.trans hnone) nofun
  · obtain ⟨old, hold, -, rfl⟩ := mem_omitted.mp hmem
    split
    · next hcompleted => exact .inl ⟨hcompleted, hold⟩
    · exact .inr (.inr ⟨rfl, old, hold, rfl, rfl⟩)

theorem replanCandidate_carries {old : TaskRecord V} (hunique : UniqueIds ledger.tasks)
    (hold : old ∈ ledger.tasks) :
    ∃ record ∈ candidate, Kept old record ∧ record.attempts = old.attempts := by
  obtain ⟨records, hrecords, rfl, -, -⟩ := replanCandidate_eq_ok h
  by_cases hplan : old.taskId ∈ plan.tasks.map (·.taskId)
  · obtain ⟨spec, hspec, hid⟩ := List.mem_map.mp hplan
    obtain ⟨record, hmem, hreplanned⟩ := exists_replanned_of_spec hrecords hspec
    refine ⟨record, List.mem_append_left _ hmem, ?_⟩
    have hfound : findTask ledger.tasks spec.taskId = some old := by
      rw [hid, findTask_of_mem hunique hold]
    rcases replanned_cases hreplanned with ⟨hnone, -⟩ | ⟨hfind, -⟩ |
      ⟨existing, hfind, hactive, hopen, rfl⟩
    · rw [hfound] at hnone
      cases hnone
    · rw [hfound] at hfind
      cases hfind
      exact ⟨Kept.refl old, rfl⟩
    · rw [hfound] at hfind
      cases hfind
      exact ⟨⟨rfl, (absurd · hopen), (absurd · hactive), Nat.le_refl _, List.prefix_rfl⟩, rfl⟩
  · refine ⟨_, List.mem_append_right _ (mem_omitted.mpr ⟨old, hold, hplan, rfl⟩), ?_⟩
    split
    · exact ⟨Kept.refl old, rfl⟩
    · next hopen =>
      refine ⟨⟨rfl, (absurd · hopen), ?_, Nat.le_refl _, List.prefix_rfl⟩, rfl⟩
      intro hsuperseded
      rw [← hsuperseded]

theorem extends_replanCandidate (hunique : UniqueIds ledger.tasks) :
    Extends ledger.tasks candidate := by
  intro old hold
  obtain ⟨record, hmem, hkept, -⟩ := replanCandidate_carries h hunique hold
  exact ⟨record, hmem, hkept⟩

theorem attemptsOf_replanCandidate (hunique : UniqueIds ledger.tasks) (taskId : String) :
    attemptsOf candidate taskId = attemptsOf ledger.tasks taskId := by
  have hunique' := uniqueIds_replanCandidate h hunique
  cases hfind : findTask ledger.tasks taskId with
  | some old =>
    obtain ⟨hold, rfl⟩ := findTask_some hfind
    obtain ⟨record, hmem, hkept, hattempts⟩ := replanCandidate_carries h hunique hold
    rw [attemptsOf_of_mem hunique hold, ← hattempts, ← attemptsOf_of_mem hunique' hmem,
      hkept.taskId]
  | none =>
    have hzero : attemptsOf ledger.tasks taskId = 0 := by
      rw [attemptsOf, hfind]
      rfl
    rw [hzero]
    cases hfind' : findTask candidate taskId with
    | none =>
      rw [attemptsOf, hfind']
      rfl
    | some record =>
      obtain ⟨hmem, rfl⟩ := findTask_some hfind'
      rw [attemptsOf_of_mem hunique' hmem]
      rcases replanCandidate_origin h hmem with ⟨-, hold⟩ | ⟨-, hnew⟩ | ⟨-, old, hold, hid, -⟩
      · rw [findTask_of_mem hunique hold] at hfind
        cases hfind
      · exact hnew hfind
      · rw [← hid, findTask_of_mem hunique hold] at hfind
        cases hfind

theorem acyclic_replanCandidate (hsound : Sound ledger.owners ledger.tasks) (taskId : String) :
    ¬ Relation.TransGen (DependsOn (dependencies candidate)) taskId taskId := by
  have hunique' := uniqueIds_replanCandidate h hsound.unique
  obtain ⟨records, -, -, -, hvalid⟩ := replanCandidate_eq_ok h
  have hactive := (validateCandidate_eq_ok hvalid).2
  intro hcycle
  have hedge : ∀ a b, DependsOn (dependencies candidate) a b →
      Relation.ReflTransGen (DependsOn (dependencies candidate)) b a →
        DependsOn (dependencies ledger.tasks) a b := by
    intro a b hab hba
    cases hfind : findTask candidate a with
    | none =>
      rw [Lib.DependsOn, dependencies, hfind] at hab
      cases hab
    | some record =>
      obtain ⟨hmem, rfl⟩ := findTask_some hfind
      have hsuperseded : record.status = .superseded := by
        by_contra hnot
        exact hactive record hmem hnot (Relation.TransGen.head' hab hba)
      rcases replanCandidate_origin h hmem with ⟨hstatus, -⟩ | ⟨hstatus, -⟩ |
        ⟨-, old, hold, hid, hdeps⟩
      · rw [hsuperseded] at hstatus
        cases hstatus
      · rw [hsuperseded] at hstatus
        cases hstatus
      · rw [Lib.DependsOn, dependencies_of_mem hunique' hmem] at hab
        rw [Lib.DependsOn, ← hid, dependencies_of_mem hsound.unique hold, hdeps]
        exact hab
  have hold : ∀ b, Relation.TransGen (DependsOn (dependencies candidate)) taskId b →
      Relation.ReflTransGen (DependsOn (dependencies candidate)) b taskId →
        Relation.TransGen (DependsOn (dependencies ledger.tasks)) taskId b := by
    intro b htaskb
    induction htaskb with
    | single hab => exact fun hback => .single (hedge _ _ hab hback)
    | tail htaskc hcb ih =>
      exact fun hback => (ih (.head hcb hback)).tail (hedge _ _ hcb (hback.trans htaskc.to_reflTransGen))
  exact hsound.acyclic taskId (hold taskId hcycle .refl)

theorem sound_replanCandidate (hsound : Sound ledger.owners ledger.tasks) :
    Sound ledger.owners candidate := by
  obtain ⟨records, -, -, -, hvalid⟩ := replanCandidate_eq_ok h
  refine ⟨uniqueIds_replanCandidate h hsound.unique, (validateCandidate_eq_ok hvalid).1,
    acyclic_replanCandidate h hsound, ?_⟩
  intro record hmem hstatus dependency hdependency
  rcases replanCandidate_origin h hmem with ⟨hcompleted, hold⟩ | ⟨hpending, -⟩ |
    ⟨hsuperseded, -⟩
  · obtain ⟨found, hfound, hid, hdone⟩ :=
      hsound.finished record hold hstatus dependency hdependency
    obtain ⟨found', hfound', hkept, -⟩ := replanCandidate_carries h hsound.unique hfound
    obtain rfl := hkept.completed hdone
    exact ⟨found', hfound', hid, hdone⟩
  · rw [hpending] at hstatus
    exact absurd hstatus (by decide)
  · rw [hsuperseded] at hstatus
    exact absurd hstatus (by decide)

end TaskLedger

end VidbyteSdk.Agents.Multi

import VidbyteSdk.Workflows.Refinement

/-!
# What a run commits

A candidate lives in one attempt record, the last one, until its decision is settled: the validators of
its stage have passed on it before it may commit, the guards of the selected target pass before it does,
and a redirect may not commit at all. `Accounted` says so in every phase; `committed_of_run` reads off
that whatever a run has committed was vetted at both boundaries.
-/

namespace VidbyteSdk.Workflows

open VidbyteSdk.Lib

variable {S W : Type}

/-! ### Records -/

def IsOpen (stages : List (StageExecution S)) (index : Nat) (record : StageExecution S) : Prop :=
  ∃ before, stages = before ++ [record] ∧ index = before.length ∧ record.accepted = false

variable {record : StageExecution S} {index : Nat}

theorem IsOpen.lt {stages : List (StageExecution S)}
    (h : IsOpen stages index record) : index < stages.length := by
  obtain ⟨before, rfl, rfl, -⟩ := h
  simp

theorem IsOpen.getElem? {stages : List (StageExecution S)}
    (h : IsOpen stages index record) : stages[index]? = some record := by
  obtain ⟨before, rfl, rfl, -⟩ := h
  exact List.getElem?_concat_length

def Untried (transitions : List (TransitionRecord S)) (index : Nat) : Prop :=
  ∀ t ∈ transitions, t.stageRecord ≠ some index

/-- The record of an attempt that made the candidate, with a pass of every validator of its stage. -/
structure Vetted (d : CompiledGraph S W) (stage : String) (candidate : S)
    (record : StageExecution S) : Prop where
  stage_eq : record.stage = stage
  errorType_eq : record.errorType = none
  candidate_eq : record.candidate = some candidate
  validators : ∃ definition, d.stages.lookup stage = some definition ∧
    (d.stateContract.Lawful →
      List.Forall₂ (Passed d.settings candidate) definition.validators record.validations)

def Carries (t : TransitionRecord S) (commit : Commit S) : Prop :=
  t.accepted = true ∧ t.sequence = commit.sequence ∧ t.target = commit.target ∧
    t.validations = commit.guards

/-- A commit with its record, its route, a pass of every guard of its target, and no other transition
for the same record. -/
structure Justified (d : CompiledGraph S W) (stages : List (StageExecution S))
    (transitions : List (TransitionRecord S)) (commit : Commit S) : Prop where
  record : ∃ index record, commit.stageRecord = some index ∧ stages[index]? = some record ∧
    record.accepted = true ∧ Vetted d commit.source commit.candidate record
  route : ∃ guards, d.routeFor commit.source commit.outcome commit.branchKey
      = some ⟨commit.target, guards⟩ ∧
    (d.stateContract.Lawful →
      List.Forall₂ (Passed d.settings commit.candidate) guards commit.guards)
  carried : ∀ t ∈ transitions, t.stageRecord = commit.stageRecord → Carries t commit

theorem modify_concat {α : Type} (l : List α) (a : α) (f : α → α) :
    (l ++ [a]).modify l.length f = l ++ [f a] := by
  induction l with
  | nil => rfl
  | cons b l ih =>
    show b :: (l ++ [a]).modify l.length f = b :: (l ++ [f a])
    rw [ih]

namespace Justified

variable {d : CompiledGraph S W} {stages before : List (StageExecution S)}
  {transitions : List (TransitionRecord S)} {commit : Commit S} {record record' : StageExecution S}
  {t : TransitionRecord S}

theorem stageRecord_lt (h : Justified d stages transitions commit)
    (hindex : commit.stageRecord = some index) : index < stages.length := by
  obtain ⟨index', record, hindex', hrecord, -⟩ := h.record
  rw [hindex] at hindex'
  cases hindex'
  exact (List.getElem?_eq_some_iff.mp hrecord).1

theorem stageRecord_ne (h : Justified d stages transitions commit)
    (hrecord : stages[index]? = some record) (hopen : record.accepted = false) :
    commit.stageRecord ≠ some index := by
  intro hindex
  obtain ⟨index', record', hindex', hrecord', haccepted, -⟩ := h.record
  rw [hindex] at hindex'
  cases hindex'
  rw [hrecord] at hrecord'
  cases hrecord'
  rw [hopen] at haccepted
  cases haccepted

theorem append_stage (h : Justified d stages transitions commit) :
    Justified d (stages ++ [record]) transitions commit := by
  refine ⟨?_, h.route, h.carried⟩
  obtain ⟨index, record, hindex, hrecord, hrest⟩ := h.record
  refine ⟨index, record, hindex, ?_, hrest⟩
  rw [List.getElem?_append_left (h.stageRecord_lt hindex)]
  exact hrecord

theorem replace_last (h : Justified d (before ++ [record]) transitions commit)
    (hopen : record.accepted = false) : Justified d (before ++ [record']) transitions commit := by
  refine ⟨?_, h.route, h.carried⟩
  obtain ⟨index, committed, hindex, hcommitted, hrest⟩ := h.record
  have hne : index ≠ before.length := by
    intro heq
    exact h.stageRecord_ne List.getElem?_concat_length hopen (heq ▸ hindex)
  have hlt : index < before.length := by
    have := h.stageRecord_lt hindex
    rw [List.length_append, List.length_singleton] at this
    omega
  refine ⟨index, committed, hindex, ?_, hrest⟩
  rw [List.getElem?_append_left hlt] at hcommitted ⊢
  exact hcommitted

theorem append_transition (h : Justified d stages transitions commit)
    (ht : t.stageRecord = commit.stageRecord → Carries t commit) :
    Justified d stages (transitions ++ [t]) commit := by
  refine ⟨h.record, h.route, fun t' hmem => ?_⟩
  rcases List.mem_append.mp hmem with hold | hnew
  · exact h.carried t' hold
  · rw [List.mem_singleton.mp hnew]
    exact ht

end Justified

/-! ### The invariant -/

/-- A decision that is not settled: its record is open, and it may commit only a vetted candidate. -/
structure Pending (d : CompiledGraph S W) (decision : StageDecision S)
    (stages : List (StageExecution S)) (transitions : List (TransitionRecord S)) : Prop where
  isOpen : ∀ index, decision.stageRecordIndex = some index → ∃ record, IsOpen stages index record
  vetted : decision.canCommit = true → ∃ index record, decision.stageRecordIndex = some index ∧
    IsOpen stages index record ∧ Untried transitions index ∧
    Vetted d decision.source decision.candidateState record ∧
    decision.stageResult.state = decision.candidateState

def Routed (d : CompiledGraph S W) (decision : StageDecision S) (selected : SelectedRoute S W) : Prop :=
  d.routeFor decision.source decision.outcome selected.branchKey
    = some ⟨selected.target, selected.guards⟩

/-- A settled decision has a record of the run, and the commit of that record is its own. -/
structure Settled (decision : StageDecision S) (selected : SelectedRoute S W)
    (validation : ValidationDecision S) (rt : RunState S) : Prop where
  lt : ∀ index, decision.stageRecordIndex = some index → index < rt.stages.length
  commit_eq : ∀ commit ∈ rt.commits, decision.stageRecordIndex = commit.stageRecord →
    commit = commitOf rt decision selected validation.records

def Held (d : CompiledGraph S W) : Phase S W → RunState S → Prop
  | .idle, _ | .finished _, _ | .stopped, _ => True
  | .attempting definition _ _, rt | .invoked definition _ _, rt | .failed definition _ _, rt =>
    d.stages.lookup rt.currentStage = some definition
  | .attempted definition attempt, rt =>
    d.stages.lookup rt.currentStage = some definition ∧
      ∃ index record, attempt.recordIndex = some index ∧ IsOpen rt.stages index record ∧
        Untried rt.transitions index ∧ record.stage = rt.currentStage ∧ record.errorType = none ∧
        record.candidate = some attempt.stageResult.state
  | .gated attempt validation, rt =>
    ∃ index record, attempt.recordIndex = some index ∧ IsOpen rt.stages index record ∧
      Untried rt.transitions index ∧
      (validation.passed = true → Vetted d rt.currentStage attempt.stageResult.state record)
  | .deciding decision, rt | .chosen decision, rt =>
    Pending d decision rt.stages rt.transitions
  | .counted decision selected, rt | .guarding decision selected, rt =>
    Pending d decision rt.stages rt.transitions ∧ Routed d decision selected
  | .redirecting decision, rt =>
    ∀ index, decision.stageRecordIndex = some index → ∃ record, IsOpen rt.stages index record
  | .settling decision selected validation, rt | .settled decision selected validation, rt
  | .arrived decision selected validation _, rt => Settled decision selected validation rt

/-- The accepted records and the commits of a run agree, and every commit is justified. -/
structure Accounted (d : CompiledGraph S W) (initialState : S) (m : Moment S W) : Prop where
  committed : d.stateContract.Lawful → m.runtime.committedState
    = (m.runtime.commits.getLast?.map (·.candidate)).getD initialState
  accepted : (m.runtime.stages.filter (·.accepted)).map (·.candidate)
    = m.runtime.commits.map fun commit => some commit.candidate
  justified : ∀ commit ∈ m.runtime.commits,
    Justified d m.runtime.stages m.runtime.transitions commit
  recorded : ∀ t ∈ m.runtime.transitions, ∀ index, t.stageRecord = some index →
    index < m.runtime.stages.length
  held : Held d m.phase m.runtime

namespace Accounted

variable {d : CompiledGraph S W} {initialState : S} {phase phase' : Phase S W} {rt : RunState S}
  {k k' : Nat} {m m' : Moment S W} {index : Nat} {record : StageExecution S} {t : TransitionRecord S}

theorem start (h : Starts d initialState m) : Accounted d initialState m := by
  obtain ⟨s, hs, rfl⟩ := h
  exact ⟨hs, rfl, by simp, by simp, trivial⟩

theorem append_stage (h : Accounted d initialState ⟨phase, rt, k⟩) (hopen : record.accepted = false)
    (hheld : Held d phase' { rt with stages := rt.stages ++ [record] }) :
    Accounted d initialState ⟨phase', { rt with stages := rt.stages ++ [record] }, k⟩ := by
  refine ⟨h.committed, ?_, fun commit hc => (h.justified commit hc).append_stage, ?_, hheld⟩
  · show ((rt.stages ++ [record]).filter _).map _ = _
    rw [List.filter_append, List.filter_cons_of_neg (by simp [hopen]), List.filter_nil, List.append_nil]
    exact h.accepted
  · intro t ht index hindex
    show index < (rt.stages ++ [record]).length
    rw [List.length_append]
    exact (h.recorded t ht index hindex).trans_le (Nat.le_add_right _ _)

theorem append_transition (h : Accounted d initialState ⟨phase, rt, k⟩)
    (hcarries : ∀ commit ∈ rt.commits, t.stageRecord = commit.stageRecord → Carries t commit)
    (hlt : ∀ index, t.stageRecord = some index → index < rt.stages.length)
    (hheld : Held d phase' { rt with transitions := rt.transitions ++ [t] }) :
    Accounted d initialState ⟨phase', { rt with transitions := rt.transitions ++ [t] }, k⟩ := by
  refine ⟨h.committed, h.accepted, fun commit hc => ?_, fun t' ht' => ?_, hheld⟩
  · exact (h.justified commit hc).append_transition (hcarries commit hc)
  · rcases List.mem_append.mp ht' with hold | hnew
    · exact h.recorded t' hold
    · rw [List.mem_singleton.mp hnew]
      exact hlt

theorem stageRecord_ne (h : Accounted d initialState ⟨phase, rt, k⟩)
    (hopen : IsOpen rt.stages index record) {commit : Commit S} (hc : commit ∈ rt.commits) :
    commit.stageRecord ≠ some index := by
  have haccepted : record.accepted = false := by
    obtain ⟨before, -, -, haccepted⟩ := hopen
    exact haccepted
  exact (h.justified commit hc).stageRecord_ne hopen.getElem? haccepted

theorem append_refused (h : Accounted d initialState ⟨phase, rt, k⟩) {decision : StageDecision S}
    (hpending : Pending d decision rt.stages rt.transitions)
    (ht : t.stageRecord = decision.stageRecordIndex)
    (hheld : Held d phase' { rt with transitions := rt.transitions ++ [t] }) :
    Accounted d initialState ⟨phase', { rt with transitions := rt.transitions ++ [t] }, k⟩ := by
  refine h.append_transition (fun commit hc hsame => ?_) (fun index hindex => ?_) hheld
  · obtain ⟨index, -, hindex, -⟩ := (h.justified commit hc).record
    obtain ⟨record, hopen⟩ := hpending.isOpen index (ht.symm.trans (hsame.trans hindex))
    exact absurd hindex (h.stageRecord_ne hopen hc)
  · obtain ⟨record, hopen⟩ := hpending.isOpen index (ht.symm.trans hindex)
    exact hopen.lt

theorem attach (h : Accounted d initialState ⟨phase, rt, k⟩) (hopen : IsOpen rt.stages index record)
    (validations : List (ValidationRecord S))
    (hheld : Held d phase' { rt with
      stages := rt.stages.modify index fun r => { r with validations := validations } }) :
    Accounted d initialState ⟨phase', { rt with
      stages := rt.stages.modify index fun r => { r with validations := validations } }, k⟩ := by
  obtain ⟨before, hstages, rfl, haccepted⟩ := hopen
  obtain ⟨hcommitted, hrecords, hjustified, hrecorded, -⟩ := h
  simp only [hstages] at hrecords hjustified hrecorded
  refine ⟨hcommitted, ?_, fun commit hc => ?_, ?_, hheld⟩
  · simp only [hstages, modify_concat, List.filter_append, List.filter_singleton, haccepted] at hrecords ⊢
    exact hrecords
  · simp only [hstages, modify_concat]
    exact (hjustified commit hc).replace_last haccepted
  · simpa only [hstages, List.length_modify] using hrecorded

theorem commit (h : Accounted d initialState ⟨phase, rt, k⟩) {decision : StageDecision S}
    {selected : SelectedRoute S W} {validation : ValidationDecision S} {state : S}
    (hpending : Pending d decision rt.stages rt.transitions) (hrouted : Routed d decision selected)
    (hcommit : decision.canCommit = true) (hpassed : validation.passed = true)
    (hguards : GatesHold d selected.guards decision.stageResult.state validation)
    (hstate : d.stateContract.Lawful → state = decision.candidateState) :
    Accounted d initialState ⟨.settling decision selected validation, { rt with
      committedState := state
      stages := WorkflowM.acceptStage decision.stageRecordIndex rt.stages
      commits := rt.commits ++ [commitOf rt decision selected validation.records] }, k⟩ := by
  obtain ⟨index, record, hindex, hopen, huntried, hvetted, hresult⟩ := hpending.vetted hcommit
  have hother : ∀ commit ∈ rt.commits, commit.stageRecord ≠ some index :=
    fun commit hc => h.stageRecord_ne hopen hc
  obtain ⟨before, hstages, rfl, haccepted⟩ := hopen
  obtain ⟨-, hrecords, hjustified, hrecorded, -⟩ := h
  simp only [hstages] at hrecords hjustified hrecorded
  have hstages' : WorkflowM.acceptStage decision.stageRecordIndex rt.stages
      = before ++ [{ record with accepted := true }] := by
    rw [hindex, hstages]
    exact modify_concat before record _
  refine ⟨fun hlawful => ?_, ?_, fun commit hc => ?_, ?_, ?_, fun commit hc hsame => ?_⟩
  · show state = ((rt.commits ++ [_]).getLast?.map _).getD initialState
    rw [List.getLast?_concat, hstate hlawful]
    rfl
  · show (List.filter _ (WorkflowM.acceptStage _ _)).map _ = List.map _ (rt.commits ++ [_])
    rw [hstages', List.filter_append, List.map_append, List.map_append, ← hrecords]
    simp [haccepted, commitOf, hvetted.candidate_eq]
  · show Justified d (WorkflowM.acceptStage _ _) rt.transitions commit
    rw [hstages']
    rcases List.mem_append.mp hc with hold | hnew
    · exact (hjustified commit hold).replace_last haccepted
    · rw [List.mem_singleton.mp hnew]
      refine ⟨⟨before.length, _, hindex, List.getElem?_concat_length, rfl, ?_⟩, ?_, ?_⟩
      · exact ⟨hvetted.stage_eq, hvetted.errorType_eq, hvetted.candidate_eq, hvetted.validators⟩
      · refine ⟨selected.guards, hrouted, fun hlawful => ?_⟩
        have hpasses := hguards hpassed hlawful
        rw [hresult] at hpasses
        exact hpasses
      · exact fun t ht hsame => absurd (hsame.trans hindex) (huntried t ht)
  · show ∀ t ∈ rt.transitions, ∀ i, _ → i < (WorkflowM.acceptStage _ _).length
    rw [hstages']
    simpa using hrecorded
  · intro index' hindex'
    rw [hindex] at hindex'
    cases hindex'
    show before.length < (WorkflowM.acceptStage _ _).length
    rw [hstages']
    simp
  · rcases List.mem_append.mp hc with hold | hnew
    · exact absurd (hsame.symm.trans hindex) (hother commit hold)
    · exact List.mem_singleton.mp hnew

theorem step (h : Accounted d initialState m) (hmove : Move d m m') : Accounted d initialState m' := by
  have hheld := h.held
  cases hmove with
  | visit hstage => exact ⟨h.committed, h.accepted, h.justified, h.recorded, hstage⟩
  | invoke | retry => exact ⟨h.committed, h.accepted, h.justified, h.recorded, hheld⟩
  | fail hrecord => exact h.append_stage hrecord.accepted_eq hheld
  | giveUp _ hcommit _ hindex =>
    refine ⟨h.committed, h.accepted, h.justified, h.recorded, fun index h' => ?_, fun h' => ?_⟩
    · rw [hindex] at h'
      cases h'
    · rw [hcommit] at h'
      cases h'
  | @candidate rt _ _ _ _ record _ hrecord hindex =>
    refine h.append_stage hrecord.accepted_eq ⟨hheld, rt.stages.length, record, hindex,
      ⟨rt.stages, rfl, rfl, hrecord.accepted_eq⟩, ?_, hrecord.stage_eq, hrecord.errorType_eq,
      hrecord.candidate_eq⟩
    intro t ht hsame
    exact absurd (h.recorded t ht _ hsame) (Nat.lt_irrefl _)
  | @gate rt _ definition attempt index validation hindex hgates =>
    obtain ⟨hlookup, index', record, hindex', hopen, huntried, hstage, herror, hcandidate⟩ := hheld
    rw [hindex] at hindex'
    cases hindex'
    refine h.attach hopen validation.records ?_
    obtain ⟨before, hstages, hlength, haccepted⟩ := hopen
    refine ⟨index, { record with validations := validation.records }, hindex, ?_, huntried,
      fun hpassed => ⟨hstage, herror, hcandidate, definition, hlookup, hgates hpassed⟩⟩
    refine ⟨before, ?_, hlength, haccepted⟩
    show rt.stages.modify index _ = _
    rw [hstages, hlength]
    exact modify_concat before record _
  | accept hpassed hsource hcommit _ hcandidate hresult hindex =>
    obtain ⟨index, record, hindex', hopen, huntried, hvetted⟩ := hheld
    refine ⟨h.committed, h.accepted, h.justified, h.recorded, fun i hi => ?_, fun _ => ?_⟩
    · rw [hindex, hindex'] at hi
      cases hi
      exact ⟨record, hopen⟩
    · refine ⟨index, record, hindex.trans hindex', hopen, huntried, ?_, ?_⟩
      · rw [hsource, hcandidate]
        exact hvetted hpassed
      · rw [hresult, hcandidate]
  | reject _ hcommit _ hindex =>
    obtain ⟨index, record, hindex', hopen, -⟩ := hheld
    refine ⟨h.committed, h.accepted, h.justified, h.recorded, fun i hi => ?_, fun h' => ?_⟩
    · rw [hindex, hindex'] at hi
      cases hi
      exact ⟨record, hopen⟩
    · rw [hcommit] at h'
      cases h'
  | select => exact ⟨h.committed, h.accepted, h.justified, h.recorded, hheld⟩
  | consume hroute => exact ⟨h.committed, h.accepted, h.justified, h.recorded, hheld, hroute⟩
  | limit => exact h.append_refused hheld.1 rfl trivial
  | guard => exact ⟨h.committed, h.accepted, h.justified, h.recorded, hheld⟩
  | refuse => exact h.append_refused hheld.1 rfl hheld.1.isOpen
  | redirect _ hcommit _ hindex =>
    refine ⟨h.committed, h.accepted, h.justified, h.recorded, fun i hi => ?_, fun h' => ?_⟩
    · exact hheld i (hindex.symm.trans hi)
    · rw [hcommit] at h'
      cases h'
  | commit hcommit hpassed hguards hstate =>
    exact h.commit hheld.1 hheld.2 hcommit hpassed hguards hstate
  | announce | clear | enter | arrive =>
    exact ⟨h.committed, h.accepted, h.justified, h.recorded, hheld.lt, hheld.commit_eq⟩
  | carry _ =>
    refine ⟨h.committed, h.accepted, h.justified, h.recorded, fun i hi => ?_, fun commit hc hsame => ?_⟩
    · obtain ⟨record, hopen⟩ := hheld.1.isOpen i hi
      exact hopen.lt
    · obtain ⟨index, -, hindex, -⟩ := (h.justified commit hc).record
      obtain ⟨record, hopen⟩ := hheld.1.isOpen index (hsame.trans hindex)
      exact absurd hindex (h.stageRecord_ne hopen hc)
  | next | finish =>
    refine h.append_transition (fun commit hc hsame => ?_) hheld.lt trivial
    rw [hheld.commit_eq commit hc hsame]
    exact ⟨rfl, rfl, rfl, rfl⟩

theorem of_reaches (h : Reaches d initialState m) : Accounted d initialState m :=
  h.induct (fun _ => start) fun _ _ => step

end Accounted

/-! ### Every run -/

/-- The candidate was turned down: its attempt failed, a validator of its stage did not pass on it, or
the guards of a target did not. -/
def Discarded (d : CompiledGraph S W) (rt : RunState S) (index : Nat)
    (record : StageExecution S) : Prop :=
  record.errorType.isSome ∨
    (∃ v ∈ record.validations, ¬EffectivelyPasses d.settings v.result.status) ∨
    ∃ t ∈ rt.transitions, t.stageRecord = some index ∧ t.accepted = false

def CommittedFrom (initialState : S) (rt : RunState S) : Prop :=
  rt.commits = [] ∧ rt.committedState = initialState ∨
    ∃ commit, rt.commits.getLast? = some commit ∧ rt.committedState = commit.candidate

theorem Passed.of_forall₂ {settings : StateMachineSettings} {candidate : S}
    {validators : List (Validator S W)} {records : List (ValidationRecord S)}
    (h : List.Forall₂ (Passed settings candidate) validators records) :
    ∀ v ∈ records, EffectivelyPasses settings v.result.status := by
  induction h with
  | nil => simp
  | cons hpassed _ ih =>
    intro v hv
    rcases List.mem_cons.mp hv with rfl | hv
    · exact hpassed.passes
    · exact ih v hv

theorem Justified.not_discarded {d : CompiledGraph S W} {rt : RunState S} {commit : Commit S}
    (h : Justified d rt.stages rt.transitions commit) (hlawful : d.stateContract.Lawful)
    (hindex : commit.stageRecord = some index)
    (hrecord : rt.stages[index]? = some record) : ¬Discarded d rt index record := by
  obtain ⟨index', record', hindex', hrecord', -, hvetted⟩ := h.record
  rw [hindex] at hindex'
  cases hindex'
  rw [hrecord] at hrecord'
  cases hrecord'
  rintro (herror | ⟨v, hv, hblocked⟩ | ⟨t, ht, hsame, hrefused⟩)
  · rw [hvetted.errorType_eq] at herror
    cases herror
  · obtain ⟨definition, -, hall⟩ := hvetted.validators
    exact hblocked (Passed.of_forall₂ (hall hlawful) v hv)
  · obtain ⟨haccepted, -⟩ := h.carried t ht (hsame.trans hindex.symm)
    rw [hrefused] at haccepted
    cases haccepted

namespace Accounted

variable {d : CompiledGraph S W} {initialState : S} {m : Moment S W}

theorem committedFrom (h : Accounted d initialState m) (hlawful : d.stateContract.Lawful) :
    CommittedFrom initialState m.runtime := by
  have hcommitted := h.committed hlawful
  cases hlast : m.runtime.commits.getLast? with
  | none =>
    rw [hlast] at hcommitted
    exact Or.inl ⟨List.getLast?_eq_none_iff.mp hlast, hcommitted⟩
  | some commit =>
    rw [hlast] at hcommitted
    exact Or.inr ⟨commit, hlast, hcommitted⟩

theorem committedState_eq (h : Accounted d initialState m) (hlawful : d.stateContract.Lawful) :
    m.runtime.committedState
      = ((m.runtime.stages.filter (·.accepted)).getLast?.bind (·.candidate)).getD initialState := by
  have hlast := congrArg List.getLast? h.accepted
  rw [List.getLast?_map, List.getLast?_map] at hlast
  rw [h.committed hlawful]
  cases haccepted : (m.runtime.stages.filter (·.accepted)).getLast? with
  | none =>
    rw [haccepted] at hlast
    rw [Option.map_eq_none_iff.mp hlast.symm]
    rfl
  | some record =>
    rw [haccepted] at hlast
    obtain ⟨commit, hcommit, hcandidate⟩ := Option.map_eq_some_iff.mp hlast.symm
    have hrecord : record.candidate = some commit.candidate := hcandidate.symm
    show ((m.runtime.commits.getLast?.map _).getD _) = record.candidate.getD initialState
    rw [hcommit, hrecord]
    rfl

end Accounted

/-- In every configuration of a run the committed state is the initial one or the candidate of the last
commit; every commit has the record of its attempt, a pass of every validator of its stage and of every
guard of its target on that candidate, and no candidate that was turned down is committed. A result has
the candidate of the last accepted record. -/
theorem committed_of_run (d : CompiledGraph S W) (env : Surroundings W) (fuel : Nat) (initialState : S)
    (world : W) (hlawful : d.stateContract.Lawful) :
    (∀ run ∈ configurations d env fuel initialState world,
      CommittedFrom initialState run.runtime ∧
      ∀ commit ∈ run.runtime.commits,
        Justified d run.runtime.stages run.runtime.transitions commit ∧
        ∀ index record, commit.stageRecord = some index → run.runtime.stages[index]? = some record →
          ¬Discarded d run.runtime index record) ∧
    ∀ result, (runOf d env fuel initialState world).result = .ok result →
      result.state
        = ((result.stages.filter (·.accepted)).getLast?.bind (·.candidate)).getD initialState := by
  refine ⟨fun run hrun => ?_, fun result hresult => ?_⟩
  · obtain ⟨phase, hat⟩ := reached_of_mem_configurations hrun
    have haccounted := Accounted.of_reaches hat
    refine ⟨haccounted.committedFrom hlawful, fun commit hc => ⟨haccounted.justified commit hc, ?_⟩⟩
    intro index record hindex hrecord
    exact (haccounted.justified commit hc).not_discarded hlawful hindex hrecord
  · obtain ⟨hat, -, hstate, hstages, -⟩ := result_of_run hresult
    rw [hstate, hstages]
    exact (Accounted.of_reaches hat).committedState_eq hlawful

/-! ### A run -/

def positive : Validator Nat Unit where
  name := "positive"
  validate context w :=
    (.ok (some ⟨if context.candidateState = 0 then .reject else .pass, "not_positive", ""⟩), w)

/-- A stage that adds one, its validator, and a guarded edge to the terminal. -/
def addOne : CompiledGraph Nat Unit where
  stateContract := ⟨fun s w => (.ok s, w), fun s w => (.ok s, w)⟩
  stages := [("add", {
    stage := fun context w => (.ok (some ⟨context.state + 1, "done"⟩), w)
    validators := [positive]
    policy := {} })]
  entry := "add"
  terminals := [("end", .succeeded)]
  routes := [(("add", "done"), .direct ⟨"end", [positive]⟩)]
  settings := {}

theorem addOne_lawful : addOne.stateContract.Lawful where
  validate_eq := fun _ _ _ h => (Except.ok.inj h).symm
  clone_eq := fun _ _ _ h => (Except.ok.inj h).symm

theorem committed_of_run_addOne :
    (runOf addOne ⟨[], fun _ _ w => (none, w)⟩ 1 4 ()).result.toOption.map (·.state) = some 5 ∧
      ∀ run ∈ configurations addOne ⟨[], fun _ _ w => (none, w)⟩ 1 4 (),
        CommittedFrom 4 run.runtime :=
  ⟨by decide +kernel, fun run hrun =>
    ((committed_of_run addOne ⟨[], fun _ _ w => (none, w)⟩ 1 4 () addOne_lawful).1 run hrun).1⟩

end VidbyteSdk.Workflows

import VidbyteSdk.Lib.Numbered
import VidbyteSdk.Workflows.Bounds
import VidbyteSdk.Workflows.Commits

/-!
# The evidence of a run

The logs of a run are an exact account of it. `Traced` is about the transitions as a path through the
graph, `Tallied` about what transitions, commits, announcements and stage visits count, and `Grouped`
about the attempts of each visit. The three logs are appended at different points of the loops, so each
invariant says for every phase what is not in its log yet.
-/

namespace VidbyteSdk.Workflows

open VidbyteSdk.Lib

variable {S W : Type}

/-! ### The path of the transitions -/

def TransitionRecord.nextSource (t : TransitionRecord S) : String :=
  if t.accepted then t.target else t.source

def sourceAfter (d : CompiledGraph S W) (transitions : List (TransitionRecord S)) : String :=
  (transitions.getLast?.map (·.nextSource)).getD d.entry

def Underway (d : CompiledGraph S W) (transitions : List (TransitionRecord S)) : Prop :=
  ∀ t ∈ transitions, t.accepted = true → d.terminals.lookup t.target = none

namespace Phase

def unrecorded : Phase S W → Nat
  | counted .. | guarding .. | settling .. | settled .. | arrived .. => 1
  | _ => 0

def source : Phase S W → RunState S → Option String
  | idle, rt | attempting .., rt | invoked .., rt | failed .., rt | attempted .., rt | gated .., rt =>
    some rt.currentStage
  | deciding decision, _ | chosen decision, _ | counted decision _, _ | guarding decision _, _
  | redirecting decision, _ | settling decision .., _ | settled decision .., _
  | arrived decision .., _ => some decision.source
  | finished _, _ | stopped, _ => none

def Ends (d : CompiledGraph S W) : Phase S W → RunState S → Prop
  | arrived _ selected _ none, rt =>
    d.terminals.lookup selected.target = none ∧ rt.currentStage = selected.target ∧
      Underway d rt.transitions
  | arrived _ selected _ (some terminal), rt =>
    selected.target = terminal ∧ (d.terminals.lookup terminal).isSome ∧ Underway d rt.transitions
  | finished terminal, rt => ∃ before last, rt.transitions = before ++ [last] ∧
      last.accepted = true ∧ last.target = terminal ∧ (d.terminals.lookup terminal).isSome ∧
      Underway d before
  | _, rt => Underway d rt.transitions

end Phase

/-- The transitions of a run are a path from the entry, numbered in order. -/
structure Traced (d : CompiledGraph S W) (m : Moment S W) : Prop where
  numbered : Numbered (·.sequence) m.runtime.transitions
  length_eq : m.runtime.transitions.length + m.phase.unrecorded = m.runtime.transitionCount
  first : ∀ t, m.runtime.transitions.head? = some t → t.source = d.entry
  chain : m.runtime.transitions.IsChain fun before after => after.source = before.nextSource
  source : ∀ s, m.phase.source m.runtime = some s → s = sourceAfter d m.runtime.transitions
  ends : m.phase.Ends d m.runtime

theorem sourceAfter_concat (d : CompiledGraph S W) (transitions : List (TransitionRecord S))
    (t : TransitionRecord S) : sourceAfter d (transitions ++ [t]) = t.nextSource := by
  unfold sourceAfter
  rw [List.getLast?_concat]
  rfl

variable {t : TransitionRecord S}

theorem Underway.concat {d : CompiledGraph S W} {transitions : List (TransitionRecord S)}
    (h : Underway d transitions)
    (ht : t.accepted = true → d.terminals.lookup t.target = none) : Underway d (transitions ++ [t]) := by
  intro t' hmem
  rcases List.mem_append.mp hmem with hold | hnew
  · exact h t' hold
  · rw [List.mem_singleton.mp hnew]
    exact ht

namespace Traced

variable {d : CompiledGraph S W} {initialState : S} {m m' : Moment S W} {phase phase' : Phase S W}
  {rt : RunState S} {k : Nat}

theorem start (h : Starts d initialState m) : Traced d m := by
  obtain ⟨s, -, rfl⟩ := h
  refine ⟨Numbered.nil, rfl, by simp, List.isChain_nil, fun s hs => ?_, by simp [Phase.Ends, Underway]⟩
  exact (Option.some.inj hs).symm

theorem append (h : Traced d ⟨phase, rt, k⟩)
    (hunrecorded : phase.unrecorded = 1) (hunrecorded' : phase'.unrecorded = 0)
    (hsequence : t.sequence = rt.transitionCount) (hsource : phase.source rt = some t.source)
    (hnext : ∀ s, phase'.source { rt with transitions := rt.transitions ++ [t] } = some s →
      s = t.nextSource)
    (hends : phase'.Ends d { rt with transitions := rt.transitions ++ [t] }) :
    Traced d ⟨phase', { rt with transitions := rt.transitions ++ [t] }, k⟩ := by
  obtain ⟨hnumbered, hlength, hfirst, hchain, hat, -⟩ := h
  have ht := hat t.source hsource
  have hcount : rt.transitions.length + 1 = rt.transitionCount := by
    rw [← hunrecorded]
    exact hlength
  refine ⟨hnumbered.concat (hsequence.trans hcount.symm), ?_, fun t' ht' => ?_, ?_, fun s hs => ?_, hends⟩
  · show (rt.transitions ++ [t]).length + phase'.unrecorded = rt.transitionCount
    rw [List.length_append, hunrecorded']
    exact hcount
  · cases hlist : rt.transitions with
    | nil =>
      simp only [hlist, List.nil_append, List.head?_cons] at ht'
      cases ht'
      rw [ht, hlist]
      rfl
    | cons t'' rest =>
      simp only [hlist, List.cons_append, List.head?_cons] at ht'
      exact hfirst t' (by rw [hlist]; exact ht')
  · refine List.isChain_append.mpr ⟨hchain, List.isChain_singleton t, fun before hb after ha => ?_⟩
    simp only [List.head?_cons, Option.mem_some_iff] at ha
    subst ha
    rw [ht]
    unfold sourceAfter
    rw [Option.mem_def.mp hb]
    rfl
  · rw [hnext s hs]
    exact (sourceAfter_concat d rt.transitions t).symm

theorem step (h : Traced d m) (hmove : Move d m m') : Traced d m' := by
  obtain ⟨hnumbered, hlength, hfirst, hchain, hsource, hends⟩ := id h
  cases hmove with
  | visit | invoke | fail | retry | candidate | gate | select | guard | announce | clear | commit
  | carry => exact ⟨hnumbered, hlength, hfirst, hchain, hsource, hends⟩
  | giveUp hsame | accept _ hsame | reject hsame | redirect hsame =>
    refine ⟨hnumbered, hlength, hfirst, hchain, fun s hs => hsource s ?_, hends⟩
    exact (congrArg some hsame).symm.trans hs
  | consume =>
    exact ⟨hnumbered, congrArg (· + 1) hlength, hfirst, hchain, hsource, hends⟩
  | limit => exact h.append rfl rfl rfl rfl (fun s hs => by cases hs) (hends.concat fun h => by cases h)
  | refuse =>
    exact h.append rfl rfl rfl rfl (fun s hs => (Option.some.inj hs).symm)
      (hends.concat fun h => by cases h)
  | enter htarget => exact ⟨hnumbered, hlength, hfirst, hchain, hsource, htarget, rfl, hends⟩
  | arrive htarget => exact ⟨hnumbered, hlength, hfirst, hchain, hsource, rfl, htarget, hends⟩
  | next =>
    obtain ⟨htarget, hstage, hunderway⟩ := hends
    refine h.append rfl rfl rfl rfl (fun s hs => ?_) (hunderway.concat fun _ => htarget)
    exact (Option.some.inj hs).symm.trans hstage
  | @finish rt =>
    obtain ⟨htarget, hterminal, hunderway⟩ := hends
    refine h.append rfl rfl rfl rfl (fun s hs => by cases hs) ?_
    exact ⟨rt.transitions, _, rfl, rfl, htarget, hterminal, hunderway⟩

theorem of_reaches (h : Reaches d initialState m) : Traced d m :=
  h.induct (fun _ => start) fun _ _ => step

end Traced

/-! ### What the logs count -/

/-- The transition took a candidate that its stage produced and its gates passed. -/
def TransitionRecord.commits (t : TransitionRecord S) : Bool :=
  t.accepted && t.trigger = "stage_outcome"

namespace Phase

/-- Stage visits whose accepted transition is not recorded. -/
def openVisits : Phase S W → Nat
  | idle | finished _ => 0
  | _ => 1

def unannounced : Phase S W → Nat
  | settling .. => 1
  | _ => 0

def unsettled : Phase S W → Nat
  | settling decision .. | settled decision .. | arrived decision .. =>
    if decision.canCommit then 1 else 0
  | _ => 0

def decision? : Phase S W → Option (StageDecision S)
  | deciding decision | chosen decision | counted decision _ | guarding decision _
  | redirecting decision | settling decision .. | settled decision .. | arrived decision .. =>
    some decision
  | _ => none

end Phase

def Triggered (decision : StageDecision S) : Prop :=
  decide (decision.trigger = "stage_outcome") = decision.canCommit

/-- Accepted transitions, announcements and commits of a run count the same things. -/
structure Tallied (m : Moment S W) : Prop where
  visits : m.runtime.transitions.countP (·.accepted) + m.phase.openVisits
    = m.runtime.stageVisits.length
  announced : m.announced + m.phase.unannounced = m.runtime.commits.length
  outcomes : m.runtime.transitions.countP (·.commits) + m.phase.unsettled = m.runtime.commits.length
  triggered : ∀ decision, m.phase.decision? = some decision → Triggered decision

theorem countP_commits_concat (transitions : List (TransitionRecord S)) (rt : RunState S)
    (decision : StageDecision S) (selected : SelectedRoute S W) (guards : List (ValidationRecord S))
    (htriggered : Triggered decision) :
    (transitions ++ [transitionOf rt decision selected guards true]).countP (·.commits)
      = transitions.countP (·.commits) + if decision.canCommit then 1 else 0 := by
  rw [List.countP_append, List.countP_singleton]
  show _ + (if (true && decide (decision.trigger = "stage_outcome")) = true then 1 else 0) = _
  rw [htriggered, Bool.true_and]

namespace Tallied

variable {d : CompiledGraph S W} {initialState : S} {m m' : Moment S W} {phase phase' : Phase S W}
  {rt : RunState S} {k : Nat}

theorem start (h : Starts d initialState m) : Tallied m := by
  obtain ⟨s, -, rfl⟩ := h
  exact ⟨rfl, rfl, rfl, fun decision h => by cases h⟩

theorem append_refused (h : Tallied ⟨phase, rt, k⟩)
    (ht : t.accepted = false) (hvisits : phase'.openVisits = phase.openVisits)
    (hannounced : phase'.unannounced = phase.unannounced)
    (hunsettled : phase'.unsettled = phase.unsettled)
    (htriggered : ∀ decision, phase'.decision? = some decision → Triggered decision) :
    Tallied ⟨phase', { rt with transitions := rt.transitions ++ [t] }, k⟩ := by
  refine ⟨?_, ?_, ?_, htriggered⟩
  · show (rt.transitions ++ [t]).countP _ + phase'.openVisits = _
    rw [List.countP_append, List.countP_singleton, ht, hvisits]
    exact h.visits
  · rw [hannounced]
    exact h.announced
  · show (rt.transitions ++ [t]).countP _ + phase'.unsettled = _
    rw [List.countP_append, List.countP_singleton, hunsettled]
    have hcommits : t.commits = false := by
      unfold TransitionRecord.commits
      rw [ht, Bool.false_and]
    rw [hcommits]
    exact h.outcomes

theorem append_accepted {decision : StageDecision S} {selected : SelectedRoute S W}
    {validation : ValidationDecision S} {terminal : Option String}
    (h : Tallied ⟨.arrived decision selected validation terminal, rt, k⟩)
    (hvisits : phase'.openVisits = 0) (hannounced : phase'.unannounced = 0)
    (hunsettled : phase'.unsettled = 0) (hdecision : phase'.decision? = none) :
    Tallied ⟨phase', { rt with transitions :=
      rt.transitions ++ [transitionOf rt decision selected validation.records true] }, k⟩ := by
  refine ⟨?_, ?_, ?_, fun decision h' => ?_⟩
  · show (rt.transitions ++ [_]).countP _ + phase'.openVisits = _
    rw [List.countP_append, List.countP_singleton, hvisits]
    exact h.visits
  · rw [hannounced]
    exact h.announced
  · show (rt.transitions ++ [_]).countP _ + phase'.unsettled = _
    rw [countP_commits_concat _ _ _ _ _ (h.triggered decision rfl), hunsettled]
    exact h.outcomes
  · rw [hdecision] at h'
    cases h'

theorem step (h : Tallied m) (hmove : Move d m m') : Tallied m' := by
  obtain ⟨hvisits, hannounced, houtcomes, htriggered⟩ := id h
  have hnew : ∀ {decision decision' : StageDecision S} {trigger : String} {c : Bool},
      decision.trigger = trigger → decision.canCommit = c →
      decide (trigger = "stage_outcome") = c → some decision = some decision' →
      Triggered decision' := by
    intro decision decision' trigger c htrigger hcommit hdecide hsame
    cases hsame
    unfold Triggered
    rw [htrigger, hcommit, hdecide]
  cases hmove with
  | visit _ =>
    refine ⟨?_, hannounced, houtcomes, htriggered⟩
    show _ + 1 = (_ ++ [_]).length
    rw [List.length_append, ← hvisits]
    rfl
  | invoke | fail | retry | candidate | gate | select | consume | guard | clear | enter | arrive =>
    exact ⟨hvisits, hannounced, houtcomes, htriggered⟩
  | giveUp _ hcommit htrigger | accept _ _ hcommit htrigger | reject _ hcommit htrigger
  | redirect _ hcommit htrigger =>
    exact ⟨hvisits, hannounced, houtcomes, fun _ hd => hnew htrigger hcommit (by decide) hd⟩
  | limit => exact h.append_refused rfl rfl rfl rfl fun decision hd => by cases hd
  | refuse => exact h.append_refused rfl rfl rfl rfl htriggered
  | commit hcommit =>
    refine ⟨hvisits, ?_, ?_, htriggered⟩
    · show _ + 1 = (_ ++ [_]).length
      rw [List.length_append, ← hannounced]
      rfl
    · show _ + (if _ then 1 else 0) = (_ ++ [_]).length
      rw [List.length_append, ← houtcomes, hcommit]
      rfl
  | announce => exact ⟨hvisits, hannounced, houtcomes, htriggered⟩
  | carry hcommit =>
    refine ⟨hvisits, hannounced, ?_, htriggered⟩
    show _ + (if _ then 1 else 0) = _
    rw [hcommit]
    exact houtcomes
  | next | finish => exact h.append_accepted rfl rfl rfl rfl

theorem of_reaches (h : Reaches d initialState m) : Tallied m :=
  h.induct (fun _ => start) fun _ _ => step

end Tallied

/-! ### The attempts of each visit -/

/-- What of an attempt record no later step of the run changes. -/
structure AttemptLine where
  stage : String
  visit : Nat
  attempt : Nat
  failed : Bool
  deriving DecidableEq

def StageExecution.line (record : StageExecution S) : AttemptLine :=
  ⟨record.stage, record.visit, record.attempt, record.errorType.isSome⟩

/-- The first `n` attempts of a visit, all failed. -/
def failedAttempts (visit : String × Nat) (n : Nat) : List AttemptLine :=
  (List.range' 1 n).map fun attempt => ⟨visit.1, visit.2, attempt, true⟩

theorem failedAttempts_succ (visit : String × Nat) (n : Nat) :
    failedAttempts visit (n + 1) = failedAttempts visit n ++ [⟨visit.1, visit.2, n + 1, true⟩] := by
  unfold failedAttempts
  rw [List.range'_1_concat, List.map_append, Nat.add_comm 1 n]
  rfl

/-- The attempts of a whole visit: numbered from one, within the retry policy of the stage, and all
failed but for the last. -/
def VisitLines (d : CompiledGraph S W) (visit : String × Nat) (lines : List AttemptLine) : Prop :=
  ∃ definition n failed, d.stages.lookup visit.1 = some definition ∧
    n < definition.policy.retry.maxAttempts ∧
    lines = failedAttempts visit n ++ [⟨visit.1, visit.2, n + 1, failed⟩]

def Closed (d : CompiledGraph S W) (stageVisits : List (String × Nat))
    (stages : List (StageExecution S)) : Prop :=
  ∃ groups, List.Forall₂ (VisitLines d) stageVisits groups ∧ stages.map (·.line) = groups.flatten

/-- The last visit is under way, with `n` failed attempts so far. -/
structure InVisit (d : CompiledGraph S W) (definition : StageDefinition S W) (visit n : Nat)
    (rt : RunState S) : Prop where
  lookup_eq : d.stages.lookup rt.currentStage = some definition
  grouped : ∃ closed groups, rt.stageVisits = closed ++ [(rt.currentStage, visit)] ∧
    List.Forall₂ (VisitLines d) closed groups ∧
    rt.stages.map (·.line) = groups.flatten ++ failedAttempts (rt.currentStage, visit) n

def Phase.Groups (d : CompiledGraph S W) : Phase S W → RunState S → Prop
  | attempting definition visit attempt, rt | invoked definition visit attempt, rt =>
    ∃ n, attempt = n + 1 ∧ n < definition.policy.retry.maxAttempts ∧ InVisit d definition visit n rt
  | failed definition visit attempt, rt =>
    ∃ n, attempt = n + 1 ∧ n < definition.policy.retry.maxAttempts ∧
      InVisit d definition visit (n + 1) rt
  | _, rt => Closed d rt.stageVisits rt.stages

structure Grouped (d : CompiledGraph S W) (m : Moment S W) : Prop where
  visits : ∀ stage, Numbered (·.2) (m.runtime.stageVisits.filter (·.1 = stage)) ∧
    (m.runtime.stageVisits.filter (·.1 = stage)).length = m.runtime.visits stage
  groups : m.phase.Groups d m.runtime

theorem map_modify_of_eq {α β : Type} (l : List α) (i : Nat) {f : α → α} {g : α → β}
    (h : ∀ a, g (f a) = g a) : (l.modify i f).map g = l.map g := by
  induction l generalizing i with
  | nil => simp
  | cons a l ih =>
    cases i with
    | zero => simp [h]
    | succ i => simp [ih]

theorem map_line_acceptStage (index : Option Nat) (stages : List (StageExecution S)) :
    (WorkflowM.acceptStage index stages).map (·.line) = stages.map (·.line) := by
  cases index with
  | none => rfl
  | some index => exact map_modify_of_eq _ _ fun _ => rfl

namespace InVisit

variable {d : CompiledGraph S W} {definition : StageDefinition S W} {visit n : Nat} {rt : RunState S}
  {record : StageExecution S}

theorem concat (h : InVisit d definition visit n rt)
    (hline : record.line = ⟨rt.currentStage, visit, n + 1, true⟩) :
    InVisit d definition visit (n + 1) { rt with stages := rt.stages ++ [record] } := by
  obtain ⟨hlookup, closed, groups, hvisits, hgroups, hlines⟩ := h
  refine ⟨hlookup, closed, groups, hvisits, hgroups, ?_⟩
  show (rt.stages ++ [record]).map _ = _
  rw [List.map_append, hlines, List.append_assoc, failedAttempts_succ, List.map_singleton, hline]

theorem close (failed : Bool) (h : InVisit d definition visit n rt)
    (hn : n < definition.policy.retry.maxAttempts)
    (hline : record.line = ⟨rt.currentStage, visit, n + 1, failed⟩) :
    Closed d rt.stageVisits (rt.stages ++ [record]) := by
  obtain ⟨hlookup, closed, groups, hvisits, hgroups, hlines⟩ := h
  refine ⟨groups ++ [failedAttempts (rt.currentStage, visit) n ++
    [⟨rt.currentStage, visit, n + 1, failed⟩]], ?_, ?_⟩
  · rw [hvisits]
    refine List.rel_append hgroups (List.Forall₂.cons ?_ List.Forall₂.nil)
    exact ⟨definition, n, failed, hlookup, hn, rfl⟩
  · rw [List.map_append, List.map_singleton, hline, hlines, List.flatten_append,
      List.flatten_singleton, List.append_assoc]

end InVisit

namespace Grouped

variable {d : CompiledGraph S W} {initialState : S} {m m' : Moment S W}

theorem start (h : Starts d initialState m) : Grouped d m := by
  obtain ⟨s, -, rfl⟩ := h
  exact ⟨fun stage => ⟨Numbered.nil, rfl⟩, [], List.Forall₂.nil, rfl⟩

theorem visits_concat {rt : RunState S} {stage : String}
    (h : Numbered (·.2) (rt.stageVisits.filter (·.1 = stage)) ∧
      (rt.stageVisits.filter (·.1 = stage)).length = rt.visits stage) :
    let visit := rt.visits rt.currentStage + 1
    let stageVisits := rt.stageVisits ++ [(rt.currentStage, visit)]
    Numbered (·.2) (stageVisits.filter (·.1 = stage)) ∧
      (stageVisits.filter (·.1 = stage)).length
        = Function.update rt.visits rt.currentStage visit stage := by
  intro visit stageVisits
  obtain ⟨hnumbered, hlength⟩ := h
  have happend : stageVisits.filter (·.1 = stage) = rt.stageVisits.filter (·.1 = stage) ++
      [(rt.currentStage, visit)].filter (·.1 = stage) := List.filter_append _ _
  rw [happend]
  by_cases hstage : rt.currentStage = stage
  · subst hstage
    rw [List.filter_cons_of_pos (by simp), List.filter_nil, Function.update_self]
    refine ⟨hnumbered.concat ?_, ?_⟩
    · rw [hlength]
    · rw [List.length_append, hlength]
      rfl
  · rw [List.filter_cons_of_neg (by simpa using hstage), List.filter_nil, List.append_nil,
      Function.update_of_ne (Ne.symm hstage)]
    exact ⟨hnumbered, hlength⟩

theorem step (h : Grouped d m) (hmove : Move d m m') : Grouped d m' := by
  obtain ⟨hvisits, hgroups⟩ := h
  cases hmove with
  | @visit rt _ definition hstage =>
    refine ⟨fun stage => visits_concat (hvisits stage), 0, rfl, RetryPolicy.maxAttempts_pos _, hstage, ?_⟩
    obtain ⟨groups, hall, hlines⟩ := hgroups
    refine ⟨rt.stageVisits, groups, rfl, hall, ?_⟩
    show _ = _ ++ []
    rw [List.append_nil]
    exact hlines
  | invoke =>
    obtain ⟨n, hattempt, hn, hin⟩ := hgroups
    exact ⟨hvisits, n, hattempt, hn, hin.lookup_eq, hin.grouped⟩
  | fail hrecord =>
    obtain ⟨n, hattempt, hn, hin⟩ := hgroups
    refine ⟨hvisits, n, hattempt, hn, hin.concat ?_⟩
    unfold StageExecution.line
    rw [hrecord.stage_eq, hrecord.visit_eq, hrecord.attempt_eq, hrecord.errorType_isSome, hattempt]
  | retry hleft =>
    obtain ⟨n, hattempt, hn, hin⟩ := hgroups
    refine ⟨hvisits, n + 1, congrArg (· + 1) hattempt, ?_, hin⟩
    rw [← hattempt]
    exact hleft
  | @giveUp rt _ definition visit attempt decision =>
    obtain ⟨n, hattempt, hn, hlookup, closed, groups, hstageVisits, hall, hlines⟩ := hgroups
    refine ⟨hvisits, groups ++ [failedAttempts (rt.currentStage, visit) (n + 1)], ?_, ?_⟩
    · show List.Forall₂ _ rt.stageVisits _
      rw [hstageVisits]
      refine List.rel_append hall (List.Forall₂.cons ?_ List.Forall₂.nil)
      exact ⟨definition, n, true, hlookup, hn, failedAttempts_succ _ n⟩
    · rw [List.flatten_append, List.flatten_singleton]
      exact hlines
  | candidate hrecord =>
    obtain ⟨n, hattempt, hn, hin⟩ := hgroups
    refine ⟨hvisits, InVisit.close false hin hn ?_⟩
    unfold StageExecution.line
    rw [hrecord.stage_eq, hrecord.visit_eq, hrecord.attempt_eq, hrecord.errorType_eq, hattempt]
    rfl
  | gate =>
    obtain ⟨groups, hall, hlines⟩ := hgroups
    refine ⟨hvisits, groups, hall, ?_⟩
    rw [← hlines]
    exact map_modify_of_eq _ _ fun _ => rfl
  | commit =>
    obtain ⟨groups, hall, hlines⟩ := hgroups
    refine ⟨hvisits, groups, hall, ?_⟩
    rw [← hlines]
    exact map_line_acceptStage _ _
  | accept | reject | select | consume | limit | guard | refuse | redirect | announce | clear | carry
  | enter | arrive | next | finish => exact ⟨hvisits, hgroups⟩

theorem of_reaches (h : Reaches d initialState m) : Grouped d m :=
  h.induct (fun _ => start) fun _ _ => step

end Grouped

/-! ### A run that returns -/

/-- The evidence of a result, given the stage visits the run made. -/
structure ExactAccount (d : CompiledGraph S W) (stageVisits : List (String × Nat))
    (result : StateMachineResult S) : Prop where
  sequences : result.transitions.map (·.sequence) = List.range' 1 result.transitions.length
  length_le : result.transitions.length ≤ d.settings.maxTransitions
  first : ∀ t, result.transitions.head? = some t → t.source = d.entry
  chain : result.transitions.IsChain fun before after =>
    after.source = if before.accepted then before.target else before.source
  last : ∃ before last, result.transitions = before ++ [last] ∧ last.accepted = true ∧
    last.target = result.terminal ∧ d.terminals.lookup result.terminal = some result.status ∧
    ∀ t ∈ before, t.accepted = true → d.terminals.lookup t.target = none
  visits : result.transitions.countP (·.accepted) = stageVisits.length
  records : result.stages.countP (·.accepted)
    = result.events.countP (·.eventType = .stateCommitted)
  outcomes : result.transitions.countP (fun t => t.accepted && t.trigger = "stage_outcome")
    = result.events.countP (·.eventType = .stateCommitted)
  numbered : ∀ stage, (stageVisits.filter (·.1 = stage)).map (·.2)
    = List.range' 1 (stageVisits.filter (·.1 = stage)).length
  attempts : ∃ groups, List.Forall₂ (VisitLines d) stageVisits groups ∧
    result.stages.map (·.line) = groups.flatten

theorem Accounted.countP_accepted {d : CompiledGraph S W} {initialState : S} {m : Moment S W}
    (h : Accounted d initialState m) :
    m.runtime.stages.countP (·.accepted) = m.runtime.commits.length := by
  have hlength := congrArg List.length h.accepted
  rw [List.length_map, List.length_map, ← List.countP_eq_length_filter] at hlength
  exact hlength

/-- The result of a run is an exact account of it: of its transitions, its commits, its stage visits and
their attempts. -/
theorem account_of_run {d : CompiledGraph S W} {env : Surroundings W} {fuel : Nat} {initialState : S}
    {world : W} {result : StateMachineResult S}
    (hresult : (runOf d env fuel initialState world).result = .ok result) :
    ExactAccount d (runOf d env fuel initialState world).final.runtime.stageVisits result := by
  obtain ⟨hat, hstatus, -, hstages, htransitions, hevents⟩ := result_of_run hresult
  have htraced := Traced.of_reaches hat
  have htallied := Tallied.of_reaches hat
  have hgrouped := Grouped.of_reaches hat
  have hbounded := Bounded.of_reaches hat
  have haccounted := Accounted.of_reaches hat
  have hannounced : result.events.countP (·.eventType = .stateCommitted)
      = (runOf d env fuel initialState world).final.runtime.commits.length :=
    hevents.trans htallied.announced
  obtain ⟨before, last, hsplit, haccepted, htarget, -, hunderway⟩ := htraced.ends
  constructor
  · rw [htransitions]
    exact htraced.numbered
  · rw [htransitions]
    exact htraced.length_eq.trans_le hbounded.count_le
  · rw [htransitions]
    exact htraced.first
  · rw [htransitions]
    exact htraced.chain
  · exact ⟨before, last, htransitions.trans hsplit, haccepted, htarget, hstatus, hunderway⟩
  · rw [htransitions]
    exact htallied.visits
  · rw [hstages, hannounced]
    exact haccounted.countP_accepted
  · rw [htransitions, hannounced]
    exact htallied.outcomes
  · exact fun stage => (hgrouped.visits stage).1
  · rw [hstages]
    exact hgrouped.groups

theorem account_of_run_addOne : ∃ result,
    (runOf addOne ⟨[], fun _ _ w => (none, w)⟩ 1 4 ()).result = .ok result ∧
    ExactAccount addOne (runOf addOne ⟨[], fun _ _ w => (none, w)⟩ 1 4 ()).final.runtime.stageVisits
      result := by
  have hok : (runOf addOne ⟨[], fun _ _ w => (none, w)⟩ 1 4 ()).result.toOption.isSome := by
    decide +kernel
  cases hresult : (runOf addOne ⟨[], fun _ _ w => (none, w)⟩ 1 4 ()).result with
  | ok result => exact ⟨result, rfl, account_of_run hresult⟩
  | error failure =>
    rw [hresult] at hok
    cases hok

end VidbyteSdk.Workflows

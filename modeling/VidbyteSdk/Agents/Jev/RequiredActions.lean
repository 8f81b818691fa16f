import Mathlib.Data.List.Infix
import VidbyteSdk.Agents.Jev.RequiredSequence
import VidbyteSdk.Lib.Dicts

/-!
# The required-actions check

The actions that a request requires with their predecessors, what the handoff accepts as evidence for
them, and how the check reads that evidence and Jev's answers.
-/

namespace VidbyteSdk.Agents.Jev

open Lib Lib.Json

/-! ### The request's actions -/

def isLowercase (c : CodePoint) : Bool := 0x61 ≤ c.val && c.val ≤ 0x7A

/-- `JevDeliverableId.require` -/
def isDeliverableId : Text → Bool
  | [] => false
  | c :: rest =>
    isLowercase c && decide (rest.length ≤ 63) &&
      rest.all fun c => isLowercase c || c.isDigit || decide (c = 0x5F)

structure JevRequiredActionPayload where
  id : Text
  action : Text
  completionSignal : Text
  predecessors : List Text

structure JevRequiredAction where
  id : Text
  action : Text
  completionSignal : Text
  predecessors : List Text
  identified : isDeliverableId id = true
  described : Text.isBlank action = false ∧ Text.isBlank completionSignal = false
  distinct : predecessors.Nodup
  named : ∀ predecessor ∈ predecessors, isDeliverableId predecessor = true

def JevRequiredAction.make (id action completionSignal : Text) (predecessors : List Text) :
    Option JevRequiredAction :=
  if h : (isDeliverableId id = true ∧
      (Text.isBlank action = false ∧ Text.isBlank completionSignal = false)) ∧
      predecessors.Nodup ∧ ∀ predecessor ∈ predecessors, isDeliverableId predecessor = true then
    some ⟨id, action, completionSignal, predecessors, h.1.1, h.1.2, h.2.1, h.2.2⟩
  else none

/-- The actions of a request: each id once, and every predecessor an earlier action. -/
structure JevRequiredActions where
  actions : List JevRequiredAction
  unique : (actions.map (·.id)).Nodup
  earlier : ∀ action ∈ actions, ∀ predecessor ∈ action.predecessors,
    predecessor ∈ actions.map (·.id) ∧
      (actions.map (·.id)).idxOf predecessor < (actions.map (·.id)).idxOf action.id

def JevRequiredActions.ids (state : JevRequiredActions) : List Text := state.actions.map (·.id)

def JevRequiredActions.make (actions : List JevRequiredAction) : Option JevRequiredActions :=
  if h : (actions.map (·.id)).Nodup ∧
      ∀ action ∈ actions, ∀ predecessor ∈ action.predecessors,
        predecessor ∈ actions.map (·.id) ∧
          (actions.map (·.id)).idxOf predecessor < (actions.map (·.id)).idxOf action.id then
    some ⟨actions, h.1, h.2⟩
  else none

/-- `_required_actions_record` of the run state; `none` is an error. -/
def requiredActionsRecord (items : List JevRequiredActionPayload) : Option JevRequiredActions := do
  let actions ← items.mapM fun item =>
    JevRequiredAction.make item.id (strip item.action) (strip item.completionSignal)
      item.predecessors
  JevRequiredActions.make actions

/-! ### The handoff's evidence -/

structure JevRequiredActionEvidencePayload where
  id : Text
  evidence : Text
  traceIndices : List Int
  completionTraceIndex : Option Int
  outputSource : Option Text
  outputExcerpt : Option Text
  missing : Text

/-- `source[9:-1]`, where the source is `response[…]`. -/
def responseReference (source : Text) : Option Text :=
  if (lit "response[").isPrefixOf source && decide (source.getLast? = some 0x5D) then
    some (source.drop 9).dropLast
  else none

/-- `re.fullmatch(r"response\[\d+\]|final_answer", source)`, for ASCII text. -/
def isOutputSource (source : Text) : Bool :=
  decide (source = lit "final_answer") || ((responseReference source).any isdigit)

structure JevRequiredActionEvidence where
  id : Text
  evidence : Text
  traceIndices : List Int
  completionTraceIndex : Option Int
  missing : Text
  outputSource : Option Text
  outputExcerpt : Option Text
  identified : isDeliverableId id = true
  stated : Text.isBlank evidence = false ∧ Text.isBlank missing = false
  indexed : (∀ index ∈ traceIndices, 0 ≤ index) ∧ traceIndices.Pairwise (· < ·)
  cited : ∀ index ∈ completionTraceIndex, 0 ≤ index ∧ index ∈ traceIndices
  paired : outputSource.isNone = outputExcerpt.isNone
  sourced : ∀ source ∈ outputSource, isOutputSource source = true
  quoted : ∀ excerpt ∈ outputExcerpt, Text.isBlank excerpt = false

def JevRequiredActionEvidence.make (id evidence : Text) (traceIndices : List Int)
    (completionTraceIndex : Option Int) (missing : Text) (outputSource outputExcerpt : Option Text) :
    Option JevRequiredActionEvidence :=
  if h : (isDeliverableId id = true ∧
        (Text.isBlank evidence = false ∧ Text.isBlank missing = false)) ∧
      ((∀ index ∈ traceIndices, 0 ≤ index) ∧ traceIndices.Pairwise (· < ·)) ∧
      (∀ index ∈ completionTraceIndex, 0 ≤ index ∧ index ∈ traceIndices) ∧
      outputSource.isNone = outputExcerpt.isNone ∧
      (∀ source ∈ outputSource, isOutputSource source = true) ∧
      ∀ excerpt ∈ outputExcerpt, Text.isBlank excerpt = false then
    some ⟨id, evidence, traceIndices, completionTraceIndex, missing, outputSource, outputExcerpt,
      h.1.1, h.1.2, h.2.1, h.2.2.1, h.2.2.2.1, h.2.2.2.2.1, h.2.2.2.2.2⟩
  else none

/-- The digits of `int(text)`, in groups that single underscores part. -/
def digitGroups (t : Text) : Option Nat :=
  let groups := t.splitOn 0x5F
  if groups.all isdigit then some (ofDigits groups.flatten) else none

/-- `int(text)`, for ASCII text; `none` is `ValueError`. -/
def parseInt? (t : Text) : Option Int :=
  match strip t with
  | 0x2D :: digits => (digitGroups digits).map fun n => -(n : Int)
  | 0x2B :: digits => (digitGroups digits).map Int.ofNat
  | digits => (digitGroups digits).map Int.ofNat

/-- `values[index]`, where a negative index counts from the end; `none` is `IndexError`. -/
def itemAt? (values : List Text) (index : Int) : Option Text :=
  if 0 ≤ index then values[index.toNat]?
  else if -(values.length : Int) ≤ index then values[(index + values.length).toNat]?
  else none

def sourceText (source : Text) (responses : List Text) (finalAnswer : Text) : Option Text :=
  if source = lit "final_answer" then some finalAnswer
  else do
    let reference ← responseReference source
    let index ← parseInt? reference
    itemAt? responses index

/-- `_valid_output_excerpt` -/
def validOutputExcerpt (source excerpt : Option Text) (responses : List Text) (finalAnswer : Text) :
    Bool :=
  match source, excerpt with
  | some source, some excerpt =>
    !Text.isBlank excerpt &&
      (sourceText source responses finalAnswer).any fun text => decide (strip excerpt <:+: text)
  | _, _ => false

/-- `_required_action_evidence` -/
def requiredActionEvidence (responses : List Text) (finalAnswer : Text)
    (item : JevRequiredActionEvidencePayload) : Option JevRequiredActionEvidence :=
  let outputIsCited := validOutputExcerpt item.outputSource item.outputExcerpt responses finalAnswer
  JevRequiredActionEvidence.make item.id (strip item.evidence) item.traceIndices
    item.completionTraceIndex (strip item.missing)
    (if outputIsCited then item.outputSource else none)
    (if outputIsCited then item.outputExcerpt.map strip else none)

/-- `_valid_required_action_trace`, for calls given by the values of their states. -/
def validRequiredActionTrace (states : List Text) (item : JevRequiredActionEvidence) : Bool :=
  item.traceIndices.all (fun index => decide (index < states.length)) &&
    match item.completionTraceIndex with
    | none => true
    | some index => states[index.toNat]? = some (lit "succeeded")

structure JevRequiredActionsEvidence where
  actions : List JevRequiredActionEvidence
  unique : (actions.map (·.id)).Nodup

def JevRequiredActionsEvidence.ids (evidence : JevRequiredActionsEvidence) : List Text :=
  evidence.actions.map (·.id)

def JevRequiredActionsEvidence.make (actions : List JevRequiredActionEvidence) :
    Option JevRequiredActionsEvidence :=
  if h : (actions.map (·.id)).Nodup then some ⟨actions, h⟩ else none

/-- `_required_actions_record` of the handoff; `none` refuses it. -/
def requiredActionsEvidenceRecord (items : List JevRequiredActionEvidencePayload)
    (state : Option JevRequiredActions) (states : List Text) (responses : List Text)
    (finalAnswer : Text) : Option JevRequiredActionsEvidence := do
  let actions ← items.mapM (requiredActionEvidence responses finalAnswer)
  let evidence ← JevRequiredActionsEvidence.make actions
  if evidence.ids = state.elim [] JevRequiredActions.ids ∧
      evidence.actions.all (validRequiredActionTrace states) then
    some evidence
  else none

/-! ### Scoring answers -/

structure JevNoulScore where
  score : ℚ
  passed : Bool
  answers : List (Text × JevAnswer)

/-- `DecisionModelHelper.score_noul`. A noul answer has the two probabilities of yes and no. -/
def scoreNoul (answers : List (Text × JevAnswer)) (names : List Text) (threshold : ℚ)
    (veto : Option ℚ) : Option JevNoulScore :=
  let found := dictOf (names.map fun name => (name, answers.lookup name))
  let noul := found.filterMap fun (name, answer) =>
    (answer.filter fun answer => decide (answer.questionType = .noul)).map fun answer => (name, answer)
  if noul.isEmpty || decide (noul.length ≠ found.length) then none
  else
    let yes : List ℚ := noul.map fun (_, answer) => answer.probabilityOfTrue
    let score := yes.sum / yes.length
    let vetoed := veto.any fun veto => yes.any fun p => decide (p < veto)
    some ⟨score, decide (threshold ≤ score) && !vetoed, noul⟩

/-- `DecisionModelHelper.noul_passes` -/
def noulPasses (answers : List (Text × JevAnswer)) (name : Text) (threshold : ℚ) : Option Bool :=
  (scoreNoul answers [name] threshold none).map JevNoulScore.passed

/-! ### The check -/

/-- `question.name(identifier)` -/
def actionCompletedName (id : Text) : Text := lit "required_actions.completed." ++ id

/-- `evidence[identifier]`; an accepted handoff has an entry for every action. -/
def actionEvidence (evidence : JevRequiredActionsEvidence) (id : Text) :
    Option JevRequiredActionEvidence :=
  evidence.actions.find? fun item => item.id = id

def completionOf (evidence : JevRequiredActionsEvidence) (id : Text) : Option Int :=
  (actionEvidence evidence id).bind (·.completionTraceIndex)

def outputExcerptOf (evidence : JevRequiredActionsEvidence) (id : Text) : Option Text :=
  (actionEvidence evidence id).bind (·.outputExcerpt)

def isOutOfTrace (evidence : JevRequiredActionsEvidence) (action : JevRequiredAction) : Bool :=
  match completionOf evidence action.id with
  | none => true
  | some completion => action.predecessors.any fun predecessor =>
    match completionOf evidence predecessor with
    | none => true
    | some index => decide (completion ≤ index)

/-- One pass of the loop of `_ordered_action_failures`. -/
def orderedActionStep (evidence : JevRequiredActionsEvidence) (incomplete failures : List Text)
    (action : JevRequiredAction) : List Text :=
  if action.predecessors.isEmpty || decide (action.id ∈ incomplete) then failures
  else
    let predecessorFailed := action.predecessors.any fun id =>
      decide (id ∈ incomplete ∨ id ∈ failures)
    if predecessorFailed || isOutOfTrace evidence action then failures ++ [action.id] else failures

/-- `_ordered_action_failures` -/
def orderedActionFailures (state : JevRequiredActions) (evidence : JevRequiredActionsEvidence)
    (incomplete : List Text) : List Text :=
  state.actions.foldl (orderedActionStep evidence incomplete) []

/-- The actions that fail before their order is looked at. -/
def incompleteAlone (state : JevRequiredActions) (evidence : JevRequiredActionsEvidence)
    (answers : List (Text × JevAnswer)) (threshold : ℚ) : List Text :=
  state.ids.filter fun id => decide (noulPasses answers id threshold = some false) ||
    ((completionOf evidence id).isNone && (outputExcerptOf evidence id).isNone)

def actionAnswers (state : JevRequiredActions) (decision : DecisionModelResponse) :
    List (Text × JevAnswer) :=
  state.ids.filterMap fun id =>
    (decision.answers.lookup (actionCompletedName id)).map fun answer => (id, answer)

def unjudged (available : Bool) : JevDoneResult := ⟨none, true, [], [], available⟩

/-- `_required_actions` -/
def requiredActions (state : Option JevRequiredActions) (handoff : Option JevRequiredActionsEvidence)
    (decision : Option DecisionModelResponse) (threshold : ℚ) : JevDoneResult :=
  match state, handoff with
  | some state, some evidence =>
    if state.actions.isEmpty then unjudged true
    else
      match decision with
      | none => unjudged false
      | some decision =>
        match scoreNoul (actionAnswers state decision) state.ids threshold (some threshold) with
        | none => unjudged false
        | some verdict =>
          let alone := incompleteAlone state evidence verdict.answers threshold
          let failures := orderedActionFailures state evidence alone
          let incomplete := state.ids.filter fun id => decide (id ∈ alone ∨ id ∈ failures)
          ⟨some verdict.score, verdict.passed && incomplete.isEmpty, verdict.answers, incomplete,
            true⟩
  | _, _ => unjudged false

end VidbyteSdk.Agents.Jev

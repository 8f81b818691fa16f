import Mathlib.Algebra.Field.Rat
import VidbyteSdk.Lib.Propagation
import VidbyteSdk.Agents.Jev.RequiredActions

/-!
# What a required action that is not incomplete says

The failures of the check are a scan of the actions that passes failures on to later ones, and the
record admits only predecessors that come earlier. So an action that the check leaves out has every
predecessor, direct or not, left out and completed before it.
-/

namespace VidbyteSdk.Agents.Jev

open Lib Lib.Json

/-! ### Scoring answers -/

section Scoring

variable {answers : List (Text × JevAnswer)} {names : List Text} {name : Text} {threshold : ℚ}
  {veto : Option ℚ}

def AnswersNoul (answers : List (Text × JevAnswer)) (name : Text) (answer : JevAnswer) : Prop :=
  answers.lookup name = some answer ∧ answer.questionType = .noul

def noulEntry (answers : List (Text × JevAnswer)) (name : Text) : Option (Text × JevAnswer) :=
  ((answers.lookup name).filter fun answer => decide (answer.questionType = .noul)).map
    fun answer => (name, answer)

theorem noulEntry_eq_some {entry : Text × JevAnswer} :
    noulEntry answers name = some entry ↔
      ∃ answer, AnswersNoul answers name answer ∧ entry = (name, answer) := by
  simp only [noulEntry, AnswersNoul, Option.map_eq_some_iff, Option.filter_eq_some_iff,
    decide_eq_true_eq]
  constructor
  · rintro ⟨answer, h, rfl⟩
    exact ⟨answer, h, rfl⟩
  · rintro ⟨answer, h, rfl⟩
    exact ⟨answer, h, rfl⟩

theorem found_eq (hnodup : names.Nodup) :
    dictOf (names.map fun name => (name, answers.lookup name))
      = names.map fun name => (name, answers.lookup name) := by
  apply upsertAll_of_nodup
  simpa [List.map_map, Function.comp_def] using hnodup

theorem noul_eq :
    ((names.map fun name => (name, answers.lookup name)).filterMap fun (name, answer) =>
      (answer.filter fun answer => decide (answer.questionType = .noul)).map
        fun answer => (name, answer)) = names.filterMap (noulEntry answers) := by
  rw [List.filterMap_map]
  rfl

theorem scoreNoul_eq_some {verdict : JevNoulScore} (hnodup : names.Nodup)
    (h : scoreNoul answers names threshold veto = some verdict) :
    verdict.answers = names.filterMap (noulEntry answers) ∧
      ∀ name ∈ names, ∃ answer, AnswersNoul answers name answer := by
  simp only [scoreNoul, found_eq hnodup, noul_eq] at h
  split at h
  · cases h
  next hall =>
  rw [Bool.or_eq_true, not_or, decide_eq_true_eq, not_not, List.length_map,
    List.filterMap_length_eq_length] at hall
  obtain rfl := Option.some.inj h
  refine ⟨rfl, fun name hname => ?_⟩
  obtain ⟨entry, hentry⟩ := Option.isSome_iff_exists.mp (hall.2 name hname)
  obtain ⟨answer, hanswer, -⟩ := noulEntry_eq_some.mp hentry
  exact ⟨answer, hanswer⟩

theorem isSome_scoreNoul (hnodup : names.Nodup) (hne : names ≠ [])
    (h : ∀ name ∈ names, ∃ answer, AnswersNoul answers name answer) :
    (scoreNoul answers names threshold veto).isSome = true := by
  have hall : ∀ name ∈ names, (noulEntry answers name).isSome = true := by
    intro name hname
    obtain ⟨answer, hanswer⟩ := h name hname
    rw [noulEntry_eq_some.mpr ⟨answer, hanswer, rfl⟩]
    rfl
  have hlength := List.filterMap_length_eq_length.mpr hall
  simp only [scoreNoul, found_eq hnodup, noul_eq]
  rw [if_neg]
  · rfl
  · rw [Bool.or_eq_true, not_or, decide_eq_true_eq, not_not, List.length_map, List.isEmpty_iff]
    refine ⟨fun hnil => hne ?_, hlength⟩
    rw [hnil, List.length_nil] at hlength
    exact List.length_eq_zero_iff.mp hlength.symm

theorem lookup_of_scoreNoul {verdict : JevNoulScore} (hnodup : names.Nodup)
    (h : scoreNoul answers names threshold veto = some verdict) (hname : name ∈ names) :
    ∃ answer, AnswersNoul answers name answer ∧ AnswersNoul verdict.answers name answer := by
  obtain ⟨hanswers, hall⟩ := scoreNoul_eq_some hnodup h
  obtain ⟨answer, hanswer⟩ := hall name hname
  refine ⟨answer, hanswer, ?_, hanswer.2⟩
  have hlookup : (names.filterMap (noulEntry answers)).lookup name
      = (answers.lookup name).filter fun answer => decide (answer.questionType = .noul) :=
    lookup_filterMap_keys hname
  rw [hanswers, hlookup, hanswer.1]
  exact if_pos (decide_eq_true hanswer.2)

theorem noulPasses_eq {answer : JevAnswer} (h : AnswersNoul answers name answer) :
    noulPasses answers name threshold = some (answer.meets threshold) := by
  have hfound : dictOf ([name].map fun name => (name, answers.lookup name))
      = [(name, answers.lookup name)] := found_eq (List.nodup_singleton name)
  rw [noulPasses, scoreNoul]
  simp only [hfound, h.1, List.filterMap_cons, List.filterMap_nil, Option.filter_some, h.2,
    decide_true, if_true, Option.map_some, List.isEmpty_cons, List.length_cons, List.length_nil]
  simp [JevAnswer.meets, h.2]

end Scoring

/-! ### The evidence -/

variable {items : List JevRequiredActionEvidencePayload}

theorem of_requiredActionsEvidenceRecord
    {state : JevRequiredActions} {states responses : List Text} {finalAnswer : Text}
    {evidence : JevRequiredActionsEvidence}
    (h : requiredActionsEvidenceRecord items (some state) states responses finalAnswer
      = some evidence) :
    evidence.ids = state.ids ∧ ∀ item ∈ evidence.actions, validRequiredActionTrace states item := by
  simp only [requiredActionsEvidenceRecord, Option.bind_eq_bind, Option.bind_eq_some_iff] at h
  obtain ⟨actions, -, record, -, h⟩ := h
  split at h
  · next haccepted =>
    obtain rfl := Option.some.inj h
    exact ⟨haccepted.1, List.all_eq_true.mp haccepted.2⟩
  · cases h

/-! ### The order -/

section Order

variable (state : JevRequiredActions) (evidence : JevRequiredActionsEvidence)

def JevRequiredActions.Follows (id predecessor : Text) : Prop :=
  Needs JevRequiredAction.id JevRequiredAction.predecessors state.actions id predecessor

/-- An action was completed at a strictly smaller index of the trace than another. -/
def CompletedBefore (id id' : Text) : Prop :=
  ∃ index ∈ completionOf evidence id, ∃ index' ∈ completionOf evidence id', index < index'

def failsOrder (action : JevRequiredAction) : Bool :=
  !action.predecessors.isEmpty && isOutOfTrace evidence action

theorem orderedActionStep_eq (incomplete : List Text) :
    orderedActionStep evidence incomplete
      = propagateStep JevRequiredAction.id JevRequiredAction.predecessors (failsOrder evidence)
          incomplete := by
  funext failures action
  unfold orderedActionStep propagateStep failsOrder
  by_cases hid : action.id ∈ incomplete
  · simp [hid]
  · cases hpredecessors : action.predecessors with
    | nil => simp [hid]
    | cons predecessor predecessors => simp [hid, Bool.or_comm]

theorem orderedActionFailures_eq (incomplete : List Text) :
    orderedActionFailures state evidence incomplete
      = propagate JevRequiredAction.id JevRequiredAction.predecessors (failsOrder evidence)
          incomplete state.actions := by
  rw [orderedActionFailures, orderedActionStep_eq]
  rfl

theorem needsEarlier_actions :
    NeedsEarlier JevRequiredAction.id JevRequiredAction.predecessors state.actions :=
  fun action haction predecessor hpredecessor =>
    (state.earlier action haction predecessor hpredecessor).2

variable {evidence}

theorem completedBefore_of_failsOrder {action : JevRequiredAction}
    (h : failsOrder evidence action = false) {predecessor : Text}
    (hpredecessor : predecessor ∈ action.predecessors) :
    CompletedBefore evidence predecessor action.id := by
  have hne : action.predecessors.isEmpty = false := by
    rw [List.isEmpty_eq_false_iff]
    exact List.ne_nil_of_mem hpredecessor
  rw [failsOrder, hne, Bool.not_false, Bool.true_and] at h
  unfold isOutOfTrace at h
  split at h
  · cases h
  next completion hcompletion =>
  have hlate := List.any_eq_false.mp h predecessor hpredecessor
  split at hlate
  · exact absurd rfl hlate
  next index hindex =>
  refine ⟨index, hindex, completion, hcompletion, ?_⟩
  rwa [decide_eq_true_eq, Int.not_le] at hlate

theorem completedBefore_trans {a b c : Text} (hab : CompletedBefore evidence a b)
    (hbc : CompletedBefore evidence b c) : CompletedBefore evidence a c := by
  obtain ⟨i, hi, j, hj, hij⟩ := hab
  obtain ⟨j', hj', k, hk, hjk⟩ := hbc
  obtain rfl : j = j' := Option.mem_unique hj hj'
  exact ⟨i, hi, k, hk, hij.trans hjk⟩

def PassesAnswer (decision : DecisionModelResponse) (threshold : ℚ) (id : Text) : Prop :=
  ∃ answer, decision.answers.lookup (actionCompletedName id) = some answer ∧
    answer.meets threshold = true

def JevRequiredActions.Answered (decision : DecisionModelResponse) : Prop :=
  ∀ id ∈ state.ids, ∃ answer, AnswersNoul decision.answers (actionCompletedName id) answer

def CitesSuccess (evidence : JevRequiredActionsEvidence) (states : List Text) (id : Text) : Prop :=
  ∀ index ∈ completionOf evidence id, states[index.toNat]? = some (lit "succeeded")

/-- The evidence records a completion, as an index of the trace or as an excerpt of an output. -/
def HasCompletion (evidence : JevRequiredActionsEvidence) (id : Text) : Prop :=
  (completionOf evidence id).isSome = true ∨ (outputExcerptOf evidence id).isSome = true

end Order

/-! ### The check -/

section Check

variable {state : JevRequiredActions} {evidence : JevRequiredActionsEvidence}
  {decision : DecisionModelResponse} {threshold : ℚ}

theorem lookup_actionAnswers {id : Text} (hid : id ∈ state.ids) :
    (actionAnswers state decision).lookup id
      = decision.answers.lookup (actionCompletedName id) :=
  lookup_filterMap_keys hid

theorem available_requiredActions_iff :
    (requiredActions (some state) (some evidence) (some decision) threshold).available = true ↔
      state.Answered decision := by
  have hanswers : state.Answered decision ↔
      ∀ id ∈ state.ids, ∃ answer, AnswersNoul (actionAnswers state decision) id answer := by
    refine forall₂_congr fun id hid => ?_
    simp only [AnswersNoul, lookup_actionAnswers hid]
  rw [hanswers]
  simp only [requiredActions]
  split
  · next hempty =>
    have hids : state.ids = [] := by
      rw [JevRequiredActions.ids, List.isEmpty_iff.mp hempty]
      rfl
    simp [hids, unjudged]
  next hempty =>
  have hids : state.ids ≠ [] := by
    intro hnil
    exact hempty (List.isEmpty_iff.mpr (List.map_eq_nil_iff.mp hnil))
  split
  · next hverdict =>
    constructor
    · intro h
      cases h
    · intro h
      have hsome : (scoreNoul (actionAnswers state decision) state.ids threshold
          (some threshold)).isSome = true := isSome_scoreNoul state.unique hids h
      rw [hverdict] at hsome
      cases hsome
  · next verdict hverdict =>
    exact ⟨fun _ => (scoreNoul_eq_some state.unique hverdict).2, fun _ => rfl⟩

theorem incomplete_requiredActions
    (havailable : (requiredActions (some state) (some evidence) (some decision) threshold).available
      = true) (hne : state.actions ≠ []) :
    ∃ verdict, scoreNoul (actionAnswers state decision) state.ids threshold (some threshold)
        = some verdict ∧
      (requiredActions (some state) (some evidence) (some decision) threshold).incomplete
        = state.ids.filter fun id =>
          decide (id ∈ incompleteAlone state evidence verdict.answers threshold ∨
            id ∈ orderedActionFailures state evidence
              (incompleteAlone state evidence verdict.answers threshold)) := by
  have hempty : ¬ state.actions.isEmpty = true := fun h => hne (List.isEmpty_iff.mp h)
  simp only [requiredActions, if_neg hempty] at havailable ⊢
  split at havailable
  · cases havailable
  · next verdict hverdict => exact ⟨verdict, hverdict, rfl⟩

theorem notMem_incompleteAlone {verdict : JevNoulScore}
    (hverdict : scoreNoul (actionAnswers state decision) state.ids threshold (some threshold)
      = some verdict) {id : Text} (hid : id ∈ state.ids)
    (hnot : id ∉ incompleteAlone state evidence verdict.answers threshold) :
    PassesAnswer decision threshold id ∧ HasCompletion evidence id := by
  obtain ⟨answer, hgiven, hkept⟩ := lookup_of_scoreNoul state.unique hverdict hid
  rw [incompleteAlone, List.mem_filter, not_and, Bool.or_eq_true, not_or, decide_eq_true_eq,
    noulPasses_eq hkept] at hnot
  obtain ⟨hpasses, hcompletion⟩ := hnot hid
  constructor
  · refine ⟨answer, (lookup_actionAnswers hid).symm.trans hgiven.1, ?_⟩
    simpa using hpasses
  · rw [HasCompletion]
    by_contra hnone
    rw [not_or] at hnone
    simp_all

theorem citesSuccess_of_accepted {states responses : List Text} {finalAnswer : Text}
    (haccepted : requiredActionsEvidenceRecord items (some state) states responses finalAnswer
      = some evidence) (id : Text) : CitesSuccess evidence states id := by
  intro index hindex
  obtain ⟨item, hitem, hcompletion⟩ := Option.bind_eq_some_iff.mp hindex
  have hvalid := (of_requiredActionsEvidenceRecord haccepted).2 item (List.mem_of_find?_eq_some hitem)
  simp only [validRequiredActionTrace, hcompletion, Bool.and_eq_true, decide_eq_true_eq] at hvalid
  exact hvalid.2

/-- An action that the check leaves out of `incomplete` has a passing answer and a completion, and so
has every action that it names as a predecessor, directly or through others: none of them is
incomplete, and each was completed at a smaller index of the trace. A check that lacks the answer of
an action does not judge. -/
theorem requiredActions_inOrder {items : List JevRequiredActionEvidencePayload}
    {states responses : List Text} {finalAnswer : Text}
    (haccepted : requiredActionsEvidenceRecord items (some state) states responses finalAnswer
      = some evidence) (decision : DecisionModelResponse) (threshold : ℚ) :
    ((requiredActions (some state) (some evidence) (some decision) threshold).available = true ↔
      state.Answered decision) ∧
    (state.Answered decision → ∀ id ∈ state.ids,
      id ∉ (requiredActions (some state) (some evidence) (some decision) threshold).incomplete →
        PassesAnswer decision threshold id ∧
        (HasCompletion evidence id ∧ CitesSuccess evidence states id) ∧
          ∀ predecessor, Relation.TransGen state.Follows id predecessor →
            predecessor ∈ state.ids ∧
            predecessor ∉
              (requiredActions (some state) (some evidence) (some decision) threshold).incomplete ∧
            CompletedBefore evidence predecessor id) := by
  refine ⟨available_requiredActions_iff, fun hanswered id hid hnot => ?_⟩
  have hne : state.actions ≠ [] := by
    rintro hnil
    rw [JevRequiredActions.ids, hnil] at hid
    cases hid
  obtain ⟨verdict, hverdict, hincomplete⟩ :=
    incomplete_requiredActions (available_requiredActions_iff.mpr hanswered) hne
  have hclear : ∀ id ∈ state.ids, id ∉ (requiredActions (some state) (some evidence)
      (some decision) threshold).incomplete ↔
        id ∉ incompleteAlone state evidence verdict.answers threshold ∧
          id ∉ propagate JevRequiredAction.id JevRequiredAction.predecessors (failsOrder evidence)
            (incompleteAlone state evidence verdict.answers threshold) state.actions := by
    intro id hid
    rw [hincomplete, List.mem_filter, not_and, decide_eq_true_eq, not_or, orderedActionFailures_eq]
    exact ⟨fun h => h hid, fun h _ => h⟩
  obtain ⟨halone, hmarked⟩ := (hclear id hid).mp hnot
  obtain ⟨hanswer, hcompletion⟩ := notMem_incompleteAlone hverdict hid halone
  refine ⟨hanswer, ⟨hcompletion, citesSuccess_of_accepted haccepted id⟩, ?_⟩
  intro predecessor hfollows
  have hmem : predecessor ∈ state.ids := by
    obtain ⟨_, -, action, haction, -, hpredecessor⟩ := Relation.TransGen.tail'_iff.mp hfollows
    exact (state.earlier action haction predecessor hpredecessor).1
  have hdirect : ∀ action ∈ state.actions,
      action.id ∉ incompleteAlone state evidence verdict.answers threshold →
        failsOrder evidence action = false → ∀ predecessor ∈ action.predecessors,
          CompletedBefore evidence predecessor action.id :=
    fun action _ _ hfails _ hneed => completedBefore_of_failsOrder hfails hneed
  have htrans : ∀ a b c, CompletedBefore evidence a b → CompletedBefore evidence b c →
      CompletedBefore evidence a c := fun _ _ _ => completedBefore_trans
  obtain ⟨hpredecessor, hbefore⟩ := unmarked_of_transGen htrans state.unique
    (needsEarlier_actions state) hdirect hfollows halone hmarked
  exact ⟨hmem, (hclear predecessor hmem).mpr hpredecessor, hbefore⟩

def collectThenReview : JevRequiredActions where
  actions :=
    [⟨lit "collect", lit "Collect it.", lit "It is there.", [], by decide, by decide, by decide,
        by decide⟩,
      ⟨lit "review", lit "Review it.", lit "It is reviewed.", [lit "collect"], by decide, by decide,
        by decide, by decide⟩]
  unique := by decide
  earlier := by decide

def collectedAndReviewed : JevRequiredActionsEvidence where
  actions :=
    [⟨lit "collect", lit "Call 0.", [0], some 0, lit "None.", none, none, by decide, by decide,
        by decide, by decide, rfl, by decide, by decide⟩,
      ⟨lit "review", lit "Call 1.", [1], some 1, lit "None.", none, none, by decide, by decide,
        by decide, by decide, rfl, by decide, by decide⟩]
  unique := by decide

def bothConfirmed : DecisionModelResponse :=
  ⟨[(actionCompletedName (lit "collect"), ⟨.noul, [(lit "true", 1)]⟩),
    (actionCompletedName (lit "review"), ⟨.noul, [(lit "true", 1)]⟩)]⟩

theorem requiredActions_inOrder_collectThenReview :
    ((requiredActions (some collectThenReview) (some collectedAndReviewed) (some bothConfirmed)
        (1 / 2)).available = true ↔ collectThenReview.Answered bothConfirmed) ∧
    (collectThenReview.Answered bothConfirmed → ∀ id ∈ collectThenReview.ids,
      id ∉ (requiredActions (some collectThenReview) (some collectedAndReviewed)
          (some bothConfirmed) (1 / 2)).incomplete →
        PassesAnswer bothConfirmed (1 / 2) id ∧
        (HasCompletion collectedAndReviewed id ∧
          CitesSuccess collectedAndReviewed [lit "succeeded", lit "succeeded"] id) ∧
          ∀ predecessor, Relation.TransGen collectThenReview.Follows id predecessor →
            predecessor ∈ collectThenReview.ids ∧
            predecessor ∉ (requiredActions (some collectThenReview) (some collectedAndReviewed)
              (some bothConfirmed) (1 / 2)).incomplete ∧
            CompletedBefore collectedAndReviewed predecessor id) := by
  have haccepted : requiredActionsEvidenceRecord
      [⟨lit "collect", lit "Call 0.", [0], some 0, none, none, lit "None."⟩,
        ⟨lit "review", lit "Call 1.", [1], some 1, none, none, lit "None."⟩]
      (some collectThenReview) [lit "succeeded", lit "succeeded"] [] []
        = some collectedAndReviewed := by
    rfl
  exact requiredActions_inOrder haccepted bothConfirmed (1 / 2)

end Check

end VidbyteSdk.Agents.Jev

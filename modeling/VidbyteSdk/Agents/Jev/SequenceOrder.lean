import VidbyteSdk.Agents.Jev.RequiredSequence

/-!
# What a passed required sequence says

The log numbers its lines in order, an accepted handoff cites lines of the log and declares two of
them as the ends of each stage's work, and the check compares the ends of neighbouring stages. That
orders the declared spans. It orders the cited events where none of them strays out of the span of
its stage into another stage's work.
-/

namespace VidbyteSdk.Agents.Jev

open Lib Lib.Json

/-! ### The numbering of the log -/

theorem isdigit_digitsOf (n : ℕ) : isdigit (digitsOf n) = true := by
  have hne : (digitsOf n).isEmpty = false := by
    rw [List.isEmpty_eq_false_iff]
    exact digitsOf_ne_nil n
  have hall : (digitsOf n).all CodePoint.isDigit = true :=
    List.all_eq_true.mpr fun c hc => isDigit_of_mem_digitsOf hc
  rw [isdigit, hne, hall]
  rfl

theorem int?_digitsOf (n : ℕ) : int? (digitsOf n) = some (n : ℤ) := by
  have hdigit := isdigit_digitsOf n
  cases hd : digitsOf n with
  | nil => exact absurd hd (digitsOf_ne_nil n)
  | cons c rest =>
    have hc : c.isDigit = true := isDigit_of_mem_digitsOf (hd ▸ List.mem_cons_self)
    have hminus : c ≠ 0x2D := by
      rintro rfl
      revert hc
      decide
    have hplus : c ≠ 0x2B := by
      rintro rfl
      revert hc
      decide
    have hof : ofDigits (c :: rest) = n := hd ▸ ofDigits_digitsOf n
    rw [hd] at hdigit
    unfold int?
    split
    · next heq => exact absurd (List.cons.inj heq).1 hminus
    · next heq => exact absurd (List.cons.inj heq).1 hplus
    · rw [if_pos hdigit, hof]

@[simp] theorem eventPosition_eventId (n : ℕ) : eventPosition (eventId n) = n := by
  have hdrop : (eventId n).drop 1 = digitsOf n := rfl
  have hstart : startsWithE (eventId n) = true := rfl
  rw [eventPosition, hdrop, hstart, isdigit_digitsOf, int?_digitsOf]
  rfl

@[simp] theorem int?_removePrefix_eventId (n : ℕ) :
    int? (removePrefix (eventId n)) = some (n : ℤ) :=
  int?_digitsOf n

theorem eventId_injective : Function.Injective eventId := by
  intro m n h
  have hmn : (m : ℤ) = n := by
    rw [← eventPosition_eventId m, h, eventPosition_eventId n]
  exact Int.ofNat_inj.mp hmn

def Numbers (log : List LogLine × ℕ) : Prop :=
  log.1.map (·.number) = List.range' 1 log.1.length ∧ log.2 = log.1.length + 1

theorem numbers_appendLine {log : List LogLine × ℕ} (h : Numbers log) (event : LoggedEvent) :
    Numbers (appendLine log event) := by
  obtain ⟨lines, next⟩ := log
  obtain ⟨hnumbers, hnext⟩ := h
  simp only at hnumbers hnext
  subst hnext
  constructor
  · simp only [appendLine, List.map_append, List.map_cons, List.map_nil, List.length_append,
      List.length_cons, List.length_nil, hnumbers]
    rw [zero_add, List.range'_concat, one_mul, add_comm]
  · simp [appendLine]

theorem numbers_appendSegment {log : List LogLine × ℕ} (h : Numbers log)
    (segment : JevContinuationEvidence) : Numbers (appendSegment log segment) := by
  unfold appendSegment
  induction segmentEvents segment generalizing log with
  | nil => exact h
  | cons event events ih => exact ih (numbers_appendLine h event)

theorem numbers_runEventLog (request : Text) (segments : List JevContinuationEvidence) :
    (runEventLog request segments).map (·.number)
      = List.range' 1 (runEventLog request segments).length := by
  have hstart : Numbers ([⟨1, .user request⟩], 2) := ⟨rfl, rfl⟩
  unfold runEventLog
  generalize (([⟨1, .user request⟩], 2) : List LogLine × ℕ) = log at hstart
  induction segments generalizing log with
  | nil => exact hstart.1
  | cons segment segments ih =>
    exact ih (appendSegment log segment) (numbers_appendSegment hstart segment)

def position? (log : List LogLine) (id : Text) : Option ℕ :=
  log.findIdx? fun line => eventId line.number = id

def Before (log : List LogLine) (a b : Text) : Prop :=
  ∃ m ∈ position? log a, ∃ n ∈ position? log b, m < n

/-- An event that comes before another in the log, or is the same. -/
def NotAfter (log : List LogLine) (a b : Text) : Prop :=
  ∃ m ∈ position? log a, ∃ n ∈ position? log b, m ≤ n

section Log

variable {log : List LogLine} (hlog : log.map (·.number) = List.range' 1 log.length)

include hlog

theorem number_getElem {k : ℕ} (hk : k < log.length) : log[k].number = k + 1 := by
  have h : (log.map (·.number))[k]? = some (k + 1) := by
    rw [hlog, List.getElem?_range' hk, one_mul, add_comm]
  rw [List.getElem?_map, List.getElem?_eq_getElem hk] at h
  exact Option.some.inj h

theorem position?_eventId {k : ℕ} (hk : k < log.length) :
    position? log (eventId (k + 1)) = some k := by
  rw [position?, List.findIdx?_eq_some_iff_getElem]
  refine ⟨hk, ?_, ?_⟩
  · rw [number_getElem hlog hk]
    exact decide_eq_true rfl
  · intro i hi
    rw [number_getElem hlog (hi.trans hk)]
    intro h
    have := eventId_injective (of_decide_eq_true h)
    omega

theorem exists_position_of_mem {id : Text} (h : id ∈ eventIds log) :
    ∃ k, id = eventId (k + 1) ∧ position? log id = some k := by
  obtain ⟨line, hline, rfl⟩ := List.mem_map.mp h
  obtain ⟨k, hk, rfl⟩ := List.getElem_of_mem (List.mem_of_mem_filter hline)
  rw [number_getElem hlog hk]
  exact ⟨k, rfl, position?_eventId hlog hk⟩

theorem before_iff {a b : Text} (ha : a ∈ eventIds log) (hb : b ∈ eventIds log) :
    Before log a b ↔ eventPosition a < eventPosition b := by
  obtain ⟨k, rfl, hk⟩ := exists_position_of_mem hlog ha
  obtain ⟨l, rfl, hl⟩ := exists_position_of_mem hlog hb
  simp only [Before, hk, hl, Option.mem_some_iff, exists_eq_left', eventPosition_eventId]
  omega

theorem notAfter_iff {a b : Text} (ha : a ∈ eventIds log) (hb : b ∈ eventIds log) :
    NotAfter log a b ↔ eventPosition a ≤ eventPosition b := by
  obtain ⟨k, rfl, hk⟩ := exists_position_of_mem hlog ha
  obtain ⟨l, rfl, hl⟩ := exists_position_of_mem hlog hb
  simp only [NotAfter, hk, hl, Option.mem_some_iff, exists_eq_left', eventPosition_eventId]
  omega

theorem eventPosition_pos {a : Text} (ha : a ∈ eventIds log) : 0 < eventPosition a := by
  obtain ⟨k, rfl, -⟩ := exists_position_of_mem hlog ha
  rw [eventPosition_eventId]
  omega

end Log

/-! ### What an accepted handoff holds -/

/-- The evidence for one stage as the handoff accepts it: its citations are events of the log, and
the declared ends of its work are cited, in order. -/
structure Sound (eventIds : List Text) (item : JevSequenceStageEvidence) : Prop where
  cited : ∀ id ∈ item.cited, id ∈ eventIds
  ends : item.observedWork ≠ [] →
    item.firstEventId ∈ item.cited ∧ item.lastWorkEventId ∈ item.cited ∧
      isEventSpan item.firstEventId item.lastWorkEventId item.cited = true

theorem length_of_workRecords {works : List JevSequenceWorkPayload}
    {records : List JevSequenceWork} (h : workRecords works = some records) :
    records.length = works.length := by
  induction works generalizing records with
  | nil =>
    cases h
    rfl
  | cons work works ih =>
    simp only [workRecords, List.mapM_cons, Option.pure_def, Option.bind_eq_bind,
      Option.bind_eq_some_iff] at h
    obtain ⟨first, -, rest, hrest, hrecords⟩ := h
    cases hrecords
    rw [List.length_cons, List.length_cons, ih hrest]

theorem mem_of_isEventSpan {first last : Text} {cited : List Text}
    (h : isEventSpan first last cited = true) : first ∈ cited ∧ last ∈ cited := by
  unfold isEventSpan at h
  split at h
  · cases h
  · next hmem =>
    rw [not_or, not_not, not_not] at hmem
    exact hmem

theorem sound_of_sequenceStageEvidenceRecord {item : JevSequenceStageEvidencePayload}
    {expected eventIds : List Text} {evidence : JevSequenceStageEvidence}
    (h : sequenceStageEvidenceRecord item expected eventIds = some evidence) :
    Sound eventIds evidence ∧ evidence.stageId = item.stageId ∧ item.stageId ∈ expected := by
  unfold sequenceStageEvidenceRecord at h
  split at h
  · cases h
  next hexpected =>
  cases hobserved : workRecords item.observedWork with
  | none => simp [hobserved] at h
  | some observed =>
  cases hfailures : workRecords item.failures with
  | none => simp [hobserved, hfailures] at h
  | some failures =>
  simp only [hobserved, hfailures] at h
  split at h
  · cases h
  split at h
  · cases h
  next hcited =>
  rw [not_not] at hcited
  split at h
  · next hspan =>
    simp only [Option.bind_eq_bind, Option.bind_eq_some_iff] at h
    obtain ⟨outputs, -, inputs, -, missing, -, hevidence⟩ := h
    cases hevidence
    refine ⟨⟨fun id hid => hcited id (List.mem_append_left _ hid), fun hne => ?_⟩, rfl,
      not_not.mp hexpected⟩
    have hwork : item.observedWork.isEmpty = false := by
      rw [List.isEmpty_eq_false_iff]
      rintro hnil
      have hlength := length_of_workRecords hobserved
      rw [hnil] at hlength
      exact hne (List.length_eq_zero_iff.mp hlength)
    rw [acceptsSpan, hwork] at hspan
    simp only [Bool.false_eq_true, if_false, Bool.and_eq_true, decide_eq_true_eq] at hspan
    have hmem := mem_of_isEventSpan hspan.2
    exact ⟨hmem.1, hmem.2, hspan.2⟩
  · cases h

theorem sound_of_collectEntries {expected eventIds : List Text}
    {items : List JevSequenceStageEvidencePayload} {entries result : List JevSequenceStageEvidence}
    (h : collectEntries expected eventIds entries items = some result)
    (hentries : ∀ item ∈ entries, Sound eventIds item) : ∀ item ∈ result, Sound eventIds item := by
  induction items generalizing entries with
  | nil =>
    cases h
    exact hentries
  | cons item items ih =>
    unfold collectEntries at h
    split at h
    · cases h
    cases hrecord : sequenceStageEvidenceRecord item expected eventIds with
    | none => simp [hrecord] at h
    | some evidence =>
      simp only [hrecord] at h
      refine ih h fun other hother => ?_
      rcases List.mem_append.mp hother with hother | hother
      · exact hentries other hother
      · rw [List.mem_singleton.mp hother]
        exact (sound_of_sequenceStageEvidenceRecord hrecord).1

/-- The evidence of an accepted handoff: sound, and one entry for each stage. -/
structure Covers (eventIds : List Text) (sequence : JevRequiredSequence)
    (evidence : JevRequiredSequenceEvidence) : Prop where
  sound : ∀ item ∈ evidence.stages, Sound eventIds item
  every : ∀ stage ∈ sequence.stages, ∃ item, entryOf evidence.stages stage.id = some item

variable {item : JevSequenceStageEvidence}

theorem mem_of_entryOf {entries : List JevSequenceStageEvidence} {id : Text}
    (h : entryOf entries id = some item) :
    item ∈ entries ∧ item.stageId = id :=
  ⟨List.mem_of_find?_eq_some h, by simpa using List.find?_some h⟩

theorem covers_of_accepted {payload : JevRequiredSequenceEvidencePayload}
    {sequence : JevRequiredSequence} {eventIds : List Text} {required : Bool}
    {evidence : JevRequiredSequenceEvidence}
    (h : requiredSequenceEvidenceRecord (some payload) (some sequence) eventIds required
      = some (some evidence)) : Covers eventIds sequence evidence := by
  unfold requiredSequenceEvidenceRecord at h
  simp only at h
  generalize hexpected : (if sequence.active = true then sequence.ids else []) = expected at h
  cases hentries : collectEntries expected eventIds [] payload.stages with
  | none => simp [hentries] at h
  | some entries =>
    simp only [hentries] at h
    split at h
    · next hall =>
      cases h
      have hsound := sound_of_collectEntries hentries (by simp)
      constructor
      · intro item hitem
        obtain ⟨id, -, hid⟩ := List.mem_filterMap.mp hitem
        exact hsound item (mem_of_entryOf hid).1
      · intro stage hstage
        have hactive : sequence.active = true := by
          cases hinactive : sequence.active with
          | true => rfl
          | false =>
            rw [sequence.inactive hinactive] at hstage
            cases hstage
        rw [if_pos hactive] at hexpected
        have hid : stage.id ∈ expected := hexpected ▸ List.mem_map_of_mem hstage
        obtain ⟨entry, hentry, hentryId⟩ := List.mem_map.mp (hall stage.id hid)
        obtain ⟨found, hfound⟩ : ∃ found, entryOf entries stage.id = some found := by
          have hsome : (entries.find? fun item => item.stageId = stage.id).isSome = true :=
            List.find?_isSome.mpr ⟨entry, hentry, decide_eq_true hentryId⟩
          exact Option.isSome_iff_exists.mp hsome
        have hmem : found ∈ expected.filterMap (entryOf entries) :=
          List.mem_filterMap.mpr ⟨stage.id, hid, hfound⟩
        have hsome : ((expected.filterMap (entryOf entries)).find?
            fun item => item.stageId = stage.id).isSome = true :=
          List.find?_isSome.mpr ⟨found, hmem, decide_eq_true (mem_of_entryOf hfound).2⟩
        exact Option.isSome_iff_exists.mp hsome
    · cases h

/-! ### When a stage fails -/

section Stages

variable (log : List LogLine) (evidence : JevRequiredSequenceEvidence)
  (decision : Option DecisionModelResponse) (threshold : ℚ)

def Missing (stage : JevSequenceStage) : Prop :=
  ∀ item ∈ entryOf evidence.stages stage.id, item.observedWork = []

def HasPrevious (previous : Option JevSequenceStage) : Prop :=
  ∃ p ∈ previous, ∃ before ∈ entryOf evidence.stages p.id, before.observedWork ≠ []

/-- The stage's work starts at or before the last work event of the stage before it. -/
def OutOfOrder (previous : Option JevSequenceStage) (stage : JevSequenceStage) : Prop :=
  ∃ p ∈ previous, ∃ before ∈ entryOf evidence.stages p.id, before.observedWork ≠ [] ∧
    ∃ item ∈ entryOf evidence.stages stage.id, item.observedWork ≠ [] ∧
      NotAfter log item.firstEventId before.lastWorkEventId

def WorkAnswered (stage : JevSequenceStage) : Prop :=
  ∃ reply ∈ decision, ∃ answer, reply.answers.lookup (workShownName stage.id) = some answer

def LowWork (stage : JevSequenceStage) : Prop :=
  ∃ reply ∈ decision, ∃ answer, reply.answers.lookup (workShownName stage.id) = some answer ∧
    answer.meets threshold = false

/-- Jev's answer on the use of the previous output was asked for, is there and does not meet the
threshold. -/
def LowPrevious (previous : Option JevSequenceStage) (stage : JevSequenceStage) : Prop :=
  stage.dependsOnPrevious = true ∧ HasPrevious evidence previous ∧
    ∃ reply ∈ decision, ∃ answer,
      reply.answers.lookup (usesPreviousOutputName stage.id) = some answer ∧
        answer.meets threshold = false

/-- A stage that has no work, comes too early, or has an answer below the threshold. -/
def Fails (q : Option JevSequenceStage × JevSequenceStage) : Prop :=
  Missing evidence q.2 ∨ OutOfOrder log evidence q.1 q.2 ∨ LowWork decision threshold q.2 ∨
    LowPrevious evidence decision threshold q.1 q.2

/-- A stage that fails with the answers taken in their order: the use of the previous output counts
only where the work is answered. -/
def Counts (q : Option JevSequenceStage × JevSequenceStage) : Prop :=
  Missing evidence q.2 ∨ OutOfOrder log evidence q.1 q.2 ∨ LowWork decision threshold q.2 ∨
    (WorkAnswered decision q.2 ∧ LowPrevious evidence decision threshold q.1 q.2)

end Stages

variable {q : Option JevSequenceStage × JevSequenceStage}

theorem Counts.fails {log : List LogLine} {evidence : JevRequiredSequenceEvidence}
    {decision : Option DecisionModelResponse} {threshold : ℚ}
    (h : Counts log evidence decision threshold q) : Fails log evidence decision threshold q := by
  rcases h with h | h | h | h
  · exact .inl h
  · exact .inr (.inl h)
  · exact .inr (.inr (.inl h))
  · exact .inr (.inr (.inr h.2))

section Results

variable {log : List LogLine} {sequence : JevRequiredSequence}
  {evidence : JevRequiredSequenceEvidence} {decision : Option DecisionModelResponse} {threshold : ℚ}
  (hlog : log.map (·.number) = List.range' 1 log.length)
  (hcovers : Covers (eventIds log) sequence evidence)

theorem previousWork_eq_some {previous : Option JevSequenceStageEvidence}
    {before : JevSequenceStageEvidence} :
    previousWork previous = some before ↔ previous = some before ∧ before.observedWork ≠ [] := by
  rw [previousWork, Option.filter_eq_some_iff]
  simp

variable {previous : Option JevSequenceStage}

theorem isSome_previousWork :
    (previousWork (previous.bind fun p => entryOf evidence.stages p.id)).isSome = true ↔
      HasPrevious evidence previous := by
  rw [Option.isSome_iff_exists]
  simp only [previousWork_eq_some, Option.bind_eq_some_iff, HasPrevious, Option.mem_def]
  constructor
  · rintro ⟨before, ⟨p, hp, hbefore⟩, hne⟩
    exact ⟨p, hp, before, hbefore, hne⟩
  · rintro ⟨p, hp, before, hbefore, hne⟩
    exact ⟨before, ⟨p, hp, hbefore⟩, hne⟩

variable {stage : JevSequenceStage}

theorem incomplete_previousOutputResult {reply : DecisionModelResponse} {answers : List (Text × JevAnswer)}
    {probabilities : List ℚ} :
    (previousOutputResult stage (previous.bind fun p => entryOf evidence.stages p.id) reply threshold
        answers probabilities).incomplete = true ↔
      LowPrevious evidence (some reply) threshold previous stage := by
  unfold previousOutputResult
  split
  · next hasks =>
    rw [Bool.and_eq_true, isSome_previousWork] at hasks
    cases hanswer : reply.answers.lookup (usesPreviousOutputName stage.id) with
    | none =>
      constructor
      · intro h
        cases h
      · rintro ⟨-, -, reply', hreply, answer, hfound, -⟩
        cases hreply
        rw [hanswer] at hfound
        cases hfound
    | some answer =>
      constructor
      · intro h
        exact ⟨hasks.1, hasks.2, reply, rfl, answer, hanswer, by simpa using h⟩
      · rintro ⟨-, -, reply', hreply, answer', hfound, hlow⟩
        cases hreply
        rw [hanswer] at hfound
        cases hfound
        simpa using hlow
  · next hasks =>
    constructor
    · intro h
      cases h
    · rintro ⟨hdepends, hprevious, -⟩
      exact absurd ((Bool.and_eq_true _ _).mpr ⟨hdepends, isSome_previousWork.mpr hprevious⟩) hasks

include hlog hcovers

theorem isOutOfOrder_iff (hitem : entryOf evidence.stages stage.id = some item)
    (hne : item.observedWork ≠ []) :
    isOutOfOrder item (previous.bind fun p => entryOf evidence.stages p.id) = true ↔
      OutOfOrder log evidence previous stage := by
  have hsound := hcovers.sound item (mem_of_entryOf hitem).1
  have hfirst := hsound.cited _ (hsound.ends hne).1
  cases hprevious : previousWork (previous.bind fun p => entryOf evidence.stages p.id) with
  | none =>
    have hno : ¬ HasPrevious evidence previous := by
      rw [← isSome_previousWork, hprevious]
      decide
    constructor
    · intro h
      rw [isOutOfOrder, hprevious] at h
      cases h
    · rintro ⟨p, hp, before, hbefore, hwork, -⟩
      exact absurd ⟨p, hp, before, hbefore, hwork⟩ hno
  | some before =>
    obtain ⟨hbefore, hwork⟩ := previousWork_eq_some.mp hprevious
    obtain ⟨p, hp, hentry⟩ := Option.bind_eq_some_iff.mp hbefore
    have hsoundBefore := hcovers.sound before (mem_of_entryOf hentry).1
    have hlast := hsoundBefore.cited _ (hsoundBefore.ends hwork).2.1
    have hposFirst := eventPosition_pos hlog hfirst
    have hposLast := eventPosition_pos hlog hlast
    have horder : OutOfOrder log evidence previous stage ↔
        eventPosition item.firstEventId ≤ eventPosition before.lastWorkEventId := by
      rw [← notAfter_iff hlog hfirst hlast]
      constructor
      · rintro ⟨p', hp', before', hbefore', -, item', hitem', -, hnot⟩
        rw [Option.mem_def, hp] at hp'
        cases hp'
        rw [Option.mem_def, hentry] at hbefore'
        rw [Option.mem_def, hitem] at hitem'
        cases hbefore'
        cases hitem'
        exact hnot
      · intro hnot
        exact ⟨p, hp, before, hentry, hwork, item, hitem, hne, hnot⟩
    rw [horder, isOutOfOrder, hprevious]
    simp only [Bool.or_eq_true, decide_eq_true_eq]
    omega

theorem incomplete_iff :
    (requiredSequenceStageResult stage (entryOf evidence.stages stage.id)
        (previous.bind fun p => entryOf evidence.stages p.id) decision threshold).incomplete = true
      ↔ Counts log evidence decision threshold (previous, stage) := by
  unfold requiredSequenceStageResult
  cases hitem : (entryOf evidence.stages stage.id).filter fun item => !item.observedWork.isEmpty with
  | none =>
    have hmissing : Missing evidence stage := by
      intro item hentry
      rw [Option.mem_def] at hentry
      rw [hentry] at hitem
      simpa using hitem
    exact ⟨fun _ => .inl hmissing, fun _ => rfl⟩
  | some item =>
    rw [Option.filter_eq_some_iff] at hitem
    obtain ⟨hentry, hwork⟩ := hitem
    have hne : item.observedWork ≠ [] := by simpa using hwork
    have hthere : ¬ Missing evidence stage := fun hmissing => hne (hmissing item hentry)
    have horder : isOutOfOrder item (previous.bind fun p => entryOf evidence.stages p.id) = true ↔
        OutOfOrder log evidence previous stage := isOutOfOrder_iff hlog hcovers hentry hne
    dsimp only
    split
    · next hout => exact ⟨fun _ => .inr (.inl (horder.mp hout)), fun _ => rfl⟩
    next hout =>
    have hin : ¬ OutOfOrder log evidence previous stage := fun h => hout (horder.mpr h)
    cases decision with
    | none =>
      constructor
      · intro h
        cases h
      · rintro (h | h | ⟨reply, hreply, -⟩ | ⟨⟨reply, hreply, -⟩, -⟩)
        · exact absurd h hthere
        · exact absurd h hin
        · cases hreply
        · cases hreply
    | some reply =>
      cases hanswer : reply.answers.lookup (workShownName stage.id) with
      | none =>
        simp only [hanswer]
        constructor
        · intro h
          cases h
        · rintro (h | h | ⟨reply', hreply, answer, hfound, -⟩ | ⟨⟨reply', hreply, answer, hfound⟩, -⟩)
          · exact absurd h hthere
          · exact absurd h hin
          · cases hreply
            rw [hanswer] at hfound
            cases hfound
          · cases hreply
            rw [hanswer] at hfound
            cases hfound
      | some answer =>
        simp only [hanswer]
        cases hmeets : answer.meets threshold with
        | false =>
          rw [if_neg (by decide)]
          exact ⟨fun _ => .inr (.inr (.inl ⟨reply, rfl, answer, hanswer, hmeets⟩)), fun _ => rfl⟩
        | true =>
          rw [if_pos rfl, incomplete_previousOutputResult]
          constructor
          · intro h
            exact .inr (.inr (.inr ⟨⟨reply, rfl, answer, hanswer⟩, h⟩))
          · rintro (h | h | ⟨reply', hreply, answer', hfound, hlow⟩ | ⟨-, h⟩)
            · exact absurd h hthere
            · exact absurd h hin
            · cases hreply
              rw [hanswer] at hfound
              cases hfound
              rw [hmeets] at hlow
              cases hlow
            · exact h

end Results

/-! ### What the stages come to -/

theorem mem_upsertAll_id {ids : List Text} {i : Text} : i ∈ upsertAll id ids ↔ i ∈ ids := by
  constructor
  · exact mem_of_mem_upsertAll
  · intro h
    have hkey : id i ∈ (upsertAll id ids).map id := key_mem_upsertAll h
    rwa [List.map_id] at hkey

variable {results : List (Text × StageResult)}

theorem mem_incomplete_combineStages {asks : Bool} {i : Text} :
    i ∈ (combineStages results asks).incomplete ↔ ∃ r ∈ results, r.2.incomplete = true ∧ r.1 = i := by
  have hmem : i ∈ upsertAll id ((results.filter fun r => r.2.incomplete).map Prod.fst) ↔
      ∃ r ∈ results, r.2.incomplete = true ∧ r.1 = i := by
    rw [mem_upsertAll_id, List.mem_map]
    simp only [List.mem_filter, and_assoc]
  rw [← hmem]
  unfold combineStages
  dsimp only
  split
  · next h =>
    rw [Bool.and_eq_true, List.isEmpty_iff] at h
    rw [h.2]
  · rfl

theorem passed_combineStages {asks : Bool} :
    (combineStages results asks).passed = false ↔ ∃ r ∈ results, r.2.incomplete = true := by
  have hpassed : (combineStages results asks).passed
      = (combineStages results asks).incomplete.isEmpty := by
    unfold combineStages
    dsimp only
    split <;> rfl
  rw [hpassed, List.isEmpty_eq_false_iff_exists_mem]
  constructor
  · rintro ⟨i, hi⟩
    obtain ⟨r, hr, hincomplete, -⟩ := mem_incomplete_combineStages.mp hi
    exact ⟨r, hr, hincomplete⟩
  · rintro ⟨r, hr, hincomplete⟩
    exact ⟨r.1, mem_incomplete_combineStages.mpr ⟨r, hr, hincomplete, rfl⟩⟩

section Verdict

variable {log : List LogLine} {sequence : JevRequiredSequence}
  {evidence : JevRequiredSequenceEvidence} {decision : Option DecisionModelResponse} {threshold : ℚ}

theorem requiredSequence_of_no_stages (h : sequence.stages = []) :
    requiredSequence (some sequence) (some evidence) decision threshold
      = ⟨none, true, [], [], true⟩ := by
  rw [requiredSequence, Option.filter_some, h]
  simp

theorem requiredSequence_of_stages (h : sequence.stages ≠ []) :
    requiredSequence (some sequence) (some evidence) decision threshold
      = combineStages (stageResults sequence evidence decision threshold)
        (decision.isSome || !(evidence.stages.any fun item => !item.observedWork.isEmpty)) := by
  have hactive : sequence.active = true := by
    cases hinactive : sequence.active with
    | true => rfl
    | false => exact absurd (sequence.inactive hinactive) h
  have hfilter : (some sequence).filter (fun state => state.active && !state.stages.isEmpty)
      = some sequence := by
    rw [Option.filter_some, if_pos]
    rw [hactive, Bool.true_and, Bool.not_eq_true', List.isEmpty_eq_false_iff]
    exact h
  simp only [requiredSequence, hfilter]

variable (hlog : log.map (·.number) = List.range' 1 log.length)
  (hcovers : Covers (eventIds log) sequence evidence)

include hlog hcovers

theorem passed_requiredSequence :
    (requiredSequence (some sequence) (some evidence) decision threshold).passed = false ↔
      ∃ q ∈ withPrevious sequence.stages, Counts log evidence decision threshold q := by
  by_cases h : sequence.stages = []
  · rw [requiredSequence_of_no_stages h, h]
    simp [withPrevious]
  · rw [requiredSequence_of_stages h, passed_combineStages, stageResults]
    simp only [List.mem_map, exists_exists_and_eq_and]
    exact exists_congr fun q => and_congr_right fun _ => incomplete_iff hlog hcovers

theorem mem_incomplete_requiredSequence
    (hq : q ∈ withPrevious sequence.stages) (hcounts : Counts log evidence decision threshold q) :
    q.2.id ∈ (requiredSequence (some sequence) (some evidence) decision threshold).incomplete := by
  have h : sequence.stages ≠ [] := by
    intro h
    rw [h] at hq
    simp [withPrevious] at hq
  rw [requiredSequence_of_stages h, mem_incomplete_combineStages]
  exact ⟨_, List.mem_map_of_mem hq, (incomplete_iff hlog hcovers).mpr hcounts, rfl⟩

end Verdict

/-! ### From neighbours to every pair -/

variable {stages : List JevSequenceStage}

variable {R : JevSequenceStage → JevSequenceStage → Prop}

theorem isChain_of_zip {previous : JevSequenceStage}
    (h : ∀ q ∈ ((some previous :: stages.map some).zip stages), ∀ p ∈ q.1, R p q.2) :
    (previous :: stages).IsChain R := by
  induction stages generalizing previous with
  | nil => exact List.IsChain.singleton previous
  | cons stage stages ih =>
    rw [List.map_cons, List.zip_cons_cons, List.forall_mem_cons] at h
    exact List.isChain_cons_cons.mpr ⟨h.1 previous rfl, ih h.2⟩

theorem isChain_of_withPrevious (h : ∀ q ∈ withPrevious stages, ∀ p ∈ q.1, R p q.2) :
    stages.IsChain R := by
  cases stages with
  | nil => exact List.IsChain.nil
  | cons stage stages =>
    rw [withPrevious, List.map_cons, List.zip_cons_cons, List.forall_mem_cons] at h
    exact isChain_of_zip h.2

theorem exists_mem_withPrevious {stage : JevSequenceStage}
    (h : stage ∈ stages) : ∃ previous, (previous, stage) ∈ withPrevious stages := by
  have hsnd : (withPrevious stages).map Prod.snd = stages := by
    rw [withPrevious, List.map_snd_zip]
    simp
  rw [← hsnd] at h
  obtain ⟨⟨previous, stage⟩, hq, rfl⟩ := List.mem_map.mp h
  exact ⟨previous, hq⟩

theorem mem_of_mem_withPrevious (h : q ∈ withPrevious stages) :
    q.2 ∈ stages ∧ ∀ p ∈ q.1, p ∈ stages := by
  obtain ⟨hfst, hsnd⟩ := List.of_mem_zip (a := q.1) (b := q.2) h
  refine ⟨hsnd, fun p hp => ?_⟩
  rw [Option.mem_def] at hp
  rw [hp] at hfst
  simpa using hfst

theorem pairwise_of_isChain {α : Type*} {R : α → α → Prop} {l : List α} (h : l.IsChain R)
    (htrans : ∀ b ∈ l, ∀ a c, R a b → R b c → R a c) : l.Pairwise R := by
  induction l with
  | nil => exact List.Pairwise.nil
  | cons a l ih =>
    have hpairs := ih h.tail fun b hb => htrans b (List.mem_cons_of_mem a hb)
    refine List.pairwise_cons.mpr ⟨?_, hpairs⟩
    cases l with
    | nil => simp
    | cons b l =>
      have hab := (List.isChain_cons_cons.mp h).1
      rw [List.pairwise_cons] at hpairs
      intro c hc
      rcases List.mem_cons.mp hc with rfl | hc
      · exact hab
      · exact htrans b (by simp) a c hab (hpairs.1 c hc)

section Order

variable (log : List LogLine) (evidence : JevRequiredSequenceEvidence)

/-- The declared span of one stage's work ends before that of another starts. -/
def SpanBefore (s t : JevSequenceStage) : Prop :=
  ∀ a ∈ entryOf evidence.stages s.id, ∀ b ∈ entryOf evidence.stages t.id,
    Before log a.lastWorkEventId b.firstEventId

/-- All the work that one stage cites comes before all the work that another cites. -/
def WorkBefore (s t : JevSequenceStage) : Prop :=
  ∀ a ∈ entryOf evidence.stages s.id, ∀ b ∈ entryOf evidence.stages t.id,
    ∀ e ∈ a.cited, ∀ e' ∈ b.cited, Before log e e'

/-- An event cited for a stage lies outside the span that the stage declares, and reaches work that
is cited for another stage. -/
def Strays (s t : JevSequenceStage) : Prop :=
  ∃ a ∈ entryOf evidence.stages s.id, ∃ b ∈ entryOf evidence.stages t.id,
    ∃ e ∈ a.cited, ∃ e' ∈ b.cited,
      (Before log a.lastWorkEventId e ∨ Before log e' b.firstEventId) ∧ NotAfter log e' e

end Order

section Verdict

variable {log : List LogLine} {sequence : JevRequiredSequence}
  {evidence : JevRequiredSequenceEvidence} {decision : Option DecisionModelResponse} {threshold : ℚ}
  (hlog : log.map (·.number) = List.range' 1 log.length)
  (hcovers : Covers (eventIds log) sequence evidence)

include hlog

theorem Sound.span (hsound : Sound (eventIds log) item)
    (hne : item.observedWork ≠ []) :
    item.firstEventId ∈ eventIds log ∧ item.lastWorkEventId ∈ eventIds log ∧
      eventPosition item.firstEventId ≤ eventPosition item.lastWorkEventId := by
  obtain ⟨hfirst, hlast, hspan⟩ := hsound.ends hne
  have hfirst' := hsound.cited _ hfirst
  have hlast' := hsound.cited _ hlast
  refine ⟨hfirst', hlast', ?_⟩
  obtain ⟨k, hk, -⟩ := exists_position_of_mem hlog hfirst'
  obtain ⟨l, hl, -⟩ := exists_position_of_mem hlog hlast'
  rw [isEventSpan, if_neg (by simp [hfirst, hlast]), hk, hl] at hspan
  simp only [int?_removePrefix_eventId, Bool.and_eq_true, decide_eq_true_eq] at hspan
  rw [hk, hl, eventPosition_eventId, eventPosition_eventId]
  exact hspan.2

include hcovers

theorem pairwise_spanBefore (hthere : ∀ q ∈ withPrevious sequence.stages, ¬ Missing evidence q.2)
    (hin : ∀ q ∈ withPrevious sequence.stages, ¬ OutOfOrder log evidence q.1 q.2) :
    sequence.stages.Pairwise (SpanBefore log evidence) := by
  have hwork : ∀ s ∈ sequence.stages, ∀ item ∈ entryOf evidence.stages s.id,
      item.observedWork ≠ [] := by
    intro s hs item hitem hnil
    obtain ⟨previous, hq⟩ := exists_mem_withPrevious hs
    refine hthere _ hq fun other hother => ?_
    rw [Option.mem_def] at hitem hother
    rw [hitem] at hother
    cases hother
    exact hnil
  have hspan : ∀ s ∈ sequence.stages, ∀ item ∈ entryOf evidence.stages s.id,
      item.firstEventId ∈ eventIds log ∧ item.lastWorkEventId ∈ eventIds log ∧
        eventPosition item.firstEventId ≤ eventPosition item.lastWorkEventId := by
    intro s hs item hitem
    exact (hcovers.sound item (mem_of_entryOf hitem).1).span hlog (hwork s hs item hitem)
  refine pairwise_of_isChain (isChain_of_withPrevious fun q hq p hp a ha b hb => ?_) ?_
  · obtain ⟨hstage, hprevious⟩ := mem_of_mem_withPrevious hq
    have hlast := (hspan p (hprevious p hp) a ha).2.1
    have hfirst := (hspan q.2 hstage b hb).1
    rw [before_iff hlog hlast hfirst]
    by_contra hnot
    refine hin q hq ⟨p, hp, a, ha, hwork p (hprevious p hp) a ha, b, hb, hwork q.2 hstage b hb, ?_⟩
    rw [notAfter_iff hlog hfirst hlast]
    omega
  · intro t ht s u hst htu a ha c hc
    obtain ⟨b, hb⟩ := hcovers.every t ht
    obtain ⟨hfirst, hlast, hle⟩ := hspan t ht b hb
    obtain ⟨m, hm, n, hn, hmn⟩ := hst a ha b hb
    obtain ⟨m', hm', n', hn', hmn'⟩ := htu b hb c hc
    obtain ⟨k, hk, hkpos⟩ := exists_position_of_mem hlog hfirst
    obtain ⟨l, hl, hlpos⟩ := exists_position_of_mem hlog hlast
    rw [hk, hl, eventPosition_eventId, eventPosition_eventId] at hle
    rw [Option.mem_def, hkpos] at hn
    rw [Option.mem_def, hlpos] at hm'
    cases hn
    cases hm'
    exact ⟨m, hm, n', hn', by omega⟩

theorem workBefore_iff {s t : JevSequenceStage} (hspan : SpanBefore log evidence s t) :
    WorkBefore log evidence s t ↔ ¬ Strays log evidence s t := by
  have hmem : ∀ u : JevSequenceStage, ∀ a ∈ entryOf evidence.stages u.id, ∀ e ∈ a.cited,
      e ∈ eventIds log := by
    intro u a ha e he
    exact (hcovers.sound a (mem_of_entryOf ha).1).cited e he
  constructor
  · rintro hwork ⟨a, ha, b, hb, e, he, e', he', -, hnot⟩
    have hbefore := hwork a ha b hb e he e' he'
    rw [before_iff hlog (hmem s a ha e he) (hmem t b hb e' he')] at hbefore
    rw [notAfter_iff hlog (hmem t b hb e' he') (hmem s a ha e he)] at hnot
    omega
  · intro hstay a ha b hb e he e' he'
    have hends := hspan a ha b hb
    have hsound := hcovers.sound a (mem_of_entryOf ha).1
    have hsound' := hcovers.sound b (mem_of_entryOf hb).1
    have hne : a.observedWork ≠ [] := by
      intro hnil
      rw [JevSequenceStageEvidence.cited, hnil] at he
      cases he
    have hne' : b.observedWork ≠ [] := by
      intro hnil
      rw [JevSequenceStageEvidence.cited, hnil] at he'
      cases he'
    have hlast := (hsound.span hlog hne).2.1
    have hfirst := (hsound'.span hlog hne').1
    have hmemE := hmem s a ha e he
    have hmemE' := hmem t b hb e' he'
    rw [before_iff hlog hlast hfirst] at hends
    by_contra hnot
    refine hstay ⟨a, ha, b, hb, e, he, e', he', ?_, ?_⟩
    · rw [before_iff hlog hlast hmemE, before_iff hlog hmemE' hfirst]
      rw [before_iff hlog hmemE hmemE'] at hnot
      omega
    · rw [notAfter_iff hlog hmemE' hmemE]
      rw [before_iff hlog hmemE hmemE'] at hnot
      omega

end Verdict

theorem not_strays_of_ends {log : List LogLine} {evidence : JevRequiredSequenceEvidence}
    (hends : ∀ item ∈ evidence.stages, ∀ e ∈ item.cited,
      NotAfter log item.firstEventId e ∧ NotAfter log e item.lastWorkEventId)
    (s t : JevSequenceStage) : ¬ Strays log evidence s t := by
  have hclash : ∀ a b, NotAfter log a b → ¬ Before log b a := by
    rintro a b ⟨m, hm, n, hn, hmn⟩ ⟨n', hn', m', hm', hlt⟩
    rw [Option.mem_def] at hm hn hm' hn'
    rw [hm] at hm'
    rw [hn] at hn'
    cases hm'
    cases hn'
    omega
  rintro ⟨a, ha, b, hb, e, he, e', he', hstray | hstray, -⟩
  · exact hclash _ _ (hends a (mem_of_entryOf ha).1 e he).2 hstray
  · exact hclash _ _ (hends b (mem_of_entryOf hb).1 e' he').1 hstray

/-! ### The verdict -/

/-- A result of the check on an accepted handoff that says what it should: it fails exactly when a
stage fails, a stage without work or out of order is never hidden, and a pass means that the cited
work is in order. -/
structure SaysInOrder (log : List LogLine) (sequence : JevRequiredSequence)
    (evidence : JevRequiredSequenceEvidence) (decision : Option DecisionModelResponse)
    (threshold : ℚ) (result : JevDoneResult) : Prop where
  fails : result.passed = false ↔
    ∃ q ∈ withPrevious sequence.stages, Fails log evidence decision threshold q
  shown : ∀ q ∈ withPrevious sequence.stages,
    Missing evidence q.2 ∨ OutOfOrder log evidence q.1 q.2 →
      result.passed = false ∧ q.2.id ∈ result.incomplete
  ordered : result.passed = true → sequence.stages.Pairwise (WorkBefore log evidence)

/-- **What a passed required sequence says.** On an accepted handoff the result says what it should
exactly when a stage counts against the check anyway, or else every low answer on the use of the
previous output comes with an answer on the work, and no citation strays. -/
theorem says_in_order_iff (request : Text) (segments : List JevContinuationEvidence)
    (payload : JevRequiredSequenceEvidencePayload) (sequence : JevRequiredSequence)
    (required : Bool) (evidence : JevRequiredSequenceEvidence)
    (decision : Option DecisionModelResponse) (threshold : ℚ)
    (haccepted : requiredSequenceEvidenceRecord (some payload) (some sequence)
      (eventIds (runEventLog request segments)) required = some (some evidence)) :
    SaysInOrder (runEventLog request segments) sequence evidence decision threshold
        (requiredSequence (some sequence) (some evidence) decision threshold) ↔
      (∃ q ∈ withPrevious sequence.stages,
          Counts (runEventLog request segments) evidence decision threshold q) ∨
        (∀ q ∈ withPrevious sequence.stages,
          LowPrevious evidence decision threshold q.1 q.2 → WorkAnswered decision q.2) ∧
        sequence.stages.Pairwise fun s t =>
          ¬ Strays (runEventLog request segments) evidence s t := by
  have hlog := numbers_runEventLog request segments
  have hcovers := covers_of_accepted haccepted
  generalize runEventLog request segments = log at hlog hcovers ⊢
  have hpassed : (requiredSequence (some sequence) (some evidence) decision threshold).passed = false
      ↔ ∃ q ∈ withPrevious sequence.stages, Counts log evidence decision threshold q :=
    passed_requiredSequence hlog hcovers
  by_cases hcounts : ∃ q ∈ withPrevious sequence.stages, Counts log evidence decision threshold q
  · have hfailed := hpassed.mpr hcounts
    refine ⟨fun _ => .inl hcounts, fun _ => ⟨?_, ?_, ?_⟩⟩
    · obtain ⟨q, hq, h⟩ := hcounts
      exact ⟨fun _ => ⟨q, hq, h.fails⟩, fun _ => hfailed⟩
    · intro q hq h
      refine ⟨hfailed, mem_incomplete_requiredSequence hlog hcovers hq ?_⟩
      exact h.elim .inl fun h => .inr (.inl h)
    · intro h
      rw [h] at hfailed
      cases hfailed
  · have hnone : ∀ q ∈ withPrevious sequence.stages, ¬ Counts log evidence decision threshold q :=
      fun q hq h => hcounts ⟨q, hq, h⟩
    have hpass :
        (requiredSequence (some sequence) (some evidence) decision threshold).passed = true := by
      rw [← Bool.not_eq_false, hpassed]
      exact hcounts
    have hspans := pairwise_spanBefore hlog hcovers
      (fun q hq h => hnone q hq (.inl h)) (fun q hq h => hnone q hq (.inr (.inl h)))
    have hpairs : sequence.stages.Pairwise (WorkBefore log evidence) ↔
        sequence.stages.Pairwise fun s t => ¬ Strays log evidence s t := by
      constructor
      · intro h
        exact (h.and hspans).imp fun h => (workBefore_iff hlog hcovers h.2).mp h.1
      · intro h
        exact (h.and hspans).imp fun h => (workBefore_iff hlog hcovers h.2).mpr h.1
    rw [or_iff_right hcounts]
    constructor
    · intro h
      refine ⟨fun q hq hlow => ?_, hpairs.mp (h.ordered hpass)⟩
      have hfailed := h.fails.mpr ⟨q, hq, .inr (.inr (.inr hlow))⟩
      rw [hpass] at hfailed
      cases hfailed
    · rintro ⟨hanswered, hstay⟩
      refine ⟨?_, ?_, fun _ => hpairs.mpr hstay⟩
      · refine ⟨fun h => absurd (hpass.symm.trans h) (by decide), ?_⟩
        rintro ⟨q, hq, h | h | h | h⟩
        · exact absurd (.inl h) (hnone q hq)
        · exact absurd (.inr (.inl h)) (hnone q hq)
        · exact absurd (.inr (.inr (.inl h))) (hnone q hq)
        · exact absurd (.inr (.inr (.inr ⟨hanswered q hq h, h⟩))) (hnone q hq)
      · rintro q hq (h | h)
        · exact absurd (.inl h) (hnone q hq)
        · exact absurd (.inr (.inl h)) (hnone q hq)

/-! ### A citation that strays -/

def letters : List Text := [word ['a'], word ['b'], word ['c']]

/-- Three responses: the events `E2`, `E3` and `E4`. -/
def threeResponses : List JevContinuationEvidence := [⟨letters, []⟩]

def stageId (n : ℕ) : Text := word "stage_".toList ++ digitsOf n

def twoStages : JevRequiredSequence where
  active := true
  stages := [⟨stageId 1, false⟩, ⟨stageId 2, false⟩]
  unique := by decide +kernel
  inactive := nofun

def stagePayload (n : ℕ) (cited : List Text) (first last : Text) :
    JevSequenceStageEvidencePayload :=
  ⟨stageId n, [⟨word ['w'], cited⟩], [], [], first, last, [], []⟩

def payloadOf (cited : List Text) : JevRequiredSequenceEvidencePayload :=
  ⟨[stagePayload 1 cited (eventId 2) (eventId 2), stagePayload 2 [eventId 3] (eventId 3) (eventId 3)]⟩

def certain : JevAnswer := ⟨.noul, [(jevNoulTrue, 1)]⟩

def bothShown : DecisionModelResponse :=
  ⟨[(workShownName (stageId 1), certain), (workShownName (stageId 2), certain)]⟩

def stageEvidence (n : ℕ) (work : JevSequenceWork) (first last : Text) : JevSequenceStageEvidence :=
  ⟨stageId n, [work], [], [], first, last, [], []⟩

def evidenceOf (cited : List Text) (h : ∀ id ∈ cited, Text.isBlank id = false) :
    JevRequiredSequenceEvidence :=
  ⟨[stageEvidence 1 ⟨word ['w'], cited, by decide, h⟩ (eventId 2) (eventId 2),
    stageEvidence 2 ⟨word ['w'], [eventId 3], by decide, by decide +kernel⟩ (eventId 3) (eventId 3)]⟩

theorem accepted_stray : requiredSequenceEvidenceRecord (some (payloadOf [eventId 2, eventId 4]))
    (some twoStages) (eventIds (runEventLog [] threeResponses)) true
      = some (some (evidenceOf [eventId 2, eventId 4] (by decide +kernel))) := by
  rfl

/-- The first stage cites `E4` although it declares that it ended at `E2`; the second stage's `E3`
comes before it, and the check passes. -/
theorem passed_out_of_order :
    ¬ ∀ (request : Text) (segments : List JevContinuationEvidence)
      (payload : JevRequiredSequenceEvidencePayload) (sequence : JevRequiredSequence)
      (required : Bool) (evidence : JevRequiredSequenceEvidence)
      (decision : Option DecisionModelResponse) (threshold : ℚ),
      requiredSequenceEvidenceRecord (some payload) (some sequence)
        (eventIds (runEventLog request segments)) required = some (some evidence) →
      SaysInOrder (runEventLog request segments) sequence evidence decision threshold
        (requiredSequence (some sequence) (some evidence) decision threshold) := by
  intro h
  have hsays := h [] threeResponses _ twoStages true _ (some bothShown) (3 / 4) accepted_stray
  have hpairs := hsays.ordered (by decide +kernel)
  have hwork := (List.pairwise_cons.mp hpairs).1 ⟨stageId 2, false⟩ (by decide +kernel)
  obtain ⟨m, hm, n, hn, hmn⟩ := hwork _ rfl _ rfl (eventId 4) (by decide +kernel) (eventId 3)
    (by decide +kernel)
  have hfour : position? (runEventLog [] threeResponses) (eventId 4) = some 3 := by decide +kernel
  have hthree : position? (runEventLog [] threeResponses) (eventId 3) = some 2 := by decide +kernel
  rw [Option.mem_def, hfour] at hm
  rw [Option.mem_def, hthree] at hn
  cases hm
  cases hn
  omega

theorem says_in_order_iff_one_citation :
    SaysInOrder (runEventLog [] threeResponses) twoStages
      (evidenceOf [eventId 2] (by decide +kernel)) (some bothShown) (3 / 4)
      (requiredSequence (some twoStages) (some (evidenceOf [eventId 2] (by decide +kernel)))
        (some bothShown) (3 / 4)) := by
  refine (says_in_order_iff [] threeResponses (payloadOf [eventId 2]) twoStages true _ _ _ rfl).mpr
    (.inr ⟨?_, ?_⟩)
  · rintro q hq ⟨hdepends, -⟩
    have hindependent : ∀ q ∈ withPrevious twoStages.stages, q.2.dependsOnPrevious = false :=
      forall_mem_of_all (by decide +kernel)
    rw [hindependent q hq] at hdepends
    cases hdepends
  · refine List.pairwise_of_forall fun s t => not_strays_of_ends ?_ s t
    have hlog := numbers_runEventLog [] threeResponses
    have hends : ∀ item ∈ (evidenceOf [eventId 2] (by decide +kernel)).stages, ∀ e ∈ item.cited,
        e ∈ eventIds (runEventLog [] threeResponses) ∧ item.firstEventId = e ∧
          item.lastWorkEventId = e := by
      intro item hitem e he
      rcases List.mem_pair.mp hitem with rfl | rfl
      · obtain rfl := List.mem_singleton.mp he
        exact ⟨by decide +kernel, rfl, rfl⟩
      · obtain rfl := List.mem_singleton.mp he
        exact ⟨by decide +kernel, rfl, rfl⟩
    intro item hitem e he
    obtain ⟨hmem, hfirst, hlast⟩ := hends item hitem e he
    rw [hfirst, hlast, notAfter_iff hlog hmem hmem]
    exact ⟨le_rfl, le_rfl⟩

end VidbyteSdk.Agents.Jev

import VidbyteSdk.Agents.Infinite.Entries

/-!
# Result cards

The keys of agents and of the pairs they launch, and the card that a finished pair leaves in the
run's journal, with its JSON form.
-/

namespace VidbyteSdk.Agents.Infinite

open VidbyteSdk.Lib

/-- `^[a-z0-9][a-z0-9-]{0,63}$` -/
def matchesTaskNamePattern : Text → Bool
  | [] => false
  | c :: rest => isTagStart c && rest.length ≤ 63 && rest.all fun d => isTagStart d || d = 0x2D

/-- `InfiniteTaskCard.name` -/
abbrev TaskName := { name : Text // matchesTaskNamePattern name = true }

inductive AgentKey
  | root
  | generator (parent : AgentKey) (name : TaskName)
  deriving DecidableEq

structure PairKey where
  parent : AgentKey
  name : TaskName
  deriving DecidableEq

abbrev slash : CodePoint := 0x2F

def infiniteRootKey : Text := Json.word ['r', 'o', 'o', 't']

def infiniteGeneratorKey : Text :=
  Json.word ['g', 'e', 'n']

def AgentKey.text : AgentKey → Text
  | .root => infiniteRootKey
  | .generator parent name =>
    parent.text ++ slash :: name.val ++ slash :: infiniteGeneratorKey

/-- `f"{self.key}/{card.name}"` -/
def PairKey.text (key : PairKey) : Text := key.parent.text ++ slash :: key.name.val

inductive InfiniteResultStatus
  | done
  | partial_
  | failed
  deriving DecidableEq

def InfiniteResultStatus.value : InfiniteResultStatus → Text
  | .done => Json.word ['d', 'o', 'n', 'e']
  | .partial_ => Json.word ['p', 'a', 'r', 't', 'i', 'a', 'l']
  | .failed => Json.word ['f', 'a', 'i', 'l', 'e', 'd']

/-- `InfiniteResultStatus(value)` -/
def InfiniteResultStatus.ofValue (t : Text) : Option InfiniteResultStatus :=
  [.done, .partial_, .failed].find? fun status => status.value = t

inductive InfiniteVerdict
  | passed
  | fixed
  | failed
  | unchecked
  deriving DecidableEq

def InfiniteVerdict.value : InfiniteVerdict → Text
  | .passed => Json.word ['p', 'a', 's', 's', 'e', 'd']
  | .fixed => Json.word ['f', 'i', 'x', 'e', 'd']
  | .failed => Json.word ['f', 'a', 'i', 'l', 'e', 'd']
  | .unchecked => Json.word ['u', 'n', 'c', 'h', 'e', 'c', 'k', 'e', 'd']

/-- `InfiniteVerdict(value)` -/
def InfiniteVerdict.ofValue (t : Text) : Option InfiniteVerdict :=
  [.passed, .fixed, .failed, .unchecked].find? fun verdict => verdict.value = t

/-- What `InfiniteResultCard` checks of its fields; a summary and a review may be any text. -/
def cardProblemFree (name key : Text) (entries : List Int) (dropped files : List Text) : Bool :=
  (!Text.isBlank name && matchesTaskNamePattern name) && isTextLine key &&
    (entries.all fun n => infiniteFirstEntryId ≤ n) && (dropped.all fun t => !Text.isBlank t) &&
    files.all isTextLine

structure InfiniteResultCard where
  name : Text
  key : Text
  status : InfiniteResultStatus
  verdict : InfiniteVerdict
  summary : Text
  review : Text
  entries : List Int
  dropped : List Text
  files : List Text
  valid : cardProblemFree name key entries dropped files = true
  deriving DecidableEq

/-! ### The JSON form -/

abbrev nameKey : Text := Json.word ['n', 'a', 'm', 'e']
abbrev keyKey : Text := Json.word ['k', 'e', 'y']
abbrev statusKey : Text := Json.word ['s', 't', 'a', 't', 'u', 's']
abbrev verdictKey : Text := Json.word ['v', 'e', 'r', 'd', 'i', 'c', 't']
abbrev summaryKey : Text := Json.word ['s', 'u', 'm', 'm', 'a', 'r', 'y']
abbrev reviewKey : Text := Json.word ['r', 'e', 'v', 'i', 'e', 'w']
abbrev entriesKey : Text := Json.word ['e', 'n', 't', 'r', 'i', 'e', 's']
abbrev droppedKey : Text := Json.word ['d', 'r', 'o', 'p', 'p', 'e', 'd']
abbrev filesKey : Text := Json.word ['f', 'i', 'l', 'e', 's']

def cardFields : List Text :=
  [nameKey, keyKey, statusKey, verdictKey, summaryKey, reviewKey, entriesKey, droppedKey, filesKey]

/-- `asdict(card)` -/
def cardRecord (card : InfiniteResultCard) : List (Text × Json) :=
  [(nameKey, .str card.name), (keyKey, .str card.key), (statusKey, .str card.status.value),
    (verdictKey, .str card.verdict.value), (summaryKey, .str card.summary),
    (reviewKey, .str card.review), (entriesKey, .arr (card.entries.map .int)),
    (droppedKey, .arr (card.dropped.map .str)), (filesKey, .arr (card.files.map .str))]

/-- `tuple(value)`: the items of a list, the characters of a text, the keys of a mapping. -/
def asTuple : Json → Option (List Json)
  | .arr items => some items
  | .str t => some (t.map fun c => .str [c])
  | .obj members => some (members.map fun m => .str m.1)
  | _ => none

/-- A card from its fields, or `none` where `InfiniteResultCard` raises. -/
def InfiniteResultCard.make (name key : Text) (status : InfiniteResultStatus)
    (verdict : InfiniteVerdict) (summary review : Text) (entries : List Int)
    (dropped files : List Text) : Option InfiniteResultCard :=
  if h : cardProblemFree name key entries dropped files = true then
    some ⟨name, key, status, verdict, summary, review, entries, dropped, files, h⟩
  else none

/-- The card that a journal record holds; a field too many is an error like one too few. -/
def cardOfJson : Json → Option InfiniteResultCard
  | .obj record =>
    if record.all fun m => m.1 ∈ cardFields then do
      let status ← ((record.lookup statusKey).bind asText).bind InfiniteResultStatus.ofValue
      let verdict ← ((record.lookup verdictKey).bind asText).bind InfiniteVerdict.ofValue
      let entries ← (record.lookup entriesKey).bind asTuple
      let dropped ← (record.lookup droppedKey).bind asTuple
      let files ← (record.lookup filesKey).bind asTuple
      let name ← (record.lookup nameKey).bind asText
      let key ← (record.lookup keyKey).bind asText
      let summary ← (record.lookup summaryKey).bind asText
      let review ← (record.lookup reviewKey).bind asText
      let entries ← entries.mapM asInt
      let dropped ← dropped.mapM asText
      let files ← files.mapM asText
      InfiniteResultCard.make name key status verdict summary review entries dropped files
    else none
  | _ => none

/-! ### Reading a written card -/

theorem isBlank_joinPairs (t : Text) : Text.isBlank (Json.joinPairs t) = Text.isBlank t := by
  apply Json.all_joinPairs
  intro c hc
  simp only [CodePoint.isSpace, Bool.or_eq_true, Bool.and_eq_true, decide_eq_true_eq,
    Fin.ext_iff] at hc
  omega

theorem isOneLine_joinPairs {t : Text} (h : Text.isOneLine t = true) :
    Text.isOneLine (Json.joinPairs t) = true := by
  simp only [Text.isOneLine, Bool.not_eq_true', List.any_eq_false] at *
  intro c hc hbreak
  rcases Json.mem_joinPairs hc with hmem | hlarge
  · exact h c hmem hbreak
  · simp only [CodePoint.isLineBreak, Bool.or_eq_true, Bool.and_eq_true, decide_eq_true_eq,
      Fin.ext_iff] at hbreak
    omega

theorem isTextLine_joinPairs {t : Text} (h : isTextLine t = true) :
    isTextLine (Json.joinPairs t) = true := by
  rw [isTextLine, Bool.and_eq_true] at *
  rw [isBlank_joinPairs]
  exact ⟨h.1, isOneLine_joinPairs h.2⟩

theorem isHigh_of_isTagStart {c : CodePoint} (h : isTagStart c = true) : c.isHigh = false := by
  simp only [isTagStart, CodePoint.isDigit, Bool.or_eq_true, Bool.and_eq_true,
    decide_eq_true_eq] at h
  simp only [CodePoint.isHigh, Bool.and_eq_false_iff, decide_eq_false_iff_not]
  omega

theorem isHigh_of_matchesTaskNamePattern {t : Text} (h : matchesTaskNamePattern t = true) :
    ∀ c ∈ t, c.isHigh = false := by
  match t with
  | c :: rest =>
    simp only [matchesTaskNamePattern, Bool.and_eq_true, List.all_eq_true, Bool.or_eq_true,
      decide_eq_true_eq] at h
    intro d hd
    rcases List.mem_cons.mp hd with rfl | hd
    · exact isHigh_of_isTagStart h.1.1
    rcases h.2 d hd with hd | rfl
    · exact isHigh_of_isTagStart hd
    · decide

theorem joinPairs_taskName {t : Text} (h : matchesTaskNamePattern t = true) :
    Json.joinPairs t = t :=
  Json.joinPairs_eq_self (Json.noPairs_of_forall (isHigh_of_matchesTaskNamePattern h))

theorem isHigh_infiniteRootKey : ∀ c ∈ infiniteRootKey, c.isHigh = false := by
  have hall : (infiniteRootKey.all fun c => c.isHigh = false) = true := by decide
  simpa only [List.all_eq_true, decide_eq_true_eq] using hall

theorem isHigh_infiniteGeneratorKey : ∀ c ∈ infiniteGeneratorKey, c.isHigh = false := by
  have hall : (infiniteGeneratorKey.all fun c => c.isHigh = false) = true := by decide
  simpa only [List.all_eq_true, decide_eq_true_eq] using hall

theorem isHigh_agentKey (key : AgentKey) : ∀ c ∈ key.text, c.isHigh = false := by
  induction key with
  | root => exact isHigh_infiniteRootKey
  | generator parent name ih =>
    have hslash : slash.isHigh = false := by decide
    intro c hc
    simp only [AgentKey.text, List.mem_append, List.mem_cons] at hc
    rcases hc with (hc | rfl | hc) | rfl | hc
    · exact ih c hc
    · exact hslash
    · exact isHigh_of_matchesTaskNamePattern name.property c hc
    · exact hslash
    · exact isHigh_infiniteGeneratorKey c hc

theorem joinPairs_pairKey (key : PairKey) : Json.joinPairs key.text = key.text := by
  apply Json.joinPairs_eq_self
  apply Json.noPairs_of_forall
  intro c hc
  rcases List.mem_append.mp hc with hc | hc
  · exact isHigh_agentKey key.parent c hc
  rcases List.mem_cons.mp hc with rfl | hc
  · decide
  · exact isHigh_of_matchesTaskNamePattern key.name.property c hc

namespace InfiniteResultCard

theorem valid_joinPairs (card : InfiniteResultCard) :
    cardProblemFree card.name (Json.joinPairs card.key) card.entries
      (card.dropped.map Json.joinPairs) (card.files.map Json.joinPairs) = true := by
  have hvalid := card.valid
  simp only [cardProblemFree, Bool.and_eq_true, List.all_eq_true, List.all_map,
    Function.comp_apply, isBlank_joinPairs] at hvalid ⊢
  obtain ⟨⟨⟨⟨hname, hkey⟩, hentries⟩, hdropped⟩, hfiles⟩ := hvalid
  exact ⟨⟨⟨⟨hname, isTextLine_joinPairs hkey⟩, hentries⟩, hdropped⟩,
    fun t ht => isTextLine_joinPairs (hfiles t ht)⟩

/-- A card once it was written and read back: each high surrogate directly before a low one has
become the character that the two encode. -/
def readBack (card : InfiniteResultCard) : InfiniteResultCard where
  name := card.name
  key := Json.joinPairs card.key
  status := card.status
  verdict := card.verdict
  summary := Json.joinPairs card.summary
  review := Json.joinPairs card.review
  entries := card.entries
  dropped := card.dropped.map Json.joinPairs
  files := card.files.map Json.joinPairs
  valid := card.valid_joinPairs

theorem readBack_readBack (card : InfiniteResultCard) : card.readBack.readBack = card.readBack := by
  simp [readBack, Json.joinPairs_joinPairs, Function.comp_def]

/-- No text of the card has a high surrogate directly before a low one. -/
def NoPairs (card : InfiniteResultCard) : Prop :=
  ∀ t ∈ card.key :: card.summary :: card.review :: (card.dropped ++ card.files), Json.NoPairs t

theorem readBack_eq_self {card : InfiniteResultCard} (h : card.NoPairs) : card.readBack = card := by
  have hkey := Json.joinPairs_eq_self (h card.key (by simp))
  have hsummary := Json.joinPairs_eq_self (h card.summary (by simp))
  have hreview := Json.joinPairs_eq_self (h card.review (by simp))
  have hdropped : card.dropped.map Json.joinPairs = card.dropped := by
    refine (List.map_congr_left fun t ht => ?_).trans (List.map_id _)
    exact Json.joinPairs_eq_self (h t (by simp [ht]))
  have hfiles : card.files.map Json.joinPairs = card.files := by
    refine (List.map_congr_left fun t ht => ?_).trans (List.map_id _)
    exact Json.joinPairs_eq_self (h t (by simp [ht]))
  simp [readBack, hkey, hsummary, hreview, hdropped, hfiles]

end InfiniteResultCard

theorem normal_texts (ts : List Text) :
    Json.normal true (.arr (ts.map .str)) = .arr ((ts.map Json.joinPairs).map .str) := by
  rw [Json.normal_arr, List.map_map, List.map_map]
  rfl

theorem normal_ints (ns : List Int) :
    Json.normal true (.arr (ns.map .int)) = .arr (ns.map .int) := by
  rw [Json.normal_arr, List.map_map]
  rfl

theorem normal_status (status : InfiniteResultStatus) :
    Json.normal true (.str status.value) = .str status.value := by
  cases status <;> rfl

theorem normal_verdict (verdict : InfiniteVerdict) :
    Json.normal true (.str verdict.value) = .str verdict.value := by
  cases verdict <;> rfl

theorem normal_cardRecord (card : InfiniteResultCard) :
    Json.normal true (.obj (cardRecord card)) = .obj (cardRecord card.readBack) := by
  have hnodup : ((cardRecord card).map Prod.fst).Nodup := by
    show cardFields.Nodup
    decide
  have hkeys : ∀ k ∈ cardFields, Json.readBack true k = k :=
    forall_mem_of_all (by decide)
  have hname : Json.normal true (.str card.name) = .str card.name := by
    have hvalid := card.valid
    simp only [cardProblemFree, Bool.and_eq_true] at hvalid
    rw [Json.normal_str]
    exact congrArg Json.str (joinPairs_taskName hvalid.1.1.1.1.2)
  have hkey : Json.normal true (.str card.key) = .str card.readBack.key := Json.normal_str ..
  have hsummary : Json.normal true (.str card.summary) = .str card.readBack.summary :=
    Json.normal_str ..
  have hreview : Json.normal true (.str card.review) = .str card.readBack.review :=
    Json.normal_str ..
  rw [Json.normal_obj hnodup fun m hm => hkeys m.1 (List.mem_map_of_mem (f := Prod.fst) hm)]
  simp only [cardRecord, List.map_cons, List.map_nil, hname, hkey, hsummary, hreview,
    normal_status, normal_verdict, normal_ints, normal_texts]
  rfl

theorem mapM_asInt (ns : List Int) : (ns.map Json.int).mapM asInt = some ns := by
  induction ns with
  | nil => rfl
  | cons n ns ih => simp [asInt, ih]

theorem cardOfJson_cardRecord (card : InfiniteResultCard) :
    cardOfJson (.obj (cardRecord card)) = some card := by
  have hfields : ((cardRecord card).all fun m => m.1 ∈ cardFields) = true := by
    show (cardFields.all fun k => k ∈ cardFields) = true
    decide
  have hname : (cardRecord card).lookup nameKey = some (.str card.name) := rfl
  have hkey : (cardRecord card).lookup keyKey = some (.str card.key) := rfl
  have hstatus : (cardRecord card).lookup statusKey = some (.str card.status.value) := rfl
  have hverdict : (cardRecord card).lookup verdictKey = some (.str card.verdict.value) := rfl
  have hsummary : (cardRecord card).lookup summaryKey = some (.str card.summary) := rfl
  have hreview : (cardRecord card).lookup reviewKey = some (.str card.review) := rfl
  have hentries : (cardRecord card).lookup entriesKey = some (.arr (card.entries.map .int)) := rfl
  have hdropped : (cardRecord card).lookup droppedKey = some (.arr (card.dropped.map .str)) := rfl
  have hfiles : (cardRecord card).lookup filesKey = some (.arr (card.files.map .str)) := rfl
  have hofStatus : InfiniteResultStatus.ofValue card.status.value = some card.status := by
    cases card.status <;> decide
  have hofVerdict : InfiniteVerdict.ofValue card.verdict.value = some card.verdict := by
    cases card.verdict <;> decide
  simp only [cardOfJson, if_pos hfields, hname, hkey, hstatus, hverdict, hsummary, hreview,
    hentries, hdropped, hfiles, Option.bind_some, Option.bind_eq_bind, asText, asTuple,
    hofStatus, hofVerdict, mapM_asInt, mapM_asText, InfiniteResultCard.make, dif_pos card.valid]

theorem cardOfJson_loads (card : InfiniteResultCard) :
    (Json.loads (Json.dumps true (.obj (cardRecord card)))).bind cardOfJson
      = some card.readBack := by
  rw [Json.loads_dumps, Option.bind_some, normal_cardRecord, cardOfJson_cardRecord]

end VidbyteSdk.Agents.Infinite

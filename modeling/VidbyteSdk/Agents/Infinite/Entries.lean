import VidbyteSdk.Lib.Words

/-!
# Memory entries

One line of the agent's long-term memory: the draft an agent writes, the entry the workspace makes
of it, and its JSON form in `entries.jsonl` and `superseded.jsonl`.
-/

namespace VidbyteSdk.Agents.Infinite

open VidbyteSdk.Lib

inductive InfiniteEntryKind
  | decision
  | fact
  | lesson
  | openQuestion
  | pointer
  deriving DecidableEq

/-- `InfiniteEntryKind.value` -/
def InfiniteEntryKind.value : InfiniteEntryKind → Text
  | .decision => Json.word ['d', 'e', 'c', 'i', 's', 'i', 'o', 'n']
  | .fact => Json.word ['f', 'a', 'c', 't']
  | .lesson => Json.word ['l', 'e', 's', 's', 'o', 'n']
  | .openQuestion =>
    Json.word ['o', 'p', 'e', 'n', '_', 'q', 'u', 'e', 's', 't', 'i', 'o', 'n']
  | .pointer => Json.word ['p', 'o', 'i', 'n', 't', 'e', 'r']

/-- `InfiniteEntryKind(value)` -/
def InfiniteEntryKind.ofValue (t : Text) : Option InfiniteEntryKind :=
  [.decision, .fact, .lesson, .openQuestion, .pointer].find? fun kind => kind.value = t

def infiniteMaxTags : Nat := 8

def infiniteMaxRefs : Nat := 8

def infiniteFirstEntryId : Int := 1

/-- `require_text(..., one_line=True)` accepts the text. -/
def isTextLine (t : Text) : Bool := !Text.isBlank t && Text.isOneLine t

/-- `[a-z0-9]` -/
def isTagStart (c : CodePoint) : Bool := c.isDigit || (0x61 ≤ c.val && c.val ≤ 0x7A)

/-- `^[a-z0-9][a-z0-9-]{0,39}$` -/
def matchesTagPattern : Text → Bool
  | [] => false
  | c :: rest => isTagStart c && rest.length ≤ 39 && rest.all fun d => isTagStart d || d = 0x2D

/-- What `InfiniteEntryDraft` checks of its fields. -/
def draftProblemFree (text : Text) (tags refs : List Text) (supersedes : Option Int) : Bool :=
  isTextLine text &&
    (tags.length ≤ infiniteMaxTags && tags.all fun t => isTextLine t && matchesTagPattern t) &&
    (refs.length ≤ infiniteMaxRefs && refs.all isTextLine) &&
    supersedes.all fun n => infiniteFirstEntryId ≤ n

structure InfiniteEntryDraft where
  kind : InfiniteEntryKind
  text : Text
  tags : List Text
  refs : List Text
  supersedes : Option Int
  valid : draftProblemFree text tags refs supersedes = true
  deriving DecidableEq

/-- What `InfiniteEntry` checks of its own fields. -/
def entryProblemFree (id : Int) (author run stamp : Text) (verifiedBy : Option Text) : Bool :=
  infiniteFirstEntryId ≤ id && isTextLine author && isTextLine run && isTextLine stamp &&
    verifiedBy.all isTextLine

/-- One committed memory entry; `author` and `stamp` are its `by` and `at`. -/
structure InfiniteEntry where
  id : Int
  draft : InfiniteEntryDraft
  author : Text
  verifiedBy : Option Text
  run : Text
  stamp : Text
  valid : entryProblemFree id author run stamp verifiedBy = true
  deriving DecidableEq

/-! ### The JSON form -/

abbrev idKey : Text := Json.word ['i', 'd']
abbrev kindKey : Text := Json.word ['k', 'i', 'n', 'd']
abbrev textKey : Text := Json.word ['t', 'e', 'x', 't']
abbrev tagsKey : Text := Json.word ['t', 'a', 'g', 's']
abbrev refsKey : Text := Json.word ['r', 'e', 'f', 's']
abbrev supersedesKey : Text := Json.word ['s', 'u', 'p', 'e', 'r', 's', 'e', 'd', 'e', 's']
abbrev byKey : Text := Json.word ['b', 'y']
abbrev verifiedByKey : Text := Json.word ['v', 'e', 'r', 'i', 'f', 'i', 'e', 'd', '_', 'b', 'y']
abbrev runKey : Text := Json.word ['r', 'u', 'n']
abbrev atKey : Text := Json.word ['a', 't']

/-- The record `_entry_json` dumps, with the keys in the documented order. -/
def entryRecord (entry : InfiniteEntry) : List (Text × Json) :=
  [(idKey, .int entry.id), (kindKey, .str entry.draft.kind.value), (textKey, .str entry.draft.text),
    (tagsKey, .arr (entry.draft.tags.map .str)), (refsKey, .arr (entry.draft.refs.map .str)),
    (supersedesKey, (entry.draft.supersedes.map .int).getD .null), (byKey, .str entry.author),
    (verifiedByKey, (entry.verifiedBy.map .str).getD .null), (runKey, .str entry.run),
    (atKey, .str entry.stamp)]

/-- `_entry_json` -/
def entryJson (entry : InfiniteEntry) : Text := Json.dumps false (.obj (entryRecord entry))

def asText : Json → Option Text
  | .str t => some t
  | _ => none

def asTexts : Json → Option (List Text)
  | .arr items => items.mapM asText
  | _ => none

/-- `None` or a text. -/
def asOptionalText : Json → Option (Option Text)
  | .null => some none
  | .str t => some (some t)
  | _ => none

def asInt : Json → Option Int
  | .int n => some n
  | _ => none

/-- `None` or an integer. -/
def asOptionalInt : Json → Option (Option Int)
  | .null => some none
  | .int n => some (some n)
  | _ => none

/-- A draft from its fields, or `none` where `InfiniteEntryDraft` raises. -/
def InfiniteEntryDraft.make (kind : InfiniteEntryKind) (text : Text) (tags refs : List Text)
    (supersedes : Option Int) : Option InfiniteEntryDraft :=
  if h : draftProblemFree text tags refs supersedes = true then
    some ⟨kind, text, tags, refs, supersedes, h⟩
  else none

/-- An entry from its fields, or `none` where `InfiniteEntry` raises. -/
def InfiniteEntry.make (id : Int) (draft : InfiniteEntryDraft) (author : Text)
    (verifiedBy : Option Text) (run stamp : Text) : Option InfiniteEntry :=
  if h : entryProblemFree id author run stamp verifiedBy = true then
    some ⟨id, draft, author, verifiedBy, run, stamp, h⟩
  else none

def draftOfRecord (record : List (Text × Json)) : Option InfiniteEntryDraft := do
  let kind ← (record.lookup kindKey).bind asText
  let text ← (record.lookup textKey).bind asText
  let tags ← (record.lookup tagsKey).bind asTexts
  let refs ← (record.lookup refsKey).bind asTexts
  let supersedes ← (record.lookup supersedesKey).bind asOptionalInt
  let kind ← InfiniteEntryKind.ofValue kind
  InfiniteEntryDraft.make kind text tags refs supersedes

def entryOfRecord (record : List (Text × Json)) : Option InfiniteEntry := do
  let draft ← draftOfRecord record
  let id ← (record.lookup idKey).bind asInt
  let author ← (record.lookup byKey).bind asText
  let verifiedBy ← (record.lookup verifiedByKey).bind asOptionalText
  let run ← (record.lookup runKey).bind asText
  let stamp ← (record.lookup atKey).bind asText
  InfiniteEntry.make id draft author verifiedBy run stamp

/-- The entry on one line, or `none` for a line that is not in the documented shape. -/
def entryOfLine (line : Text) : Option InfiniteEntry :=
  match Json.loads line with
  | some (.obj record) => entryOfRecord record
  | _ => none

/-! ### Reading a written entry -/

theorem ofValue_value_kind (kind : InfiniteEntryKind) :
    InfiniteEntryKind.ofValue kind.value = some kind := by
  cases kind <;> decide

theorem mapM_asText (ts : List Text) : (ts.map Json.str).mapM asText = some ts := by
  induction ts with
  | nil => rfl
  | cons t ts ih => simp [asText, ih]

theorem asOptionalInt_of (n : Option Int) : asOptionalInt ((n.map .int).getD .null) = some n := by
  cases n <;> rfl

theorem asOptionalText_of (t : Option Text) :
    asOptionalText ((t.map .str).getD .null) = some t := by
  cases t <;> rfl

theorem normal_entryRecord (entry : InfiniteEntry) :
    Json.normal false (.obj (entryRecord entry)) = .obj (entryRecord entry) := by
  have htexts : ∀ ts : List Text, Json.normal false (.arr (ts.map .str)) = .arr (ts.map .str) := by
    intro ts
    rw [Json.normal_arr, List.map_map]
    rfl
  have hnodup : ((entryRecord entry).map Prod.fst).Nodup := by
    show [idKey, kindKey, textKey, tagsKey, refsKey, supersedesKey, byKey, verifiedByKey, runKey,
      atKey].Nodup
    decide
  have hsupersedes : Json.normal false ((entry.draft.supersedes.map .int).getD .null)
      = (entry.draft.supersedes.map .int).getD .null := by
    cases entry.draft.supersedes <;> rfl
  have hverified : Json.normal false ((entry.verifiedBy.map .str).getD .null)
      = (entry.verifiedBy.map .str).getD .null := by
    cases entry.verifiedBy <;> rfl
  rw [Json.normal_obj hnodup fun _ _ => rfl]
  simp only [entryRecord, List.map_cons, List.map_nil, htexts, hsupersedes, hverified]
  rfl

theorem draftOfRecord_entryRecord (entry : InfiniteEntry) :
    draftOfRecord (entryRecord entry) = some entry.draft := by
  have hkind : (entryRecord entry).lookup kindKey = some (.str entry.draft.kind.value) := rfl
  have htext : (entryRecord entry).lookup textKey = some (.str entry.draft.text) := rfl
  have htags : (entryRecord entry).lookup tagsKey = some (.arr (entry.draft.tags.map .str)) := rfl
  have hrefs : (entryRecord entry).lookup refsKey = some (.arr (entry.draft.refs.map .str)) := rfl
  have hsup : (entryRecord entry).lookup supersedesKey
      = some ((entry.draft.supersedes.map .int).getD .null) := rfl
  simp only [draftOfRecord, hkind, htext, htags, hrefs, hsup, Option.bind_some, asText, asTexts,
    mapM_asText, asOptionalInt_of, ofValue_value_kind, Option.bind_eq_bind,
    InfiniteEntryDraft.make, dif_pos entry.draft.valid]

theorem entryOfRecord_entryRecord (entry : InfiniteEntry) :
    entryOfRecord (entryRecord entry) = some entry := by
  have hid : (entryRecord entry).lookup idKey = some (.int entry.id) := rfl
  have hby : (entryRecord entry).lookup byKey = some (.str entry.author) := rfl
  have hverified : (entryRecord entry).lookup verifiedByKey
      = some ((entry.verifiedBy.map .str).getD .null) := rfl
  have hrun : (entryRecord entry).lookup runKey = some (.str entry.run) := rfl
  have hat : (entryRecord entry).lookup atKey = some (.str entry.stamp) := rfl
  simp only [entryOfRecord, draftOfRecord_entryRecord, hid, hby, hverified, hrun, hat,
    Option.bind_some, asText, asInt, asOptionalText_of, Option.bind_eq_bind, InfiniteEntry.make,
    dif_pos entry.valid]

theorem entryOfLine_entryJson (entry : InfiniteEntry) :
    entryOfLine (entryJson entry) = some entry := by
  rw [entryOfLine, entryJson, Json.loads_dumps, normal_entryRecord]
  exact entryOfRecord_entryRecord entry

theorem entryJson_injective {a b : InfiniteEntry} (h : entryJson a = entryJson b) : a = b :=
  Option.some.inj (by rw [← entryOfLine_entryJson a, h, entryOfLine_entryJson b])

/-! ### The line of an entry -/

theorem le_of_mem_entryJson {entry : InfiniteEntry} {c : CodePoint} (h : c ∈ entryJson entry) :
    0x20 ≤ c.val :=
  Json.le_of_mem_dumps h

theorem isBlank_entryJson (entry : InfiniteEntry) : Text.isBlank (entryJson entry) = false := by
  have hbrace : CodePoint.isSpace Json.leftBrace = false := by decide
  rw [entryJson, Json.dumps, Text.isBlank, List.all_cons, hbrace, Bool.false_and]

theorem isSurrogate_of_isTagStart {c : CodePoint} (h : isTagStart c = true) :
    c.isSurrogate = false := by
  simp only [isTagStart, CodePoint.isDigit, Bool.or_eq_true, Bool.and_eq_true,
    decide_eq_true_eq] at h
  simp only [CodePoint.isSurrogate, CodePoint.isHigh, CodePoint.isLow, Bool.or_eq_false_iff,
    Bool.and_eq_false_iff, decide_eq_false_iff_not]
  omega

/-- A name that starts with a letter or a digit and goes on with these and dashes can be encoded. -/
theorem isUtf8_of_tagChars {c : CodePoint} {rest : Text} (hc : isTagStart c = true)
    (hrest : ∀ d ∈ rest, isTagStart d = true ∨ d = 0x2D) : Text.isUtf8 (c :: rest) = true := by
  rw [Text.isUtf8_iff]
  intro d hd
  rcases List.mem_cons.mp hd with rfl | hd
  · exact isSurrogate_of_isTagStart hc
  · rcases hrest d hd with hd | rfl
    · exact isSurrogate_of_isTagStart hd
    · decide

theorem isUtf8_of_matchesTagPattern {t : Text} (h : matchesTagPattern t = true) :
    Text.isUtf8 t = true := by
  match t with
  | c :: rest =>
    simp only [matchesTagPattern, Bool.and_eq_true, List.all_eq_true, Bool.or_eq_true,
      decide_eq_true_eq] at h
    exact isUtf8_of_tagChars h.1.1 h.2

theorem isUtf8_entryJson {entry : InfiniteEntry} (htext : Text.isUtf8 entry.draft.text = true)
    (hrefs : ∀ r ∈ entry.draft.refs, Text.isUtf8 r = true)
    (hauthor : Text.isUtf8 entry.author = true)
    (hverified : ∀ t ∈ entry.verifiedBy, Text.isUtf8 t = true)
    (hrun : Text.isUtf8 entry.run = true) (hstamp : Text.isUtf8 entry.stamp = true) :
    Text.isUtf8 (entryJson entry) = true := by
  have htexts : ∀ ts : List Text, (∀ t ∈ ts, Text.isUtf8 t = true) →
      Text.isUtf8 (Json.characters (.arr (ts.map .str))) = true := by
    intro ts hts
    apply Json.isUtf8_charactersOfItems
    intro j hj
    obtain ⟨t, ht, rfl⟩ := List.mem_map.mp hj
    exact hts t ht
  have htags : ∀ t ∈ entry.draft.tags, Text.isUtf8 t = true := by
    intro t ht
    have hvalid := entry.draft.valid
    simp only [draftProblemFree, Bool.and_eq_true, List.all_eq_true] at hvalid
    exact isUtf8_of_matchesTagPattern (hvalid.1.1.2.2 t ht).2
  have hkeys : ([idKey, kindKey, textKey, tagsKey, refsKey, supersedesKey, byKey, verifiedByKey,
      runKey, atKey].all Text.isUtf8) = true := by decide
  apply Json.isUtf8_dumps
  refine Json.isUtf8_charactersOfMembers fun m hm =>
    ⟨List.all_eq_true.mp hkeys m.1 (List.mem_map_of_mem (f := Prod.fst) hm), ?_⟩
  simp only [entryRecord, List.mem_cons, List.not_mem_nil, or_false] at hm
  rcases hm with rfl | rfl | rfl | rfl | rfl | rfl | rfl | rfl | rfl | rfl
  · rfl
  · cases entry.draft.kind <;> decide
  · exact htext
  · exact htexts _ htags
  · exact htexts _ hrefs
  · cases entry.draft.supersedes <;> rfl
  · exact hauthor
  · cases hby : entry.verifiedBy with
    | none => rfl
    | some t => exact hverified t hby
  · exact hrun
  · exact hstamp

end VidbyteSdk.Agents.Infinite

import VidbyteSdk.Agents.Infinite.Cards
import VidbyteSdk.Agents.Infinite.Workspace

/-!
# The staged entries of a pair

`InfiniteAgentMemory` of a pair's two agents over their shared lists, and `InfinitePair.run` from the
generator's first call to the card. What the agents call, what they reply and which steps raise is
the script of the run; other agents commit to the same files at any point in between.
`verdictOf` is `_verdict`, `casefold` Python's `str.casefold`.
-/

namespace VidbyteSdk.Agents.Infinite

open VidbyteSdk.Lib

def infiniteVerifierKey : Text := Json.word ['v', 'e', 'r']

theorem isUtf8_taskName (name : TaskName) : Text.isUtf8 name.val = true := by
  obtain ⟨t, h⟩ := name
  match t with
  | c :: rest =>
    simp only [matchesTaskNamePattern, Bool.and_eq_true, List.all_eq_true, Bool.or_eq_true,
      decide_eq_true_eq] at h
    exact isUtf8_of_tagChars h.1.1 h.2

theorem isUtf8_slash {t : Text} (h : Text.isUtf8 t = true) : Text.isUtf8 (slash :: t) = true :=
  Text.isUtf8_append (t := [slash]) (by decide) h

theorem isUtf8_agentKey (key : AgentKey) : Text.isUtf8 key.text = true := by
  induction key with
  | root => decide
  | generator parent name ih =>
    have hgenerator : Text.isUtf8 infiniteGeneratorKey = true := by decide
    exact Text.isUtf8_append (Text.isUtf8_append ih (isUtf8_slash (isUtf8_taskName name)))
      (isUtf8_slash hgenerator)

theorem isUtf8_pairKey (key : PairKey) : Text.isUtf8 key.text = true :=
  Text.isUtf8_append (isUtf8_agentKey key.parent) (isUtf8_slash (isUtf8_taskName key.name))

/-- `f"s{number}"` -/
def stagedKey (number : Nat) : Text := Json.word ['s'] ++ Json.digitsOf number

structure InfiniteStagedEntry where
  key : Text
  author : Utf8Text
  draft : InfiniteEntryDraft
  deriving DecidableEq

inductive InfiniteDropReason
  | verifier
  | rule
  | unchecked
  deriving DecidableEq

structure InfiniteDroppedEntry where
  key : Text
  text : Text
  reason : InfiniteDropReason
  note : Text
  deriving DecidableEq

structure InfiniteCommittedEntry where
  stagedKey : Text
  entryId : Int
  kind : InfiniteEntryKind
  text : Text
  deriving DecidableEq

/-- What stays the same over one run of a pair. -/
structure PairSetup where
  casefold : Text → Text
  settings : InfiniteWorkspaceSettings
  maxEntriesPerAgent : Nat
  key : PairKey
  runId : Utf8Text
  verdictOf : Text → InfiniteVerdict

/-- `f"{self.key}/{INFINITE_GENERATOR_KEY}"` -/
def PairSetup.generatorKey (setup : PairSetup) : Utf8Text :=
  ⟨setup.key.text ++ slash :: infiniteGeneratorKey,
    Text.isUtf8_append (isUtf8_pairKey setup.key) (isUtf8_slash (by decide))⟩

/-- `f"{self.key}/{INFINITE_VERIFIER_KEY}"` -/
def PairSetup.verifierKey (setup : PairSetup) : Utf8Text :=
  ⟨setup.key.text ++ slash :: infiniteVerifierKey,
    Text.isUtf8_append (isUtf8_pairKey setup.key) (isUtf8_slash (by decide))⟩

/-! ### The memory of an agent -/

inductive StageRefusal
  | allowance
  | unreadable
  | rule (refusal : CommitRefusal)
  | alreadyStaged (key : Text)

/-- `_entry_rules` over the pair's staged entries. -/
def stageRules (setup : PairSetup) (draft : InfiniteEntryDraft)
    (live : List (InfiniteEntry × Text)) (staged : List InfiniteStagedEntry) :
    Option StageRefusal :=
  if !((draft.text :: draft.refs).all Text.isUtf8) then some (.rule .notUtf8)
  else if setup.settings.maxEntryTokens < Text.tokens draft.text then
    some (.rule (.tooLong (Text.tokens draft.text)))
  else
    match live.find? fun e =>
        normalText setup.casefold e.1.draft.text = normalText setup.casefold draft.text with
    | some twin => some (.rule (.alreadyRecorded twin.1.id))
    | none =>
      match staged.find? fun item =>
          normalText setup.casefold item.draft.text = normalText setup.casefold draft.text with
      | some sibling => some (.alreadyStaged sibling.key)
      | none =>
        match draft.supersedes with
        | none => none
        | some id => if live.all fun e => e.1.id ≠ id then some (.rule (.notLive id)) else none

/-- The files, the pair's lists, how many entries the agent that runs has had accepted, every entry
that was ever staged, and the ids that other agents committed. -/
structure StagingState where
  files : EntryFiles
  staged : List InfiniteStagedEntry
  dropped : List InfiniteDroppedEntry
  committed : List InfiniteCommittedEntry
  accepted : Nat
  history : List InfiniteStagedEntry
  others : List Int

def StagingState.start (files : EntryFiles) : StagingState := ⟨files, [], [], [], 0, [], []⟩

/-- What another agent does at the files: a commit, or one that stops before the last of its writes. -/
inductive OtherWrite
  | commit (call : CommitCall)
  | cut (call : CommitCall) (writes : Nat)

/-- A call of one of the two agents' memory tools, with its arguments read, or another agent's
write. -/
inductive MemoryCall
  | remember (draft : InfiniteEntryDraft) (readable : Bool)
  | drop (key : Text)
  | other (write : OtherWrite)

namespace StagingState

variable (setup : PairSetup) (state : StagingState)

def otherWrite : OtherWrite → StagingState
  | .commit call =>
    match commitEntry setup.casefold setup.settings state.files call.others call.draft
      call.origin with
    | (files, .ok entry) =>
      { state with
        files := files
        others := state.others ++ [entry.id] }
    | (files, .error _) => { state with files := files }
  | .cut call writes =>
    match commitPlan setup.casefold setup.settings state.files call.others call.draft
      call.origin with
    | .error _ => state
    | .ok plan =>
      if writes < plan.writes.length then
        { state with files := (state.files.writeAll (plan.writes.take writes)).1 }
      else state

/-- `check_entry`; `readable` says whether the disk lets the entries be read. -/
def checkEntry (draft : InfiniteEntryDraft) (readable : Bool) : Option StageRefusal :=
  if setup.maxEntriesPerAgent ≤ state.accepted then some .allowance
  else if !readable then some .unreadable
  else
    match readEntries state.files .entries with
    | .error refusal => some (.rule refusal)
    | .ok live => stageRules setup draft live state.staged

/-- `remember` of a pair's agent: the entry waits for the verdict. -/
def remember (author : Utf8Text) (draft : InfiniteEntryDraft) (readable : Bool) : StagingState :=
  match state.checkEntry setup draft readable with
  | some _ => state
  | none =>
    let item : InfiniteStagedEntry :=
      ⟨stagedKey (state.staged.length + state.dropped.length + 1), author, draft⟩
    { state with
      staged := state.staged ++ [item]
      accepted := state.accepted + 1
      history := state.history ++ [item] }

/-- `drop` -/
def drop (key : Text) : StagingState :=
  match state.staged.find? fun item => item.key = key with
  | none => state
  | some item =>
    { state with
      staged := state.staged.erase item
      dropped := state.dropped ++ [⟨item.key, item.draft.text, .verifier,
        Json.word "dropped by the verifier".toList⟩] }

/-- One call while an agent runs; only a verifier holds `drop_entry`. -/
def memoryCall (verifier : Bool) (state : StagingState) : MemoryCall → StagingState
  | .remember draft readable =>
    state.remember setup (if verifier then setup.verifierKey else setup.generatorKey) draft readable
  | .drop key => if verifier then state.drop key else state
  | .other write => state.otherWrite setup write

end StagingState

/-! ### The commit loop -/

/-- The messages of the refusals that are `ToolExecutionError`s. -/
def CommitRefusal.message (settings : InfiniteWorkspaceSettings) : CommitRefusal → Text
  | .malformedLine file number =>
    (match file with
      | .entries => Json.word "entries.jsonl line ".toList
      | .superseded => Json.word "superseded.jsonl line ".toList) ++ Json.digitsOf number
      ++ Json.word (" is not a memory entry in the documented shape; " ++
        "fix or remove that line with bash.").toList
  | .tooLong tokens =>
    Json.word "The entry text is ".toList ++ Json.digitsOf tokens
      ++ Json.word " tokens, over max_entry_tokens (".toList
      ++ Json.digitsOf settings.maxEntryTokens
      ++ Json.word ("); shorten it to one short line, or save the full text with write_note " ++
        "and remember a one-line pointer to that note.").toList
  | .alreadyRecorded id =>
    Json.word "This text is already recorded as #".toList ++ Json.intText id
      ++ Json.word "; do not save it again.".toList
  | .notLive id =>
    Json.word "supersedes names #".toList ++ Json.intText id
      ++ Json.word (", which is not a live entry; give the id of an entry in " ++
        "entries.jsonl.").toList
  | .tooManyFiles files =>
    Json.word "This write would make ".toList ++ Json.digitsOf files
      ++ Json.word " files, over max_files (".toList ++ Json.digitsOf settings.maxFiles
      ++ Json.word "); append to an existing note instead.".toList
  | .tooManyTokens tokens =>
    Json.word "This write would make the workspace ".toList ++ Json.digitsOf tokens
      ++ Json.word " tokens, over max_tokens (".toList ++ Json.digitsOf settings.maxTokens
      ++ Json.word "); write less, or ask the developer to raise the cap.".toList
  | .notUtf8 => []
  | .invalidEntry => []

/-- Whether the refusal is a `ToolExecutionError`, which `_commit` catches. -/
def CommitRefusal.isRule : CommitRefusal → Bool
  | .notUtf8 | .invalidEntry => false
  | _ => true

/-- What happens around the commit of one entry: what other agents write before it, the other files
of the folder, the time, whether the files can be read, and the write that the disk refuses; the text
of the error where one of these raises. -/
structure CommitAttempt where
  before : List OtherWrite
  others : List Nat
  stamp : Utf8Text
  readable : Bool
  refusedWrite : Option Nat
  error : Text

inductive CommitFailure
  | refused (refusal : CommitRefusal)
  | disk

/-- `commit_entry` where the disk may refuse to be read or a write. -/
def commitUnder (setup : PairSetup) (files : EntryFiles) (attempt : CommitAttempt)
    (draft : InfiniteEntryDraft) (origin : Provenance) :
    EntryFiles × Except CommitFailure InfiniteEntry :=
  if !attempt.readable then (files, .error .disk)
  else
    match commitPlan setup.casefold setup.settings files attempt.others draft origin with
    | .error refusal => (files, .error (.refused refusal))
    | .ok plan =>
      match attempt.refusedWrite.filter fun n => n < plan.writes.length with
      | some n => ((files.writeAll (plan.writes.take n)).1, .error .disk)
      | none =>
        match files.writeAll plan.writes with
        | (files, true) => (files, .ok plan.entry)
        | (files, false) => (files, .error (.refused .notUtf8))

namespace StagingState

variable (setup : PairSetup)

/-- One turn of the loop in `_commit`, with the error that leaves it. -/
def commitItem (state : StagingState) (attempt : CommitAttempt) (item : InfiniteStagedEntry) :
    StagingState × Option Text :=
  let state := attempt.before.foldl (otherWrite setup) state
  let origin : Provenance := ⟨item.author, some setup.verifierKey, setup.runId, attempt.stamp⟩
  match commitUnder setup state.files attempt item.draft origin with
  | (files, .ok entry) =>
    ({ state with
      files := files
      committed := state.committed ++ [⟨item.key, entry.id, item.draft.kind, item.draft.text⟩]
      staged := state.staged.erase item }, none)
  | (files, .error (.refused refusal)) =>
    if refusal.isRule then
      ({ state with
        files := files
        dropped := state.dropped ++ [⟨item.key, item.draft.text, .rule,
          refusal.message setup.settings⟩]
        staged := state.staged.erase item }, none)
    else ({ state with files := files }, some attempt.error)
  | (files, .error .disk) => ({ state with files := files }, some attempt.error)

/-- `_commit` over the entries that were staged when it began. -/
def commitAll (attempts : Nat → CommitAttempt) :
    StagingState → Nat → List InfiniteStagedEntry → StagingState × Option Text
  | state, _, [] => (state, none)
  | state, turn, item :: rest =>
    match state.commitItem setup (attempts turn) item with
    | (state, none) => commitAll attempts state (turn + 1) rest
    | (state, some error) => (state, some error)

/-- `_finish` on the lists: what is still staged is dropped with the verdict as its reason. -/
def finish (state : StagingState) (verdict : InfiniteVerdict) : StagingState :=
  { state with
    dropped := state.dropped ++ state.staged.map fun item =>
      ⟨item.key, item.draft.text, .unchecked,
        Json.word "not committed, because the verdict is ".toList ++ verdict.value⟩
    staged := [] }

end StagingState

/-! ### A run -/

/-- Why an agent's loop stopped, as far as `_status` asks. -/
inductive ReplyStop
  | finalResponse
  | isDone
  | maxSpend
  | other

/-- `_status` -/
def replyStatus (content : Text) (stop : ReplyStop) : InfiniteResultStatus :=
  if Text.isBlank content then .failed
  else
    match stop with
    | .finalResponse | .isDone => .done
    | .maxSpend => .failed
    | .other => .partial_

/-- `text.strip()` -/
def stripText (t : Text) : Text :=
  ((t.dropWhile CodePoint.isSpace).reverse.dropWhile CodePoint.isSpace).reverse

def infiniteCardTextMaxTokens : Nat := 800

/-- `TokenEstimate.cap` at the cap of a card's texts. -/
def capText (t : Text) : Text :=
  if Text.tokens t ≤ infiniteCardTextMaxTokens then t
  else t.take (infiniteCardTextMaxTokens * 4) ++ Json.word " … [cut]".toList

/-- What the agents do in one run, what they reply, and which steps raise: each agent's building,
loop and messages, the commits, and the journal's record of the first card. -/
structure PairScript where
  generator : List MemoryCall
  reply : Except Text (Text × ReplyStop)
  verifier : List MemoryCall
  review : Except Text Text
  attempts : Nat → CommitAttempt
  files : List Text
  journalError : Option Text
  cardError : Text

/-- What `_finish` is told. -/
structure PairReport where
  status : InfiniteResultStatus
  verdict : InfiniteVerdict
  summary : Text
  review : Text

namespace PairScript

variable (setup : PairSetup) (script : PairScript)

def generated (files : EntryFiles) : StagingState :=
  script.generator.foldl (StagingState.memoryCall setup false) (.start files)

def reviewed (files : EntryFiles) : StagingState :=
  script.verifier.foldl (StagingState.memoryCall setup true)
    { script.generated setup files with accepted := 0 }

def raised (status : InfiniteResultStatus) (summary error : Text) : PairReport :=
  ⟨status, .unchecked, summary, capText error⟩

/-- `run` up to `_finish`: the state, what `_finish` is told, and whether a step raised. -/
def work (files : EntryFiles) : StagingState × PairReport × Bool :=
  match script.reply with
  | .error error => (script.generated setup files, raised .failed [] error, true)
  | .ok (content, stop) =>
    let summary := capText (stripText content)
    let status := replyStatus content stop
    if status = .failed then
      (script.generated setup files, ⟨status, .unchecked, summary, []⟩, false)
    else
      match script.review with
      | .error error => (script.reviewed setup files, raised status summary error, true)
      | .ok review =>
        if setup.verdictOf review = .unchecked then
          (script.reviewed setup files, ⟨status, .unchecked, summary, capText review⟩, false)
        else
          match StagingState.commitAll setup script.attempts (script.reviewed setup files) 0
            (script.reviewed setup files).staged with
          | (state, some error) => (state, raised status summary error, true)
          | (state, none) =>
            (state, ⟨status, setup.verdictOf review, summary, capText review⟩, false)

def droppedLine (item : InfiniteDroppedEntry) : Text :=
  item.key ++ Json.word " (".toList ++ item.text ++ Json.word "): ".toList ++ item.note

/-- The card that `_finish` builds, or `none` where the record refuses it. -/
def card (state : StagingState) (report : PairReport) : Option InfiniteResultCard :=
  InfiniteResultCard.make setup.key.name.val setup.key.text report.status report.verdict
    report.summary report.review (state.committed.map (·.entryId)) (state.dropped.map droppedLine)
    (upsertAll id script.files)

/-- A card that is handed to the journal, and the pair's state then. -/
structure Recorded where
  card : InfiniteResultCard
  state : StagingState

/-- `_finish`: the card that it hands to the journal. -/
def finish (state : StagingState) (report : PairReport) : List Recorded :=
  ((script.card setup (state.finish report.verdict) report).map fun card =>
    Recorded.mk card (state.finish report.verdict)).toList

/-- `run`: the cards that are handed to the journal. An error in the first `_finish` leads to a
second one. -/
def run (files : EntryFiles) : List Recorded :=
  match script.work setup files with
  | (state, report, true) => script.finish setup state report
  | (state, report, false) =>
    match script.finish setup state report, script.journalError with
    | [], _ =>
      script.finish setup (state.finish report.verdict)
        (raised report.status report.summary script.cardError)
    | recorded, none => recorded
    | recorded, some error =>
      recorded ++ script.finish setup (state.finish report.verdict)
        (raised report.status report.summary error)

end PairScript

end VidbyteSdk.Agents.Infinite

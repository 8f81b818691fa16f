import VidbyteSdk.Agents.Infinite.Journal

/-!
# Launching pairs

The batch check of `launch_subagent`, what it starts and what it replays, and a run with its
crashes and resumes. One process at a time works on a run's journal; the launches and the finished
pairs of its agents come in any order, and it may end at any character of what it writes. What the
agents of a pair do is left open: a running pair finishes with any outcome, or never.
-/

namespace VidbyteSdk.Agents.Infinite

open VidbyteSdk.Lib VidbyteSdk.Util

/-- An item of `InfiniteTaskCard.context`: an entry id such as `#42`, or a relative path. -/
inductive ContextItem
  | entry (id : Nat)
  | path (path : Text)

/-- One task for a pair, with the fields that the batch check reads. -/
structure InfiniteTaskCard where
  name : TaskName
  context : List ContextItem
  tools : List Text

inductive LaunchProblem
  | arguments (problem : Text)
  | twice (name : TaskName)
  | foreign (tool : Text) (granted : List Text)
  | entries (problem : Text)
  | notLive (id : Nat)
  | maxAgents (wanted started maxAgents : Nat)

/-- One call of the tool: the launching agent's key and extras, its arguments as
`ToolArguments.records` reads them, and the ids of the live entries, if those can be read. -/
structure LaunchCall where
  key : AgentKey
  extras : List Text
  tasks : Except Text (List InfiniteTaskCard)
  live : Except Text (List Nat)

namespace LaunchCall

def pairKey (call : LaunchCall) (card : InfiniteTaskCard) : PairKey := ⟨call.key, card.name⟩

def twice (cards : List InfiniteTaskCard) : Option LaunchProblem :=
  ((cards.map (·.name)).find? fun name => 1 < (cards.map (·.name)).count name).map .twice

def foreign (call : LaunchCall) (fresh : List InfiniteTaskCard) : Option LaunchProblem :=
  ((fresh.flatMap (·.tools)).find? fun tool => tool ∉ call.extras).map
    fun tool => .foreign tool call.extras

/-- An entry that is not live; the entries are read only where a task names one. -/
def notLive (call : LaunchCall) (fresh : List InfiniteTaskCard) : Option LaunchProblem :=
  match (fresh.flatMap (·.context)).filterMap fun item =>
    match item with
    | .entry id => some id
    | .path _ => none with
  | [] => none
  | ids =>
    match call.live with
    | .error problem => some (.entries problem)
    | .ok live => (ids.find? fun id => id ∉ live).map .notLive

def overMaxAgents (maxAgents : Nat) (journal : JournalContents) (fresh : List InfiniteTaskCard) :
    Option LaunchProblem :=
  let wanted := JournalContents.infiniteMinAgents * fresh.length
  if maxAgents < journal.agentsStarted + wanted then
    some (.maxAgents wanted journal.agentsStarted maxAgents)
  else none

/-- `_check` -/
def check (call : LaunchCall) (maxAgents : Nat) (journal : JournalContents)
    (cards fresh : List InfiniteTaskCard) : Option LaunchProblem :=
  (((twice cards).or (call.foreign fresh)).or (call.notLive fresh)).or
    (overMaxAgents maxAgents journal fresh)

/-- The tasks whose pair has no recorded card. Two tasks of one name, which the source's mapping
would hold once, are refused whatever else the check reads. -/
def fresh (call : LaunchCall) (journal : JournalContents) (cards : List InfiniteTaskCard) :
    List InfiniteTaskCard :=
  cards.filter fun card => (journal.finished (call.pairKey card).text).isNone

end LaunchCall

/-- What an accepted call starts, and what it replays, in task order. -/
structure Launched where
  started : List PairKey
  replayed : List (PairKey × InfiniteResultCard)

/-- `execute`, up to the pairs' first step. -/
def execute (maxAgents : Nat) (journal : JournalContents) (call : LaunchCall) :
    Except LaunchProblem Launched :=
  match call.tasks with
  | .error problem => .error (.arguments problem)
  | .ok cards =>
    match call.check maxAgents journal cards (call.fresh journal cards) with
    | some problem => .error problem
    | none => .ok
      { started := (call.fresh journal cards).map call.pairKey
        replayed := cards.filterMap fun card =>
          (journal.finished (call.pairKey card).text).map fun recorded =>
            (call.pairKey card, recorded) }

structure PairOutcome where
  status : InfiniteResultStatus
  verdict : InfiniteVerdict
  summary : Text
  review : Text
  entries : List Int
  dropped : List Text
  files : List Text

/-- The card `_finish` builds, or `none` where the record refuses it. -/
def PairOutcome.card (outcome : PairOutcome) (key : PairKey) : Option InfiniteResultCard :=
  InfiniteResultCard.make key.name.val key.text outcome.status outcome.verdict outcome.summary
    outcome.review outcome.entries outcome.dropped (upsertAll id outcome.files)

/-! ### Runs with crashes and resumes -/

/-- What the agents of a process do at the journal, each without letting another in between. -/
inductive LaunchAction
  /-- A `launch_subagent` call, up to the pairs' first step. -/
  | launch (call : LaunchCall)
  /-- `_finish` of a running pair. -/
  | finish (key : PairKey) (outcome : PairOutcome)
  /-- The root's loop returned. -/
  | finishRun (stopReason answer : Text) (files : List Text)

structure InfiniteProcess where
  journal : InfiniteRunJournal
  running : List PairKey

namespace InfiniteProcess

def writes (maxAgents : Nat) (process : InfiniteProcess) : LaunchAction → List JournalRecord
  | .launch call =>
    match execute maxAgents process.journal.toJournalContents call with
    | .error _ => []
    | .ok launched => launched.started.map fun key => .pairStarted key.text
  | .finish key outcome =>
    if key ∈ process.running then
      ((outcome.card key).map fun card => JournalRecord.pairFinished key.text card).toList
    else []
  | .finishRun stopReason answer files => [.runFinished stopReason (some answer) files]

def runningAfter (maxAgents : Nat) (process : InfiniteProcess) : LaunchAction → List PairKey
  | .launch call =>
    match execute maxAgents process.journal.toJournalContents call with
    | .error _ => process.running
    | .ok launched => process.running ++ launched.started
  | .finish key outcome =>
    if (outcome.card key).isSome then process.running.erase key else process.running
  | .finishRun _ _ _ => process.running

def act (maxAgents : Nat) (process : InfiniteProcess) (action : LaunchAction) : InfiniteProcess where
  journal :=
    ⟨(process.writes maxAgents action).foldl JournalContents.apply process.journal.toJournalContents,
      process.journal.task⟩
  running := process.runningAfter maxAgents action

end InfiniteProcess

/-- What stays the same over a run and its resumes. -/
structure RunSettings where
  runId : Text
  maxAgents : Nat
  pyStr : Json → Text

inductive LaunchEvent
  /-- A new run: `run_started` is written. `stamp` is the time each record is written at. -/
  | start (task : Text) (stamp : JournalRecord → Text)
  /-- The process ends once `k` characters of `run_started` are in the file. -/
  | startCut (task : Text) (stamp : JournalRecord → Text) (k : Nat)
  | act (action : LaunchAction) (stamp : JournalRecord → Text)
  /-- The process ends in an action, after `n` of its records and `k` characters of the next. -/
  | crash (action : LaunchAction) (stamp : JournalRecord → Text) (n k : Nat)
  /-- The process ends between two actions. -/
  | stop
  /-- `resume`, once no process works on the run. -/
  | resume

/-- The journal's file, the records that are in it whole, and the process. -/
structure InfiniteRun where
  file : JsonlRun
  durable : List JournalRecord
  process : Option InfiniteProcess

namespace InfiniteRun

def begin : InfiniteRun := ⟨.start, [], none⟩

/-- `_append` of a record that returns. -/
def append (runId : Text) (stamp : JournalRecord → Text) (run : InfiniteRun)
    (record : JournalRecord) : InfiniteRun :=
  { run with
    file := run.file.step (.append (record.json runId (stamp record)))
    durable := run.durable ++ [record] }

/-- `_append` of the first record up to the `k`-th character that it writes; with the text of the
record, which needs no newline to be read, the record is in the file. -/
def cut (runId : Text) (stamp : JournalRecord → Text) (run : InfiniteRun) (k : Nat) :
    List JournalRecord → InfiniteRun
  | [] => run
  | record :: _ =>
    { run with
      file := run.file.step (.cut (record.json runId (stamp record)) k)
      durable :=
        if (run.file.log.repaired.2 ++ recordText (record.json runId (stamp record))).length ≤ k then
          run.durable ++ [record]
        else run.durable }

def step (settings : RunSettings) (run : InfiniteRun) : LaunchEvent → InfiniteRun
  | .start task stamp =>
    if run.process.isNone && run.file.log.file.isNone then
      { run.append settings.runId stamp (.runStarted task) with
        process := some ⟨⟨.empty, task⟩, []⟩ }
    else run
  | .startCut task stamp k =>
    if run.process.isNone && run.file.log.file.isNone then
      run.cut settings.runId stamp k [.runStarted task]
    else run
  | .act action stamp =>
    match run.process with
    | none => run
    | some process =>
      { (process.writes settings.maxAgents action).foldl (append settings.runId stamp) run with
        process := some (process.act settings.maxAgents action) }
  | .crash action stamp n k =>
    match run.process with
    | none => run
    | some process =>
      { (((process.writes settings.maxAgents action).take n).foldl (append settings.runId stamp)
          run).cut settings.runId stamp k ((process.writes settings.maxAgents action).drop n) with
        process := none }
  | .stop => { run with process := none }
  | .resume =>
    match run.process with
    | some _ => run
    | none =>
      { run with
        file := (run.file.step .reopen).step .read
        process :=
          match find settings.pyStr run.file.log.reopened with
          | .error _ => none
          | .ok (journal, _) => some ⟨journal, []⟩ }

def after (settings : RunSettings) (events : List LaunchEvent) : InfiniteRun :=
  events.foldl (step settings) begin

end InfiniteRun

end VidbyteSdk.Agents.Infinite

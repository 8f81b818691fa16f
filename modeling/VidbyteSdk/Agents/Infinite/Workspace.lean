import VidbyteSdk.Agents.Infinite.Entries

/-!
# Commits of memory entries

`InfiniteWorkspace.commit_entry` over the two entry files of one workspace. A class-level lock
makes commits one after the other, so an interleaving of them is an order of whole commits; a crash
may stop one between its file writes. `casefold` is Python's `str.casefold`.
-/

namespace VidbyteSdk.Agents.Infinite

open VidbyteSdk.Lib

structure InfiniteWorkspaceSettings where
  maxFiles : Nat
  maxTokens : Nat
  maxEntryTokens : Nat

inductive EntryFile
  | entries
  | superseded
  deriving DecidableEq

structure EntryFiles where
  entries : Text
  superseded : Text
  deriving DecidableEq

abbrev Utf8Text := { t : Text // Text.isUtf8 t = true }

/-- Who commits: agent keys and run ids, which are made of ASCII names, and the time. -/
structure Provenance where
  author : Utf8Text
  verifiedBy : Option Utf8Text
  run : Utf8Text
  stamp : Utf8Text

inductive CommitRefusal
  | malformedLine (file : EntryFile) (number : Nat)
  | notUtf8
  | tooLong (tokens : Nat)
  | alreadyRecorded (id : Int)
  | notLive (id : Int)
  | invalidEntry
  | tooManyFiles (files : Nat)
  | tooManyTokens (tokens : Nat)
  deriving DecidableEq

namespace EntryFiles

def text (files : EntryFiles) : EntryFile → Text
  | .entries => files.entries
  | .superseded => files.superseded

def replace (files : EntryFiles) (content : Text) : EntryFile → EntryFiles
  | .entries => { files with entries := content }
  | .superseded => { files with superseded := content }

/-- `backend.write_text`, which encodes the text before it touches the file. -/
def writeText (files : EntryFiles) (file : EntryFile) (content : Text) : Option EntryFiles :=
  if Text.isUtf8 content then some (files.replace content file) else none

/-- The writes in order; `false` when one raised. -/
def writeAll (files : EntryFiles) : List (EntryFile × Text) → EntryFiles × Bool
  | [] => (files, true)
  | (file, content) :: rest =>
    match files.writeText file content with
    | none => (files, false)
    | some files => files.writeAll rest

end EntryFiles

/-- `_entry_lines`, from the line with the given number on: each entry with its line. -/
def entryLines (file : EntryFile) : Nat → List Text →
    Except CommitRefusal (List (InfiniteEntry × Text))
  | _, [] => .ok []
  | number, raw :: rest =>
    let line := Text.rstripReturn raw
    if Text.isBlank line then entryLines file (number + 1) rest
    else
      match entryOfLine line with
      | none => .error (.malformedLine file number)
      | some entry => (entryLines file (number + 1) rest).map fun found => (entry, line) :: found

/-- The entries of a file as `_text` reads it. -/
def readEntries (files : EntryFiles) (file : EntryFile) :
    Except CommitRefusal (List (InfiniteEntry × Text)) :=
  entryLines file 1 (lines (universalNewlines (files.text file)))

section

variable (casefold : Text → Text) (settings : InfiniteWorkspaceSettings)

def normalText (t : Text) : Text := casefold (Text.joinWords t)

/-- `_entry_rules` with nothing staged: what is wrong with the draft. -/
def entryRules (draft : InfiniteEntryDraft) (live : List (InfiniteEntry × Text)) :
    Option CommitRefusal :=
  if !((draft.text :: draft.refs).all Text.isUtf8) then some .notUtf8
  else if settings.maxEntryTokens < Text.tokens draft.text then
    some (.tooLong (Text.tokens draft.text))
  else
    match live.find? fun e => normalText casefold e.1.draft.text = normalText casefold draft.text with
    | some twin => some (.alreadyRecorded twin.1.id)
    | none =>
      match draft.supersedes with
      | none => none
      | some id => if live.all fun e => e.1.id ≠ id then some (.notLive id) else none

def nextId (live retired : List (InfiniteEntry × Text)) : Int :=
  (((live ++ retired).map fun e => e.1.id).max?.getD 0) + 1

/-- `_room`: `others` are the tokens of each other file that counts in the folder. -/
def room (files : EntryFiles) (others : List Nat) (changed : List (EntryFile × Text)) :
    Option CommitRefusal :=
  let afterFiles := others.length + 2
  let afterTokens :=
    others.sum + Text.tokens (universalNewlines files.entries)
      + Text.tokens (universalNewlines files.superseded)
      - (changed.map fun w => Text.tokens (universalNewlines (files.text w.1))).sum
      + (changed.map fun w => Text.tokens w.2).sum
  if settings.maxFiles < afterFiles then some (.tooManyFiles afterFiles)
  else if settings.maxTokens < afterTokens then some (.tooManyTokens afterTokens)
  else none

structure CommitPlan where
  entry : InfiniteEntry
  moved : List (InfiniteEntry × Text)
  writes : List (EntryFile × Text)

/-- The files that the commit of an entry changes, the superseded file first. -/
def commitWrites (live retired : List (InfiniteEntry × Text)) (entry : InfiniteEntry) :
    CommitPlan :=
  let kept := live.filter fun e => some e.1.id ≠ entry.draft.supersedes
  let moved := live.filter fun e => some e.1.id = entry.draft.supersedes
  let changed := (EntryFile.entries, unlines (kept.map Prod.snd ++ [entryJson entry]))
  { entry
    moved
    writes :=
      if moved.isEmpty then [changed]
      else
        [(EntryFile.superseded, unlines (retired.map Prod.snd) ++ unlines (moved.map Prod.snd)),
          changed] }

/-- `commit_entry` up to its first write. -/
def commitPlan (files : EntryFiles) (others : List Nat) (draft : InfiniteEntryDraft)
    (origin : Provenance) : Except CommitRefusal CommitPlan :=
  match readEntries files .entries with
  | .error refusal => .error refusal
  | .ok live =>
    match readEntries files .superseded with
    | .error refusal => .error refusal
    | .ok retired =>
      match entryRules casefold settings draft live with
      | some refusal => .error refusal
      | none =>
        match InfiniteEntry.make (nextId live retired) draft origin.author.val
            (origin.verifiedBy.map Subtype.val) origin.run.val origin.stamp.val with
        | none => .error .invalidEntry
        | some entry =>
          match room settings files others (commitWrites live retired entry).writes with
          | some refusal => .error refusal
          | none => .ok (commitWrites live retired entry)

/-- `commit_entry` -/
def commitEntry (files : EntryFiles) (others : List Nat) (draft : InfiniteEntryDraft)
    (origin : Provenance) : EntryFiles × Except CommitRefusal InfiniteEntry :=
  match commitPlan casefold settings files others draft origin with
  | .error refusal => (files, .error refusal)
  | .ok plan =>
    match files.writeAll plan.writes with
    | (files, true) => (files, .ok plan.entry)
    | (files, false) => (files, .error .notUtf8)

end

/-! ### Runs -/

/-- One commit's arguments, and what else is in the folder when it runs. -/
structure CommitCall where
  draft : InfiniteEntryDraft
  origin : Provenance
  others : List Nat

inductive WorkspaceEvent
  /-- A commit that returns or is refused. -/
  | commit (call : CommitCall)
  /-- A commit that stops after its first `writes` file writes. -/
  | crash (call : CommitCall) (writes : Nat)
  /-- A new process over the same folder. -/
  | restart

/-- The files, every entry whose line went into the live file, and those that a stopped commit left
in both files. -/
structure WorkspaceRun where
  files : EntryFiles
  committed : List InfiniteEntry
  halfMoved : List InfiniteEntry

namespace WorkspaceRun

variable (casefold : Text → Text) (settings : InfiniteWorkspaceSettings)

def start : WorkspaceRun := ⟨⟨[], []⟩, [], []⟩

def step (run : WorkspaceRun) : WorkspaceEvent → WorkspaceRun
  | .commit call =>
    match commitEntry casefold settings run.files call.others call.draft call.origin with
    | (files, .ok entry) => { run with files, committed := run.committed ++ [entry] }
    | (files, .error _) => { run with files }
  | .crash call writes =>
    match commitPlan casefold settings run.files call.others call.draft call.origin with
    | .error _ => run
    | .ok plan =>
      { files := (run.files.writeAll (plan.writes.take writes)).1
        committed :=
          if plan.writes.length ≤ writes then run.committed ++ [plan.entry] else run.committed
        halfMoved :=
          if 0 < writes ∧ writes < plan.writes.length then
            run.halfMoved ++ plan.moved.map Prod.fst
          else run.halfMoved }
  | .restart => run

def after (events : List WorkspaceEvent) : WorkspaceRun :=
  events.foldl (step casefold settings) start

end WorkspaceRun

end VidbyteSdk.Agents.Infinite

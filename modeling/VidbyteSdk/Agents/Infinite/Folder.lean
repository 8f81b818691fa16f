import VidbyteSdk.Agents.Infinite.Cards
import VidbyteSdk.Agents.Infinite.Workspace
import VidbyteSdk.Lib.Utf8

/-!
# The workspace folder

The folder every agent of one tree shares, as files of bytes under their paths, and the operations
that write it: `commit_entry`, `write_note` and `edit_file`. Each measures the folder on the disk,
projects its writes on what it measured, and is refused where the projection is over a cap. There
are no symbolic links and the disk takes every write; `casefold` is Python's `str.casefold`.
-/

namespace VidbyteSdk.Agents.Infinite

open VidbyteSdk.Lib

/-- A path under the root: its names, one for each folder on the way and the last. -/
abbrev FolderPath := List Text

inductive FolderNode
  | file (bytes : List Byte)
  | dir
  deriving DecidableEq

structure Folder where
  nodes : List (FolderPath × FolderNode)
  nodup : (nodes.map Prod.fst).Nodup

namespace Folder

variable (folder : Folder)

def node? (path : FolderPath) : Option FolderNode :=
  (folder.nodes.find? fun row => row.1 = path).map Prod.snd

def bytes? (path : FolderPath) : Option (List Byte) :=
  match folder.node? path with
  | some (.file bytes) => some bytes
  | _ => none

def isFile (path : FolderPath) : Bool := (folder.bytes? path).isSome

def isDir (path : FolderPath) : Bool := path = [] || folder.node? path = some .dir

def pathExists (path : FolderPath) : Bool := path = [] || (folder.node? path).isSome

/-- A file's text, decoded with `errors="replace"`; `""` where there is no file. -/
def rawText (path : FolderPath) : Text := Utf8.decode ((folder.bytes? path).getD [])

/-- `read_text(encoding="utf-8", errors="replace")`, which ends every line with a newline. -/
def readText (path : FolderPath) : Text := universalNewlines (folder.rawText path)

def put (path : FolderPath) (node : FolderNode) : Folder :=
  ⟨upsert Prod.fst (path, node) folder.nodes, nodup_map_key_upsert folder.nodup⟩

def parents (path : FolderPath) : List FolderPath := path.inits.tail.dropLast

/-- `mkdir(exist_ok=True)` where no file has the name. -/
def makeDir (path : FolderPath) : Folder :=
  if (folder.node? path).isSome then folder else folder.put path .dir

/-- `backend.write_text(..., create_parents=True, atomic=True)`: the text is encoded first, and the
temporary file is swapped in whole. -/
def writeText (path : FolderPath) (content : Text) : Option Folder :=
  if !Text.isUtf8 content || (parents path).any folder.isFile || folder.isDir path then none
  else
    some (((parents path).foldl makeDir folder).put path (.file (Utf8.encode content)))

/-- The writes in order; `false` when one raised. -/
def writeAll (folder : Folder) : List (FolderPath × Text) → Folder × Bool
  | [] => (folder, true)
  | (path, content) :: rest =>
    match folder.writeText path content with
    | none => (folder, false)
    | some folder => folder.writeAll rest

end Folder

/-! ### `FolderUsage` -/

def infiniteRunsDirname : Text := Json.word ['.', 'r', 'u', 'n', 's']
def infiniteSeedDirname : Text := Json.word ['s', 'e', 'e', 'd']

def infiniteEntriesFile : Text :=
  Json.word ['e', 'n', 't', 'r', 'i', 'e', 's', '.', 'j', 's', 'o', 'n', 'l']

def infiniteSupersededFile : Text :=
  Json.word ['s', 'u', 'p', 'e', 'r', 's', 'e', 'd', 'e', 'd', '.', 'j', 's', 'o', 'n', 'l']

def infiniteFilesFile : Text :=
  Json.word ['f', 'i', 'l', 'e', 's', '.', 'j', 's', 'o', 'n', 'l']

def countedRow : FolderPath × FolderNode → Option (FolderPath × Nat)
  | (_, .dir) => none
  | (path, .file bytes) =>
    if path.head? = some infiniteRunsDirname then none
    else some (path, Text.tokens (universalNewlines (Utf8.decode bytes)))

/-- `FolderUsage.tokens_by_file` -/
def Folder.tokensByFile (folder : Folder) : List (FolderPath × Nat) :=
  folder.nodes.filterMap countedRow

structure FolderTotals where
  files : Nat
  tokens : Nat
  deriving DecidableEq

/-- `counts.get(path, 0)` -/
def countOf (counts : List (FolderPath × Nat)) (path : FolderPath) : Nat :=
  ((counts.find? fun row => row.1 = path).map Prod.snd).getD 0

/-- `FolderUsage.totals` -/
def totals (counts : List (FolderPath × Nat)) (changed : List (FolderPath × Text)) :
    FolderTotals where
  files := counts.length + (changed.filter fun w => w.1 ∉ counts.map Prod.fst).length
  tokens := (counts.map Prod.snd).sum - (changed.map fun w => countOf counts w.1).sum
    + (changed.map fun w => Text.tokens w.2).sum

/-- `usage` -/
def Folder.usage (folder : Folder) : FolderTotals := totals folder.tokensByFile []

/-! ### Note paths -/

structure NoteSettings extends InfiniteWorkspaceSettings where
  maxFileTokens : Nat

inductive NoteRefusal
  | brokenLine
  /-- The disk cannot name such a file: `resolve` raises. -/
  | unresolvable
  | outside
  | badSuffix
  | colon
  | reserved
  | noAllowance
  | noDescription
  | tooLong (tokens : Nat)
  | missing
  | notOneMatch (found : Nat)
  | tooManyFiles (files : Nat)
  | tooManyTokens (tokens : Nat)
  | notUtf8
  /-- A folder stands where the file should, or a file where a folder should. -/
  | diskRefused
  deriving DecidableEq

abbrev dot : CodePoint := 0x2E

/-- A name or path the operating system can be asked about: it holds no NUL, and its surrogates are
those that stand for bytes of a name. -/
def isFsText (t : Text) : Bool :=
  t.all fun c => c ≠ 0 && (!c.isSurrogate || (0xDC80 ≤ c.val && c.val ≤ 0xDCFF))

/-- One step of `resolve` where no name is a link. -/
def resolveName (path : List Text) (name : Text) : List Text :=
  if name = [] ∨ name = [dot] then path
  else if name = [dot, dot] then path.dropLast
  else path ++ [name]

/-- `(root / path).resolve()` -/
def resolvePath (root : List Text) (path : Text) : List Text :=
  (path.splitOn slash).foldl resolveName (if path.head? = some slash then [] else root)

/-- `path.suffix` -/
def suffixOf (name : Text) : Text :=
  let extension := (name.reverse.takeWhile (· ≠ dot)).reverse
  if extension ≠ [] ∧ extension.length + 1 < name.length then dot :: extension else []

def infiniteNoteSuffixes : List Text :=
  [Json.word ['.', 'm', 'd'], Json.word ['.', 't', 'x', 't'], Json.word ['.', 'j', 's', 'o', 'n'],
    Json.word ['.', 'j', 's', 'o', 'n', 'l']]

/-- `as_posix()` -/
def posix (path : FolderPath) : Text := if path = [] then [dot] else [slash].intercalate path

section

variable (casefold : Text → Text) (settings : NoteSettings) (root : List Text) (folder : Folder)

/-- `_note_path` -/
def notePath (path : Text) : Except NoteRefusal FolderPath :=
  if !Text.isOneLine path then .error .brokenLine
  else if !isFsText path then .error .unresolvable
  else
    let target := resolvePath root path
    if !root.isPrefixOf target then .error .outside
    else if suffixOf (target.getLast?.getD []) ∉ infiniteNoteSuffixes then .error .badSuffix
    else
      let relative := target.drop root.length
      let folded := casefold (posix relative)
      if Json.colon ∈ posix relative then .error .colon
      else if folder.isDir relative
          || folded.takeWhile (· ≠ slash) ∈ [infiniteSeedDirname, infiniteRunsDirname]
          || folded ∈ [infiniteEntriesFile, infiniteSupersededFile, infiniteFilesFile] then
        .error .reserved
      else .ok relative

/-- `_room`, on the files as they would be after the write. -/
def noteRoom (changed : List (FolderPath × Text)) : Option NoteRefusal :=
  let after := totals folder.tokensByFile changed
  if settings.maxFiles < after.files then some (.tooManyFiles after.files)
  else if settings.maxTokens < after.tokens then some (.tooManyTokens after.tokens)
  else none

def describes (description : Option Text) : Bool :=
  match description with
  | none => false
  | some line => isTextLine line && Text.tokens line ≤ settings.maxEntryTokens

/-- The record of a new note in `files.jsonl`. -/
def fileRecord (relative : FolderPath) (description author run stamp : Text) : Text :=
  Json.dumps false (.obj [(Json.word ['p', 'a', 't', 'h'], .str (posix relative)),
    (Json.word ['d', 'e', 's', 'c', 'r', 'i', 'p', 't', 'i', 'o', 'n'], .str description),
    (byKey, .str author), (runKey, .str run), (atKey, .str stamp)])

/-- The arguments of `write_note`, with the time it reads. -/
structure NoteCall where
  path : Text
  text : Text
  description : Option Text
  author : Text
  run : Text
  stamp : Text
  mayCreate : Bool

def noteText (relative : FolderPath) (created : Bool) (text : Text) : Text :=
  (if created then [] else folder.readText relative) ++ text

def noteWrites (relative : FolderPath) (created : Bool) (note : Text) (call : NoteCall) :
    List (FolderPath × Text) :=
  if created then
    [(relative, note), ([infiniteFilesFile], folder.readText [infiniteFilesFile]
      ++ fileRecord relative (call.description.getD []) call.author call.run call.stamp
      ++ [newline])]
  else [(relative, note)]

/-- `write_note` up to its first write. -/
def notePlan (call : NoteCall) :
    Except NoteRefusal (Bool × FolderPath × List (FolderPath × Text)) :=
  match notePath casefold root folder call.path with
  | .error refusal => .error refusal
  | .ok relative =>
    let created := !folder.pathExists relative
    if created && !call.mayCreate then .error .noAllowance
    else if created && !describes settings call.description then .error .noDescription
    else
      let note := noteText folder relative created call.text
      if settings.maxFileTokens < Text.tokens note then .error (.tooLong (Text.tokens note))
      else
        let changed := noteWrites folder relative created note call
        match noteRoom settings folder changed with
        | some refusal => .error refusal
        | none =>
          if !changed.all fun w => Text.isUtf8 w.2 then .error .notUtf8
          else .ok (created, relative, changed)

/-- `write_note`: whether the note was created, and its path. -/
def writeNote (call : NoteCall) : Folder × Except NoteRefusal (Bool × FolderPath) :=
  match notePlan casefold settings root folder call with
  | .error refusal => (folder, .error refusal)
  | .ok (created, relative, changed) =>
    match folder.writeAll changed with
    | (folder, true) => (folder, .ok (created, relative))
    | (folder, false) => (folder, .error .diskRefused)

/-- `SubstringCounter.count_overlapping` of a text that is not empty. -/
def countOverlapping (search : Text) : Text → Nat
  | [] => 0
  | c :: rest => (if search.isPrefixOf (c :: rest) then 1 else 0) + countOverlapping search rest

/-- How often `edit_file` finds the text. -/
def matchCount (content oldText : Text) : Nat :=
  if oldText = [] then 0 else countOverlapping oldText content

/-- `content.replace(old, new, 1)` -/
def replaceFirst (old new : Text) : Text → Text
  | [] => []
  | c :: rest =>
    if old.isPrefixOf (c :: rest) then new ++ (c :: rest).drop old.length
    else c :: replaceFirst old new rest

/-- `edit_file` -/
def editFile (path oldText newText : Text) : Folder × Except NoteRefusal FolderPath :=
  match notePath casefold root folder path with
  | .error refusal => (folder, .error refusal)
  | .ok relative =>
    if !folder.isFile relative then (folder, .error .missing)
    else
      let content := folder.readText relative
      if matchCount content oldText ≠ 1 then
        (folder, .error (.notOneMatch (matchCount content oldText)))
      else
        let note := replaceFirst oldText newText content
        if settings.maxFileTokens < Text.tokens note then
          (folder, .error (.tooLong (Text.tokens note)))
        else
          match noteRoom settings folder [(relative, note)] with
          | some refusal => (folder, .error refusal)
          | none =>
            match folder.writeText relative note with
            | some folder => (folder, .ok relative)
            | none => (folder, .error .diskRefused)

/-! ### Commits -/

def EntryFile.path : EntryFile → FolderPath
  | .entries => [infiniteEntriesFile]
  | .superseded => [infiniteSupersededFile]

def Folder.entryFiles : EntryFiles where
  entries := folder.rawText [infiniteEntriesFile]
  superseded := folder.rawText [infiniteSupersededFile]

def Folder.otherCounts : List Nat :=
  (folder.tokensByFile.filter fun row =>
    row.1 ≠ [infiniteEntriesFile] ∧ row.1 ≠ [infiniteSupersededFile]).map Prod.snd

/-- `commit_entry` over the folder. -/
def commitIn (draft : InfiniteEntryDraft) (origin : Provenance) :
    Folder × Except CommitRefusal InfiniteEntry :=
  match commitPlan casefold settings.toInfiniteWorkspaceSettings folder.entryFiles
      folder.otherCounts draft origin with
  | .error refusal => (folder, .error refusal)
  | .ok plan =>
    match folder.writeAll (plan.writes.map fun w => (w.1.path, w.2)) with
    | (folder, true) => (folder, .ok plan.entry)
    | (folder, false) => (folder, .error .notUtf8)

/-! ### Runs -/

inductive FolderOp
  | commitEntry (draft : InfiniteEntryDraft) (origin : Provenance)
  | writeNote (call : NoteCall)
  | editFile (path oldText newText : Text)

def applyOp : FolderOp → Folder × Bool
  | .commitEntry draft origin =>
    let result := commitIn casefold settings folder draft origin
    (result.1, !result.2.isOk)
  | .writeNote call =>
    let result := writeNote casefold settings root folder call
    (result.1, !result.2.isOk)
  | .editFile path oldText newText =>
    let result := editFile casefold settings root folder path oldText newText
    (result.1, !result.2.isOk)

end

end VidbyteSdk.Agents.Infinite

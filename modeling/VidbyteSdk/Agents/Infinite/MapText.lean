import Mathlib.Data.List.Sort
import VidbyteSdk.Agents.Infinite.Folder
import VidbyteSdk.Lib.Dicts
import VidbyteSdk.Lib.PaddedNumbers

/-!
# The workspace map

`InfiniteWorkspace.map_text`: a header with the totals and one line per file in path order. A map over its cap shows
the first lines that fit, and says how many files it leaves out.
-/

namespace VidbyteSdk.Agents.Infinite

open VidbyteSdk.Lib
open Json (digitsOf lit)

def infiniteMapMaxTokens : ℕ := 8000

def tokenEstimateCharsPerToken : ℕ := 4

def infiniteNoDescription : Text := lit "(no description)"

def infiniteSeedLabel : Text := lit "(seed file, read-only)"

/-- `INFINITE_MORE_FILES.format(count=count)` -/
def infiniteMoreFiles (count : ℕ) : Text := lit "… and " ++ digitsOf count ++ lit " more files"

/-- `_descriptions` over all runs: for each path, the description of its last record. -/
def descriptions (text : Text) : List (Text × Text) :=
  upsertAll Prod.fst ((text.splitOn newline).filterMap fun line => do
    let record ← Json.loads line
    match record.get? (lit "path"), record.get? (lit "description") with
    | some (.str path), some (.str description) => some (path, description)
    | _, _ => none)

def printed (n : ℕ) : Option Text := if (digitsOf n).length ≤ 4300 then some (digitsOf n) else none

section

variable (settings : InfiniteWorkspaceSettings) (folder : Folder)

/-- `FolderUsage.tokens_by_file`, in path order. -/
def mapCounts : List (FolderPath × ℕ) := folder.tokensByFile.insertionSort fun a b => a.1 ≤ b.1

/-- The prompt `INFINITE_MEMORY_MAP_HEADER` with its numbers. -/
def mapHeader : Option Text := do
  let live := (folder.readText [infiniteEntriesFile]).splitOn newline |>.countP fun line => !Text.isBlank line
  let files ← printed (mapCounts folder).length
  let maxFiles ← printed settings.maxFiles
  let tokens ← printed ((mapCounts folder).map Prod.snd).sum
  let maxTokens ← printed settings.maxTokens
  let entries ← printed live
  some (lit "Files: " ++ files ++ lit " of " ++ maxFiles ++ lit ". Tokens: " ++ tokens ++ lit " of " ++ maxTokens ++
    lit ". Live memory entries: " ++ entries ++ lit (", kept in entries.jsonl and found with grep. " ++
      "Each line below is one workspace file with its token count and description."))

def mapLine (found : List (Text × Text)) (row : FolderPath × ℕ) : Text :=
  lit "- " ++ posix row.1 ++ lit " (" ++ digitsOf row.2 ++ lit " tokens): " ++
    if (infiniteSeedDirname ++ [slash]).isPrefixOf (posix row.1) then infiniteSeedLabel
    else (found.lookup (posix row.1)).getD infiniteNoDescription

def mapLines : List Text := (mapCounts folder).map (mapLine (descriptions (folder.readText [infiniteFilesFile])))

end

/-- The loop over the lines: those after `shown`, while there is room, out of `count` files of which `index` are
shown. -/
def cutMap (room : ℤ) (count : ℕ) : Text → ℕ → List Text → Text
  | shown, _, [] => shown
  | shown, index, line :: lines =>
    if room < shown.length + 1 + line.length then shown ++ newline :: infiniteMoreFiles (count - index)
    else cutMap room count (shown ++ newline :: line) (index + 1) lines

/-- `map_text` -/
def mapText (settings : InfiniteWorkspaceSettings) (folder : Folder) : Option Text :=
  (mapHeader settings folder).map fun header =>
    let lines := mapLines folder
    let rendered := joinLines (header :: lines)
    if Text.tokens rendered ≤ infiniteMapMaxTokens then rendered
    else
      let room : ℤ := infiniteMapMaxTokens * tokenEstimateCharsPerToken - (infiniteMoreFiles lines.length).length - 1
      cutMap room lines.length header 0 lines

/-! ### What the cut shows -/

theorem length_digitsOf_mono {m n : ℕ} (h : m ≤ n) : (digitsOf m).length ≤ (digitsOf n).length :=
  length_digitsOf_le (List.length_pos_iff.mpr (Json.digitsOf_ne_nil n)) (Nat.lt_of_le_of_lt h (digitsOf_spec n).2)

theorem length_infiniteMoreFiles (count : ℕ) : (infiniteMoreFiles count).length = (digitsOf count).length + 17 := by
  have hbefore : (lit "… and ").length = 6 := by decide
  have hafter : (lit " more files").length = 11 := by decide
  rw [infiniteMoreFiles, List.length_append, List.length_append, hbefore, hafter]
  omega

theorem joinLines_concat (header : Text) (lines : List Text) (line : Text) :
    joinLines (header :: (lines ++ [line])) = joinLines (header :: lines) ++ newline :: line := by
  induction lines generalizing header with
  | nil => rw [List.nil_append, joinLines_cons_cons, joinLines_singleton, joinLines_singleton]
  | cons first lines ih =>
    rw [List.cons_append, joinLines_cons_cons, ih, joinLines_cons_cons, List.append_assoc, List.cons_append]

/-- What a map shows of its lines: all of them, or the first ones and the number of the rest. -/
def Shows (header : Text) (lines : List Text) (text : Text) : Prop :=
  text = joinLines (header :: lines) ∨
    ∃ shown rest left, lines = shown ++ rest ∧ text = joinLines (header :: shown) ++ newline :: infiniteMoreFiles left ∧
      left + shown.length = lines.length

theorem cutMap_shows (room : ℤ) (header : Text) (shown lines : List Text) :
    Shows header (shown ++ lines)
      (cutMap room (shown ++ lines).length (joinLines (header :: shown)) shown.length lines) := by
  induction lines generalizing shown with
  | nil =>
    rw [List.append_nil]
    exact .inl rfl
  | cons line lines ih =>
    rw [cutMap]
    split
    · refine .inr ⟨shown, line :: lines, _, rfl, rfl, Nat.sub_add_cancel ?_⟩
      rw [List.length_append]
      exact Nat.le_add_right _ _
    · have hnext := ih (shown ++ [line])
      rwa [List.append_assoc, List.singleton_append, joinLines_concat, show (shown ++ [line]).length = shown.length + 1 from
        List.length_append] at hnext

theorem length_cutMap_le {room : ℤ} {shown : Text} (h : (shown.length : ℤ) ≤ room) (count index : ℕ)
    (lines : List Text) :
    ((cutMap room count shown index lines).length : ℤ) ≤ room + 1 + (infiniteMoreFiles count).length := by
  induction lines generalizing shown index with
  | nil =>
    rw [cutMap]
    omega
  | cons line lines ih =>
    rw [cutMap]
    split
    · have hdigits := length_digitsOf_mono (Nat.sub_le count index)
      rw [List.length_append, List.length_cons, length_infiniteMoreFiles, length_infiniteMoreFiles]
      push_cast
      omega
    · refine ih ?_ (index + 1)
      rw [List.length_append, List.length_cons]
      push_cast
      omega

/-! ### The header -/

variable {settings : InfiniteWorkspaceSettings} {folder : Folder}

theorem length_of_printed {n : ℕ} {text : Text} (h : printed n = some text) :
    text.length ≤ 4300 ∧ text = digitsOf n := by
  unfold printed at h
  split at h
  · next hle =>
    cases h
    exact ⟨hle, rfl⟩
  · cases h

theorem length_mapHeader {header : Text} (h : mapHeader settings folder = some header) :
    header.length ≤ 21800 ∧ (digitsOf (mapLines folder).length).length ≤ 4300 := by
  obtain ⟨files, hfiles, h⟩ := Option.bind_eq_some_iff.mp h
  obtain ⟨maxFiles, hmaxFiles, h⟩ := Option.bind_eq_some_iff.mp h
  obtain ⟨tokens, htokens, h⟩ := Option.bind_eq_some_iff.mp h
  obtain ⟨maxTokens, hmaxTokens, h⟩ := Option.bind_eq_some_iff.mp h
  obtain ⟨entries, hentries, h⟩ := Option.bind_eq_some_iff.mp h
  have hlengths := And.intro (length_of_printed hfiles).1 (And.intro (length_of_printed hmaxFiles).1
    (And.intro (length_of_printed htokens).1 (And.intro (length_of_printed hmaxTokens).1
      (length_of_printed hentries).1)))
  have htemplate : (lit "Files: ").length + (lit " of ").length + (lit ". Tokens: ").length + (lit " of ").length +
      (lit ". Live memory entries: ").length + (lit (", kept in entries.jsonl and found with grep. " ++
        "Each line below is one workspace file with its token count and description.")).length ≤ 300 := by
    decide +kernel
  constructor
  · rw [← Option.some.inj h]
    simp only [List.length_append] at htemplate ⊢
    omega
  · have hcount := length_of_printed hfiles
    rw [hcount.2] at hcount
    rw [mapLines, List.length_map]
    exact hcount.1

/-! ### The map -/

theorem pairwise_mapCounts : (mapCounts folder).Pairwise fun a b => a.1 ≤ b.1 :=
  List.pairwise_insertionSort (fun a b : FolderPath × ℕ => a.1 ≤ b.1) _

/-- The map has no more tokens than its cap. It shows the lines of all files in path order, or the first of them and
the number of those it leaves out. -/
theorem mapText_fits {text : Text} (h : mapText settings folder = some text) :
    Text.tokens text ≤ infiniteMapMaxTokens ∧
      (mapCounts folder).Perm folder.tokensByFile ∧ ((mapCounts folder).Pairwise fun a b => a.1 ≤ b.1) ∧
      ∃ header, mapHeader settings folder = some header ∧ Shows header (mapLines folder) text := by
  obtain ⟨header, hheader, rfl⟩ := Option.map_eq_some_iff.mp h
  refine ⟨?_, List.perm_insertionSort _ _, pairwise_mapCounts, header, hheader, ?_⟩
  · dsimp only
    split
    · assumption
    · obtain ⟨hlength, hdigits⟩ := length_mapHeader hheader
      have hmore := length_infiniteMoreFiles (mapLines folder).length
      have hcap : (infiniteMapMaxTokens : ℤ) * tokenEstimateCharsPerToken = 32000 := rfl
      have hroom : (header.length : ℤ) ≤ 32000 - (infiniteMoreFiles (mapLines folder).length).length - 1 := by omega
      have hcut := length_cutMap_le hroom (mapLines folder).length 0 (mapLines folder)
      rw [hcap, Text.tokens, show infiniteMapMaxTokens = 8000 from rfl]
      omega
  · dsimp only
    split
    · exact .inl rfl
    · have hshows := cutMap_shows (infiniteMapMaxTokens * tokenEstimateCharsPerToken -
        (infiniteMoreFiles (mapLines folder).length).length - 1) header [] (mapLines folder)
      rwa [joinLines_singleton] at hshows

def noteFolder : Folder := ⟨[([lit "a.md"], .file [0x61])], List.nodup_singleton _⟩

theorem mapText_fits_noteFolder : ∃ text, mapText ⟨9, 9, 9⟩ noteFolder = some text ∧
    Text.tokens text ≤ infiniteMapMaxTokens := by
  obtain ⟨text, htext⟩ := Option.isSome_iff_exists.mp
    (show (mapText ⟨9, 9, 9⟩ noteFolder).isSome = true by decide +kernel)
  exact ⟨text, htext, (mapText_fits htext).1⟩

end VidbyteSdk.Agents.Infinite

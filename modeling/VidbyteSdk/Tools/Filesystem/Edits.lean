import VidbyteSdk.Lib.Dicts
import VidbyteSdk.Lib.LineEndings
import VidbyteSdk.Lib.Utf8Search

/-!
# Exact edits

`replace_text` and `patch_file` replace the one match of a search text in a file. The file is read with its
line endings translated and written in its own, and the two texts of a call are made to end their lines
as the translated file does. Both tools run in a folder that they may not leave; what a path resolves to
there is the `target` of a call. Files are UTF-8, which is the default of both.
-/

namespace VidbyteSdk.Tools.Filesystem

open VidbyteSdk.Lib VidbyteSdk.Lib.LineEnding
open VidbyteSdk.Lib.Json (lit intText)

inductive EditTarget
  | outside
  | missing
  | notFile
  | file (bytes : List Byte)
  deriving DecidableEq

/-- The texts that the standard library words: a diff of two texts under two labels, and what is said of
bytes that are no text and of a text that has no bytes. -/
structure Wording where
  unifiedDiff : Text → Text → Text → Text → Text
  decodeError : List Byte → Text
  encodeError : Text → Text

/-- A refused call; `error` is what `patch_file` puts in the metadata. -/
structure EditFailure where
  message : Text
  error : Option Text := none

/-- `data.decode("utf-8")`, `none` where it raises. -/
def decodeStrict (bytes : List Byte) : Option Text :=
  let text := Utf8.decode bytes
  if Utf8.encode text = bytes then some text else none

/-- What a file holds once a text was written to it, `none` where the text is refused before the file is
opened. -/
def writtenBytes (ending : LineEnding) (content : Text) : Option (List Byte) :=
  if Text.isUtf8 content then some (Utf8.encode (ending.written content)) else none

/-- `SubstringCounter.count_overlapping` -/
def countOverlapping (text search : Text) : ℕ := occurrences search text

/-- `EDIT_DIFF_MAX_LINES` -/
def editDiffMaxLines : ℕ := 80

variable (wording : Wording)

/-- `_edit_diff` -/
def editDiff (resolved before updated : Text) : Text :=
  let diff := wording.unifiedDiff before updated resolved resolved
  if diff = [] then lit "no changes"
  else
    let lines := (if diff.getLast? = some newline then diff.dropLast else diff).splitOn newline
    if editDiffMaxLines < lines.length then
      joinLines (lines.take editDiffMaxLines ++ [lit "[diff truncated: "
        ++ intText (lines.length - editDiffMaxLines : ℕ) ++ lit " more lines]"])
    else joinLines lines

/-- `ReplaceTextTool.execute`: what is left of the target, and the text of the result. -/
def replaceText (allowWrite : Bool) (resolved : Text) (target : EditTarget) (search replacement : Text) :
    EditTarget × Except EditFailure Text :=
  if !allowWrite then (target, .error ⟨lit "Filesystem writes require allow_write=True.", none⟩)
  else if search = [] then (target, .error ⟨lit "ReplaceTextTool search cannot be empty.", none⟩)
  else
    match target with
    | .outside =>
      (target, .error ⟨lit "Filesystem tool path escaped the configured root.", none⟩)
    | .missing => (target, .error ⟨lit "File does not exist.", none⟩)
    | .notFile => (target, .error ⟨lit "Path is not a file.", none⟩)
    | .file bytes =>
      match decodeStrict bytes with
      | none => (target, .error ⟨wording.decodeError bytes, none⟩)
      | some raw =>
        let content := universalNewlines raw
        let count := countOverlapping content (toLf search)
        if count ≠ 1 then
          let reason := if count = 0 then lit "it was not found"
            else lit "it appears " ++ intText (count : ℕ)
              ++ lit " times; include more surrounding text to make it unique"
          (target, .error ⟨lit "ReplaceTextTool requires the search text to appear exactly once, but "
            ++ reason ++ lit ".", none⟩)
        else
          let updated := substituteFirst (toLf search) (toLf replacement) content
          let change := editDiff wording resolved content updated
          match writtenBytes (detect raw) updated with
          | none => (target, .error ⟨wording.encodeError updated, none⟩)
          | some bytes => (.file bytes, .ok (resolved ++ [newline] ++ change))

/-- `PatchTool.execute`: what is left of the target, and the text of the result. -/
def patchFile (filePath : Text) (target : EditTarget) (searchBlock replaceBlock : Text) :
    EditTarget × Except EditFailure Text :=
  if searchBlock = [] then
    (target, .error ⟨lit "search_block cannot be empty.", some (lit "empty_search")⟩)
  else
    match target with
    | .outside => (target, .error ⟨lit "Path escapes root: " ++ filePath, some (lit "read_error")⟩)
    | .missing => (target, .error ⟨lit "File not found: " ++ filePath, some (lit "read_error")⟩)
    | .notFile => (target, .error ⟨lit "File not found: " ++ filePath, some (lit "read_error")⟩)
    | .file bytes =>
      match decodeStrict bytes with
      | none => (target, .error ⟨wording.decodeError bytes, some (lit "read_error")⟩)
      | some raw =>
        let before := universalNewlines raw
        let count := countOverlapping before (toLf searchBlock)
        if count = 0 then
          (target, .error
            ⟨lit "Code block not found. Ensure spacing and indentation match exactly.",
              some (lit "not_found")⟩)
        else if 1 < count then
          (target, .error ⟨lit "Ambiguous patch. The search block matches multiple locations.",
            some (lit "ambiguous")⟩)
        else
          let after := substituteFirst (toLf searchBlock) (toLf replaceBlock) before
          match writtenBytes (detect raw) after with
          | none => (target, .error ⟨wording.encodeError after, some (lit "write_error")⟩)
          | some bytes =>
            let diff := wording.unifiedDiff before after (lit "a/" ++ filePath) (lit "b/" ++ filePath)
            (.file bytes,
              .ok (if diff = [] then lit "Patch applied with no line-level diff." else diff))

/-! ### What both tools do -/

/-- The bytes of a target after an edit, `none` where the edit is refused. -/
def editedBytes (target : EditTarget) (search replacement : Text) : Option (List Byte) :=
  match target with
  | .file bytes => (decodeStrict bytes).bind fun raw =>
    if search ≠ [] ∧ countOverlapping (universalNewlines raw) (toLf search) = 1 then
      writtenBytes (detect raw) (substituteFirst (toLf search) (toLf replacement) (universalNewlines raw))
    else none
  | _ => none

/-- A call that makes the edit, or is refused and leaves the target as it was. -/
def Makes (result : EditTarget × Except EditFailure Text) (target : EditTarget) :
    Option (List Byte) → Prop
  | some bytes => result.1 = .file bytes ∧ result.2.isOk = true
  | none => result.1 = target ∧ result.2.isOk = false

variable {wording} {target : EditTarget} {search replacement : Text}

theorem editedBytes_empty (target : EditTarget) (replacement : Text) :
    editedBytes target [] replacement = none := by
  cases target with
  | file bytes =>
    rw [editedBytes]
    cases decodeStrict bytes with
    | none => rfl
    | some raw => rfl
  | _ => rfl

theorem replaceText_makes (resolved : Text) :
    Makes (replaceText wording true resolved target search replacement) target
      (editedBytes target search replacement) := by
  by_cases hempty : search = []
  · rw [hempty, editedBytes_empty]
    exact ⟨rfl, rfl⟩
  unfold replaceText
  rw [if_neg (by decide), if_neg hempty]
  cases target with
  | outside => exact ⟨rfl, rfl⟩
  | missing => exact ⟨rfl, rfl⟩
  | notFile => exact ⟨rfl, rfl⟩
  | file bytes =>
    rw [editedBytes]
    dsimp only
    cases decodeStrict bytes with
    | none => exact ⟨rfl, rfl⟩
    | some raw =>
      rw [Option.bind_some]
      dsimp only
      by_cases hone : countOverlapping (universalNewlines raw) (toLf search) = 1
      · have hcount : ¬ countOverlapping (universalNewlines raw) (toLf search) ≠ 1 := not_not.mpr hone
        have hedit : search ≠ [] ∧ countOverlapping (universalNewlines raw) (toLf search) = 1 :=
          ⟨hempty, hone⟩
        rw [if_neg hcount, if_pos hedit]
        cases writtenBytes (detect raw)
            (substituteFirst (toLf search) (toLf replacement) (universalNewlines raw)) with
        | none => exact ⟨rfl, rfl⟩
        | some written => exact ⟨rfl, rfl⟩
      · have hedit : ¬ (search ≠ [] ∧ countOverlapping (universalNewlines raw) (toLf search) = 1) :=
          fun h => hone h.2
        rw [if_pos (show countOverlapping (universalNewlines raw) (toLf search) ≠ 1 from hone), if_neg hedit]
        exact ⟨rfl, rfl⟩

theorem patchFile_makes (filePath : Text) :
    Makes (patchFile wording filePath target search replacement) target
      (editedBytes target search replacement) := by
  by_cases hempty : search = []
  · rw [hempty, editedBytes_empty]
    exact ⟨rfl, rfl⟩
  unfold patchFile
  rw [if_neg hempty]
  cases target with
  | outside => exact ⟨rfl, rfl⟩
  | missing => exact ⟨rfl, rfl⟩
  | notFile => exact ⟨rfl, rfl⟩
  | file bytes =>
    rw [editedBytes]
    dsimp only
    cases decodeStrict bytes with
    | none => exact ⟨rfl, rfl⟩
    | some raw =>
      rw [Option.bind_some]
      dsimp only
      generalize countOverlapping (universalNewlines raw) (toLf search) = count
      match count with
      | 0 =>
        have hedit : ¬ (search ≠ [] ∧ 0 = 1) := fun h => Nat.zero_ne_one h.2
        rw [if_pos rfl, if_neg hedit]
        exact ⟨rfl, rfl⟩
      | 1 =>
        have hedit : search ≠ [] ∧ 1 = 1 := ⟨hempty, rfl⟩
        rw [if_neg Nat.one_ne_zero, if_neg (Nat.lt_irrefl 1), if_pos hedit]
        cases writtenBytes (detect raw)
            (substituteFirst (toLf search) (toLf replacement) (universalNewlines raw)) with
        | none => exact ⟨rfl, rfl⟩
        | some written => exact ⟨rfl, rfl⟩
      | more + 2 =>
        have hedit : ¬ (search ≠ [] ∧ more + 2 = 1) := fun h => absurd h.2 (by omega)
        rw [if_neg (by omega), if_pos (show 1 < more + 2 by omega), if_neg hedit]
        exact ⟨rfl, rfl⟩

/-! ### The bytes of an edit -/

variable {raw : Text}

theorem decodeStrict_encode (h : Text.isUtf8 raw = true) :
    decodeStrict (Utf8.encode raw) = some raw := by
  unfold decodeStrict
  rw [Utf8.decode_encode h]
  exact if_pos rfl

theorem editedBytes_eq_some (hraw : Text.isUtf8 raw = true) {bytes : List Byte} :
    editedBytes (.file (Utf8.encode raw)) search replacement = some bytes ↔
      (search ≠ [] ∧ occurrences (toLf search) (universalNewlines raw) = 1) ∧
        writtenBytes (detect raw) (substituteFirst (toLf search) (toLf replacement)
          (universalNewlines raw)) = some bytes := by
  rw [editedBytes, decodeStrict_encode hraw, Option.bind_some]
  by_cases hedit : search ≠ [] ∧ countOverlapping (universalNewlines raw) (toLf search) = 1
  · rw [if_pos hedit]
    exact ⟨fun h => ⟨hedit, h⟩, fun h => h.2⟩
  · rw [if_neg hedit]
    exact ⟨nofun, fun h => absurd h.1 hedit⟩

theorem editedBytes_isSome_iff (hraw : Text.isUtf8 raw = true) (hsearch : search ≠ []) :
    (editedBytes (.file (Utf8.encode raw)) search replacement).isSome = true
      ↔ occurrences (toLf search) (universalNewlines raw) = 1 ∧ Text.isUtf8 replacement = true := by
  have hcontent := isUtf8_universalNewlines hraw
  rw [Option.isSome_iff_exists]
  simp only [editedBytes_eq_some hraw, writtenBytes]
  constructor
  · rintro ⟨bytes, ⟨-, hone⟩, hwritten⟩
    obtain ⟨before, after, -, hreplaced⟩ := exists_split_of_occurrences_pos
      (Nat.lt_of_lt_of_eq Nat.zero_lt_one hone.symm) (toLf replacement)
    refine ⟨hone, ?_⟩
    split at hwritten
    · next hutf8 =>
      rw [hreplaced] at hutf8
      rw [← isUtf8_toLf]
      exact Text.isUtf8_of_subset (fun c hc => by simp [hc]) hutf8
    · cases hwritten
  · rintro ⟨hone, hreplacement⟩
    obtain ⟨before, after, hsplit, hreplaced⟩ := exists_split_of_occurrences_pos
      (Nat.lt_of_lt_of_eq Nat.zero_lt_one hone.symm) (toLf replacement)
    have hbefore : Text.isUtf8 before = true :=
      Text.isUtf8_of_subset (fun c hc => by simp [hsplit, hc]) hcontent
    have hafter : Text.isUtf8 after = true :=
      Text.isUtf8_of_subset (fun c hc => by simp [hsplit, hc]) hcontent
    rw [← isUtf8_toLf] at hreplacement
    rw [hreplaced, if_pos (Text.isUtf8_append (Text.isUtf8_append hbefore hreplacement) hafter)]
    exact ⟨_, ⟨hsearch, hone⟩, rfl⟩

theorem editedBytes_spec (hraw : Text.isUtf8 raw = true) (huniform : Uniform raw)
    {bytes : List Byte} (h : editedBytes (.file (Utf8.encode raw)) search replacement = some bytes) :
    ∃ before after, universalNewlines raw = before ++ toLf search ++ after ∧
      Utf8.encode raw = Utf8.encode ((detect raw).written before)
        ++ Utf8.encode ((detect raw).written (toLf search))
        ++ Utf8.encode ((detect raw).written after) ∧
      bytes = Utf8.encode ((detect raw).written before)
        ++ Utf8.encode ((detect raw).written (toLf replacement))
        ++ Utf8.encode ((detect raw).written after) := by
  obtain ⟨⟨-, hone⟩, hwritten⟩ := (editedBytes_eq_some hraw).mp h
  obtain ⟨before, after, hsplit, hreplaced⟩ := exists_split_of_occurrences_pos
    (Nat.lt_of_lt_of_eq Nat.zero_lt_one hone.symm) (toLf replacement)
  refine ⟨before, after, hsplit, ?_, ?_⟩
  · rw [← Utf8.encode_append, ← Utf8.encode_append, ← written_append, ← written_append, ← hsplit,
      (written_detect huniform).2]
  · rw [hreplaced, writtenBytes] at hwritten
    split at hwritten
    · obtain rfl := Option.some.inj hwritten
      rw [written_append, written_append, Utf8.encode_append, Utf8.encode_append]
    · cases hwritten

/-- **Exact edits.** The two tools make the same of every target, and leave it as it was when they refuse.
In a file whose lines all end alike they succeed just where the search text, its line endings read as the
file's are, has one occurrence and the replacement can be encoded, and they change the bytes of the match
only. -/
theorem edit_exact (wording : Wording) (resolved filePath : Text) :
    (∀ target search replacement,
      (replaceText wording true resolved target search replacement).1
          = (patchFile wording filePath target search replacement).1 ∧
        (replaceText wording true resolved target search replacement).2.isOk
          = (patchFile wording filePath target search replacement).2.isOk ∧
        ((patchFile wording filePath target search replacement).2.isOk = false →
          (patchFile wording filePath target search replacement).1 = target)) ∧
      ∀ raw search replacement, Text.isUtf8 raw = true → Uniform raw → search ≠ [] →
        ((patchFile wording filePath (.file (Utf8.encode raw)) search replacement).2.isOk = true
          ↔ occurrences (toLf search) (universalNewlines raw) = 1 ∧ Text.isUtf8 replacement = true) ∧
        ((patchFile wording filePath (.file (Utf8.encode raw)) search replacement).2.isOk = true →
          ∃ before after, universalNewlines raw = before ++ toLf search ++ after ∧
            Utf8.encode raw = Utf8.encode ((detect raw).written before)
              ++ Utf8.encode ((detect raw).written (toLf search))
              ++ Utf8.encode ((detect raw).written after) ∧
            (patchFile wording filePath (.file (Utf8.encode raw)) search replacement).1
              = .file (Utf8.encode ((detect raw).written before)
                ++ Utf8.encode ((detect raw).written (toLf replacement))
                ++ Utf8.encode ((detect raw).written after))) := by
  constructor
  · intro target search replacement
    have hreplace : Makes (replaceText wording true resolved target search replacement) target
      (editedBytes target search replacement) := replaceText_makes resolved
    have hpatch : Makes (patchFile wording filePath target search replacement) target
      (editedBytes target search replacement) := patchFile_makes filePath
    cases hedited : editedBytes target search replacement with
    | some bytes =>
      rw [hedited] at hreplace hpatch
      refine ⟨hreplace.1.trans hpatch.1.symm, hreplace.2.trans hpatch.2.symm, fun hrefused => ?_⟩
      rw [hpatch.2] at hrefused
      cases hrefused
    | none =>
      rw [hedited] at hreplace hpatch
      exact ⟨hreplace.1.trans hpatch.1.symm, hreplace.2.trans hpatch.2.symm, fun _ => hpatch.1⟩
  · intro raw search replacement hraw huniform hsearch
    have hpatch : Makes (patchFile wording filePath (.file (Utf8.encode raw)) search replacement)
      (.file (Utf8.encode raw)) (editedBytes (.file (Utf8.encode raw)) search replacement) :=
      patchFile_makes filePath
    have hiff : (editedBytes (.file (Utf8.encode raw)) search replacement).isSome = true ↔ _ :=
      editedBytes_isSome_iff hraw hsearch
    cases hedited : editedBytes (.file (Utf8.encode raw)) search replacement with
    | some bytes =>
      rw [hedited] at hpatch hiff
      refine ⟨by rw [hpatch.2]; simpa using hiff, fun _ => ?_⟩
      obtain ⟨before, after, hsplit, hold, hnew⟩ := editedBytes_spec hraw huniform hedited
      exact ⟨before, after, hsplit, hold, hnew ▸ hpatch.1⟩
    | none =>
      rw [hedited] at hpatch hiff
      refine ⟨by rw [hpatch.2]; simpa using hiff, fun hok => ?_⟩
      rw [hpatch.2] at hok
      cases hok

def plainWording : Wording where
  unifiedDiff before after _ _ := if before = after then [] else before ++ after
  decodeError _ := lit "no text"
  encodeError _ := lit "no bytes"

/-- A line of a file with two-character endings, in a call that spells them with one. -/
theorem edit_exact_crlf :
    (patchFile plainWording (lit "a.txt")
        (.file (Utf8.encode (lit "a" ++ [carriageReturn, newline] ++ lit "b"))) (lit "a" ++ [newline])
        (lit "c" ++ [newline])).2.isOk = true ∧
      (patchFile plainWording (lit "a.txt")
        (.file (Utf8.encode (lit "a" ++ [carriageReturn, newline] ++ lit "b"))) (lit "a" ++ [newline])
        (lit "c" ++ [newline])).1 = .file (Utf8.encode (lit "c" ++ [carriageReturn, newline] ++ lit "b")) :=
  ⟨((edit_exact plainWording (lit "/r/a.txt") (lit "a.txt")).2 (lit "a" ++ [carriageReturn, newline] ++ lit "b")
      (lit "a" ++ [newline]) (lit "c" ++ [newline]) (by decide)
      ⟨.crlf, lit "a" ++ [newline] ++ lit "b", by decide, by decide⟩ (by decide)).1.mpr
      ⟨by decide +kernel, by decide⟩, by decide +kernel⟩

end VidbyteSdk.Tools.Filesystem

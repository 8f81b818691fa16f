import VidbyteSdk.Lib.Checks
import VidbyteSdk.Lib.Dicts
import VidbyteSdk.Lib.TextLines

/-!
# Numbered lines

`LineEndings` splits a text at newlines only, for the diffs of an edit and for the lines that `read_lines` reports. A
line is named by its number in both, and both read the file through one backend.
-/

namespace VidbyteSdk.Tools.Filesystem

open VidbyteSdk.Lib
open Json (lit)

/-- `re.split(r"(?<=\n)", text)`: a cut behind each newline, also behind the last. -/
def splitAfterNewlines : Text → List Text
  | [] => [[]]
  | c :: rest => if c = newline then [c] :: splitAfterNewlines rest else consFirst c (splitAfterNewlines rest)

/-- `LineEndings.split_lines` -/
def splitLines (text : Text) : List Text := (splitAfterNewlines text).filter (· ≠ [])

/-- A line without its `"\n"` or `"\r\n"`. -/
def dropEnding (line : Text) : Text :=
  if line.getLast? = some newline then
    if line.dropLast.getLast? = some carriageReturn then line.dropLast.dropLast else line.dropLast
  else line

/-- `LineEndings.split_bare_lines` -/
def splitBareLines (text : Text) : List Text := (splitLines text).map dropEnding

/-- `LineEndings.unified_diff`; `difflib` is Python's `difflib.unified_diff`. -/
def unifiedDiff (difflib : List Text → List Text → List Text) (before after : Text) : Text :=
  ((difflib (splitLines before) (splitLines after)).map fun line =>
    if line.getLast? = some newline then line else line ++ lit "\n\\ No newline at end of file\n").flatten

/-- A call of `read_lines`, its numbers made integers. -/
structure ReadLinesCall where
  path : Text
  start : Option ℤ
  stop : Option ℤ

structure ReadLinesResult where
  content : Text
  path : Text
  start : ℤ
  stop : Option ℤ

section

variable (readText : Text → Except Text Text)

/-- `ReadLinesTool.execute`; `readText` scopes the path, requires the file and reads it through the backend. -/
def readLines (call : ReadLinesCall) : Except Text ReadLinesResult :=
  let start := call.start.getD 1
  if start < 1 then .error (lit "ReadLinesTool start must be at least 1.")
  else if call.stop.any (· < start) then
    .error (lit "ReadLinesTool end must be greater than or equal to start.")
  else (readText call.path).map fun text =>
    let lines := splitBareLines text
    let upto := call.stop.elim lines fun stop => lines.take stop.toNat
    { content := joinLines (upto.drop (start - 1).toNat), path := call.path, start := start, stop := call.stop }

/-- `diff_text` of an existing file. -/
def diffText (difflib : List Text → List Text → List Text) (path right : Text) : Except Text Text :=
  (readText path).map fun current => unifiedDiff difflib current right

end

/-! ### Pieces -/

theorem flatten_splitAfterNewlines (text : Text) : (splitAfterNewlines text).flatten = text := by
  induction text with
  | nil => rfl
  | cons c rest ih =>
    rw [splitAfterNewlines]
    split
    · rw [List.flatten_cons, ih, List.singleton_append]
    · cases hrest : splitAfterNewlines rest with
      | nil => rw [← ih, hrest, consFirst, List.flatten_nil, List.flatten_singleton]
      | cons first later => rw [← ih, hrest, consFirst, List.flatten_cons, List.flatten_cons, List.cons_append]

theorem flatten_splitLines (text : Text) : (splitLines text).flatten = text := by
  have hpieces := flatten_splitAfterNewlines text
  rw [splitLines]
  generalize splitAfterNewlines text = pieces at hpieces ⊢
  rw [← hpieces, List.flatten_filter_ne_nil]

theorem splitAfterNewlines_form (text : Text) : ∃ lines rest, splitAfterNewlines text = lines ++ [rest] ∧
    newline ∉ rest ∧ ∀ line ∈ lines, ∃ body, line = body ++ [newline] ∧ newline ∉ body := by
  induction text with
  | nil => exact ⟨[], [], rfl, List.not_mem_nil, nofun⟩
  | cons c text ih =>
    obtain ⟨lines, rest, htext, hrest, hlines⟩ := ih
    rw [splitAfterNewlines, htext]
    split
    · next hc =>
      refine ⟨[c] :: lines, rest, rfl, hrest, List.forall_mem_cons.mpr ⟨⟨[], ?_, List.not_mem_nil⟩, hlines⟩⟩
      rw [hc, List.nil_append]
    · next hc =>
      cases lines with
      | nil => exact ⟨[], c :: rest, rfl, List.not_mem_cons_of_ne_of_not_mem (Ne.symm hc) hrest, nofun⟩
      | cons first lines =>
        obtain ⟨⟨body, rfl, hbody⟩, hlater⟩ := List.forall_mem_cons.mp hlines
        refine ⟨(c :: (body ++ [newline])) :: lines, rest, rfl, hrest, List.forall_mem_cons.mpr ⟨?_, hlater⟩⟩
        exact ⟨c :: body, rfl, List.not_mem_cons_of_ne_of_not_mem (Ne.symm hc) hbody⟩

theorem splitLines_form (text : Text) : ∃ lines last, splitLines text = lines ++ last ∧
    (last = [] ∨ ∃ rest, last = [rest] ∧ rest ≠ [] ∧ newline ∉ rest) ∧
      ∀ line ∈ lines, ∃ body, line = body ++ [newline] ∧ newline ∉ body := by
  obtain ⟨lines, rest, htext, hrest, hlines⟩ := splitAfterNewlines_form text
  have hkept : lines.filter (· ≠ []) = lines := by
    refine List.filter_eq_self.mpr fun line hline => decide_eq_true ?_
    obtain ⟨body, rfl, -⟩ := hlines line hline
    exact List.append_ne_nil_of_right_ne_nil _ (List.cons_ne_nil _ _)
  refine ⟨lines, [rest].filter (· ≠ []), by rw [splitLines, htext, List.filter_append, hkept], ?_, hlines⟩
  by_cases h : rest = []
  · exact .inl (List.filter_cons_of_neg (by simp [h]))
  · exact .inr ⟨rest, List.filter_cons_of_pos (by simp [h]), h, hrest⟩

/-- A line and what it is without its ending. -/
def Bare (line bare : Text) : Prop :=
  newline ∉ bare ∧ (line = bare ++ [carriageReturn, newline] ∨
    bare.getLast? ≠ some carriageReturn ∧ line = bare ++ [newline] ∨ line = bare)

theorem bare_dropEnding {line : Text} (h : newline ∉ line.dropLast) : Bare line (dropEnding line) := by
  rcases List.eq_nil_or_concat line with rfl | ⟨body, c, rfl⟩
  · exact ⟨List.not_mem_nil, .inr (.inr rfl)⟩
  · rw [List.concat_eq_append, List.dropLast_concat] at h
    rw [List.concat_eq_append, dropEnding, List.getLast?_concat, List.dropLast_concat]
    by_cases hc : c = newline
    · rw [if_pos (congrArg some hc), hc]
      rcases List.eq_nil_or_concat body with rfl | ⟨body, d, rfl⟩
      · exact ⟨List.not_mem_nil, .inr (.inl ⟨nofun, rfl⟩)⟩
      · rw [List.concat_eq_append] at h
        rw [List.concat_eq_append, List.getLast?_concat, List.dropLast_concat]
        by_cases hd : d = carriageReturn
        · rw [if_pos (congrArg some hd), hd, List.append_assoc]
          exact ⟨fun hmem => h (List.mem_append_left _ hmem), .inl rfl⟩
        · rw [if_neg fun heq => hd (Option.some.inj heq)]
          refine ⟨h, .inr (.inl ⟨?_, rfl⟩)⟩
          rw [List.getLast?_concat]
          exact fun heq => hd (Option.some.inj heq)
    · rw [if_neg fun heq => hc (Option.some.inj heq)]
      refine ⟨fun hmem => ?_, .inr (.inr rfl)⟩
      rcases List.mem_append.mp hmem with hmem | hmem
      · exact h hmem
      · exact hc (List.mem_singleton.mp hmem).symm

theorem dropLast_piece {text piece : Text} (h : piece ∈ splitLines text) : piece ≠ [] ∧ newline ∉ piece.dropLast := by
  obtain ⟨lines, last, htext, hlast, hlines⟩ := splitLines_form text
  refine ⟨of_decide_eq_true (List.mem_filter.mp h).2, ?_⟩
  rw [htext] at h
  rcases List.mem_append.mp h with h | h
  · obtain ⟨body, rfl, hbody⟩ := hlines piece h
    rwa [List.dropLast_concat]
  · rcases hlast with rfl | ⟨rest, rfl, -, hrest⟩
    · cases h
    · rw [List.mem_singleton.mp h]
      exact fun hmem => hrest (List.dropLast_subset rest hmem)

theorem getLast?_of_mem_dropLast {text piece : Text} (h : piece ∈ (splitLines text).dropLast) :
    piece.getLast? = some newline := by
  obtain ⟨lines, last, htext, hlast, hlines⟩ := splitLines_form text
  have hmem : piece ∈ lines := by
    rw [htext] at h
    rcases hlast with rfl | ⟨rest, rfl, -, -⟩
    · rw [List.append_nil] at h
      exact List.dropLast_subset lines h
    · rwa [List.dropLast_concat] at h
  obtain ⟨body, rfl, -⟩ := hlines piece hmem
  exact List.getLast?_concat

/-! ### Numbers -/

theorem getElem?_window (lines : List Text) {start : ℤ} (hstart : 1 ≤ start) (stop : Option ℤ) (i : ℕ) :
    ((stop.elim lines fun stop => lines.take stop.toNat).drop (start - 1).toNat)[i]? =
      if ∀ last ∈ stop, start + i ≤ last then lines[start.toNat - 1 + i]? else none := by
  rw [List.getElem?_drop, show (start - 1).toNat = start.toNat - 1 by omega]
  cases stop with
  | none => rw [if_pos nofun, Option.elim_none]
  | some last =>
    simp only [Option.elim_some, List.getElem?_take, Option.mem_some_iff, forall_eq']
    by_cases h : start + i ≤ last
    · rw [if_pos h, if_pos (by omega)]
    · rw [if_neg h, if_neg (by omega)]

/-- A number names one line, in a read of any lines as in a diff of the file. -/
theorem one_line_numbering (readText : Text → Except Text Text) (difflib : List Text → List Text → List Text)
    (text : Text) :
    (splitLines text).flatten = text ∧
    (∀ piece ∈ splitLines text, piece ≠ [] ∧ newline ∉ piece.dropLast) ∧
    (∀ piece ∈ (splitLines text).dropLast, piece.getLast? = some newline) ∧
    List.Forall₂ Bare (splitLines text) (splitBareLines text) ∧
    ∀ call, readText call.path = .ok text →
      (∀ right, diffText readText difflib call.path right = .ok (unifiedDiff difflib text right)) ∧
      if 1 ≤ call.start.getD 1 ∧ ∀ last ∈ call.stop, call.start.getD 1 ≤ last then
        ∃ result shown, readLines readText call = .ok result ∧ result.content = joinLines shown ∧
          ∀ i : ℕ, shown[i]? = if ∀ last ∈ call.stop, call.start.getD 1 + i ≤ last then
            (splitBareLines text)[(call.start.getD 1).toNat - 1 + i]? else none
      else ∃ error, readLines readText call = .error error := by
  refine ⟨flatten_splitLines text, fun piece => dropLast_piece, fun piece => getLast?_of_mem_dropLast, ?_,
    fun call hread => ⟨fun right => ?_, ?_⟩⟩
  · rw [splitBareLines, List.forall₂_map_right_iff]
    exact List.forall₂_same.mpr fun piece hpiece => bare_dropEnding (dropLast_piece hpiece).2
  · rw [diffText, hread]
    rfl
  · unfold readLines
    split
    · next h =>
      obtain ⟨hstart, hstop⟩ := h
      have hends : ¬ call.stop.any (· < call.start.getD 1) = true := by
        rw [Option.any_eq_true]
        rintro ⟨last, hlast, hlt⟩
        exact Int.not_lt.mpr (hstop last hlast) (of_decide_eq_true hlt)
      simp only [if_neg (Int.not_lt.mpr hstart), if_neg hends, hread]
      refine ⟨_, _, rfl, ?_, getElem?_window (splitBareLines text) hstart call.stop⟩
      rfl
    · next h =>
      by_cases hstart : call.start.getD 1 < 1
      · exact ⟨_, if_pos hstart⟩
      · have hends : call.stop.any (· < call.start.getD 1) = true := by
          by_contra hends
          refine h ⟨Int.not_lt.mp hstart, fun last hlast => Int.not_lt.mp fun hlt => hends ?_⟩
          exact (Option.any_eq_true _ _).mpr ⟨last, hlast, decide_eq_true hlt⟩
        simp only [if_neg hstart, if_pos hends]
        exact ⟨_, rfl⟩

end VidbyteSdk.Tools.Filesystem

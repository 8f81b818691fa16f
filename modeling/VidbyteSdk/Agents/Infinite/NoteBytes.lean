import VidbyteSdk.Agents.Infinite.FolderRuns
import VidbyteSdk.Lib.Dicts
import VidbyteSdk.Lib.LineEndings
import VidbyteSdk.Lib.Utf8Search

/-!
# The bytes of a note

`write_note` and `edit_file` read a note with its line endings translated and its undecodable bytes
replaced, and write it as it stands then. So they keep the bytes they do not mean to change just where
reading gives the note back as it was written: where it is a text that holds no carriage return.
-/

namespace VidbyteSdk.Agents.Infinite

open VidbyteSdk.Lib
open VidbyteSdk.Lib.Json (lit)

def ReadsBack (bytes : List Byte) : Prop :=
  ∃ text, Text.isUtf8 text = true ∧ carriageReturn ∉ text ∧ bytes = Utf8.encode text

theorem encode_read_eq_iff {bytes : List Byte} :
    Utf8.encode (universalNewlines (Utf8.decode bytes)) = bytes ↔ ReadsBack bytes := by
  constructor
  · intro h
    exact ⟨_, isUtf8_universalNewlines (Utf8.isUtf8_decode bytes), return_notMem_universalNewlines _,
      h.symm⟩
  · rintro ⟨text, hutf8, hreturn, rfl⟩
    rw [Utf8.decode_encode hutf8, universalNewlines_of_notMem hreturn]

/-! ### Replacing the one match -/

theorem countOverlapping_eq (search t : Text) : countOverlapping search t = occurrences search t := by
  induction t with
  | nil => rfl
  | cons c t ih => rw [countOverlapping, occurrences, ih]

theorem replaceFirst_eq (old new t : Text) : replaceFirst old new t = substituteFirst old new t := by
  induction t with
  | nil => rfl
  | cons c t ih => rw [replaceFirst, substituteFirst, ih]

section

variable {before after old new : Text} {bytes p q : List Byte}

/-- A match whose replacement leaves the other bytes as they were did not stand inside a character: what is
read there has more replacement characters than what was written. -/
theorem exists_texts_of_kept (hne : old ≠ []) (hbytes : bytes = p ++ Utf8.encode old ++ q)
    (hread : universalNewlines (Utf8.decode bytes) = before ++ old ++ after)
    (hnew : Text.isUtf8 (before ++ new ++ after) = true) (hold : Text.isUtf8 old = true)
    (hkept : Utf8.encode (before ++ new ++ after) = p ++ Utf8.encode new ++ q) :
    ∃ s r, before ++ new ++ after = s ++ new ++ r ∧ p = Utf8.encode s ∧ q = Utf8.encode r := by
  by_cases hempty : new = []
  · subst hempty
    rw [List.append_nil] at hnew ⊢
    rw [Utf8.encode_nil, List.append_nil, List.append_nil] at hkept
    rcases Utf8.append_eq_encode hkept.symm with ⟨s, r, hcut, hp, hq⟩ |
      ⟨s, c, r, a, b, hcut, hchar, ha, hb, hp, hq⟩
    · exact ⟨s, r, by rw [hcut, List.append_nil], hp, hq⟩
    · rw [hcut] at hnew
      have hs := Text.isUtf8_of_subset (List.subset_append_left s (c :: r)) hnew
      have hr := Text.isUtf8_of_subset
        (List.Subset.trans (List.subset_cons_self c r) (List.subset_append_right s _)) hnew
      have hc := Text.isUtf8_iff.mp hnew c (by simp)
      have hbroken := Utf8.decode_broken hc hchar ha hb hne hs hold hr
      rw [← hp, ← hq, ← hbytes] at hbroken
      have hcount := count_universalNewlines (show Utf8.replacement ≠ carriageReturn by decide)
        (show Utf8.replacement ≠ newline by decide) (Utf8.decode bytes)
      have hwritten := congrArg (List.count Utf8.replacement) hcut
      have hpos := List.length_pos_of_ne_nil hb
      have hone : List.count Utf8.replacement [c] ≤ 1 := List.count_le_length
      rw [hread, hbroken] at hcount
      simp only [List.count_append, List.count_cons_self, List.count_replicate_self]
        at hcount hwritten
      rw [← List.singleton_append, List.count_append] at hwritten
      omega
  · exact Utf8.cut_around hempty
      (Text.isUtf8_of_subset (fun c hc => by simp [hc]) hnew) hnew hkept.symm

/-- The match of a note that holds a carriage return cannot be replaced and the rest be kept. -/
theorem readsBack_of_kept (hne : old ≠ []) (hbytes : bytes = p ++ Utf8.encode old ++ q)
    (hread : universalNewlines (Utf8.decode bytes) = before ++ old ++ after)
    (hone : occurrences old (before ++ old ++ after) = 1)
    (hnew : Text.isUtf8 (before ++ new ++ after) = true)
    (hkept : Utf8.encode (before ++ new ++ after) = p ++ Utf8.encode new ++ q) : ReadsBack bytes := by
  have hcontent := isUtf8_universalNewlines (Utf8.isUtf8_decode bytes)
  have hnoReturn := return_notMem_universalNewlines (Utf8.decode bytes)
  rw [hread] at hcontent hnoReturn
  have hold : Text.isUtf8 old = true := Text.isUtf8_of_subset (fun c hc => by simp [hc]) hcontent
  obtain ⟨s, r, hsame, rfl, rfl⟩ := exists_texts_of_kept hne hbytes hread hnew hold hkept
  rw [← Utf8.encode_append, ← Utf8.encode_append] at hbytes
  have hs : Text.isUtf8 s = true :=
    Text.isUtf8_of_subset (t := s ++ new ++ r) (fun c hc => by simp [hc]) (hsame ▸ hnew)
  have hr : Text.isUtf8 r = true :=
    Text.isUtf8_of_subset (t := s ++ new ++ r) (fun c hc => by simp [hc]) (hsame ▸ hnew)
  have htext := Text.isUtf8_append (Text.isUtf8_append hs hold) hr
  rw [hbytes, Utf8.decode_encode htext] at hread
  -- no line ending of two characters was read, so each character was read as one
  have hlength : (universalNewlines (s ++ old ++ r)).length = (s ++ old ++ r).length := by
    have hlen := congrArg List.length hsame
    rw [hread]
    simp only [List.length_append] at hlen ⊢
    omega
  have hmap := universalNewlines_eq_map hlength
  have holdMap : old.map (fun c => if c = carriageReturn then newline else c) = old := by
    rw [List.map_congr_left (g := fun c => c), List.map_id']
    intro c hc
    rw [if_neg]
    rintro rfl
    exact hnoReturn (by simp [hc])
  rw [hread, List.map_append, List.map_append, holdMap] at hmap
  obtain ⟨hbefore, hafter⟩ := split_unique hne hmap (Nat.le_of_eq hone)
  obtain ⟨hleft, hright⟩ := List.append_inj hsame (by simp [hbefore])
  obtain ⟨hbeforeEq, -⟩ := List.append_inj hleft (by simp [hbefore])
  refine ⟨s ++ old ++ r, htext, ?_, hbytes⟩
  rw [← hbeforeEq, ← hright]
  exact hnoReturn

end

/-- **Editing bytes.** The note that an edit writes has the bytes of the old one, their one match of the old
text replaced, just where the old one was read back as it was written. -/
theorem kept_iff_readsBack {old new : Text} {bytes : List Byte}
    (hone : matchCount (universalNewlines (Utf8.decode bytes)) old = 1)
    (hnew : Text.isUtf8 (replaceFirst old new (universalNewlines (Utf8.decode bytes))) = true) :
    (occurrences (Utf8.encode old) bytes = 1 ∧
        Utf8.encode (replaceFirst old new (universalNewlines (Utf8.decode bytes)))
          = substituteFirst (Utf8.encode old) (Utf8.encode new) bytes)
      ↔ ReadsBack bytes := by
  have hne : old ≠ [] := by
    rintro rfl
    cases hone
  rw [matchCount, if_neg hne, countOverlapping_eq] at hone
  rw [replaceFirst_eq] at hnew ⊢
  obtain ⟨before, after, hread, hreplaced⟩ :=
    exists_split_of_occurrences_pos (Nat.lt_of_lt_of_eq Nat.zero_lt_one hone.symm) new
  constructor
  · rintro ⟨hmatch, hkept⟩
    obtain ⟨p, q, hbytes, hsubstituted⟩ := exists_split_of_occurrences_pos
      (Nat.lt_of_lt_of_eq Nat.zero_lt_one hmatch.symm) (Utf8.encode new)
    rw [hread] at hone
    rw [hreplaced] at hnew hkept
    exact readsBack_of_kept hne hbytes hread hone hnew (hkept.trans hsubstituted)
  · rintro ⟨text, hutf8, hreturn, rfl⟩
    rw [Utf8.decode_encode hutf8, universalNewlines_of_notMem hreturn] at hone hread ⊢
    have hold : Text.isUtf8 old = true :=
      Text.isUtf8_of_subset (fun c hc => by simp [hread, hc]) hutf8
    exact ⟨(Utf8.occurrences_encode hne hold hutf8).trans hone,
      (Utf8.substituteFirst_encode hne hold hutf8 new).symm⟩

/-! ### What the operations write -/

section

variable {casefold : Text → Text} {settings : NoteSettings} {root : List Text} {folder : Folder}
variable {relative : FolderPath}

def Folder.bytesOf (folder : Folder) (path : FolderPath) : List Byte := (folder.bytes? path).getD []

theorem noteText_eq (text : Text) :
    noteText folder relative (!folder.pathExists relative) text = folder.readText relative ++ text := by
  unfold noteText
  split
  · next hnew =>
    rw [Bool.not_eq_true', Folder.pathExists, Bool.or_eq_false_iff, Option.isSome_eq_false_iff,
      Option.isNone_iff_eq_none] at hnew
    rw [Folder.readText, Folder.rawText, Folder.bytes?, hnew.2]
    rfl
  · rfl

theorem Folder.bytesOf_writeAll {path : FolderPath} {writes : List (FolderPath × Text)}
    (h : path ∉ writes.map Prod.fst) : (folder.writeAll writes).1.bytesOf path = folder.bytesOf path := by
  induction writes generalizing folder with
  | nil => rfl
  | cons write writes ih =>
    obtain ⟨q, content⟩ := write
    rw [List.map_cons, List.mem_cons, not_or] at h
    cases hwrite : folder.writeText q content with
    | none => rw [writeAll_cons_of_none hwrite]
    | some folder₁ =>
      rw [writeAll_cons_of_some hwrite, ih h.2, bytesOf, (writeText_spec hwrite).2.1, if_neg (Ne.symm h.1),
        bytesOf]

variable {folder' : Folder}

/-- What an accepted `write_note` writes. -/
theorem writeNote_eq_ok {call : NoteCall} {created : Bool}
    (h : writeNote casefold settings root folder call = (folder', .ok (created, relative))) :
    folder.writeAll (noteWrites folder relative (!folder.pathExists relative)
      (folder.readText relative ++ call.text) call) = (folder', true) := by
  unfold writeNote at h
  split at h
  · cases h
  next _ relative' changed hplan =>
  obtain ⟨rfl, -, -, note, hnote, hchanged⟩ := notePlan_spec hplan
  rw [noteText_eq] at hnote
  split at h
  · next written hall =>
    simp only [Prod.mk.injEq, Except.ok.injEq] at h
    obtain ⟨rfl, -, rfl⟩ := h
    rw [← hnote, ← hchanged, hall]
  · cases h

/-- The note that an accepted `write_note` leaves. -/
theorem writeNote_bytes (hready : folder.IsReady) {call : NoteCall} {created : Bool}
    (h : writeNote casefold settings root folder call = (folder', .ok (created, relative))) :
    Text.isUtf8 (folder.readText relative ++ call.text) = true ∧
      folder'.bytesOf relative = Utf8.encode (folder.readText relative ++ call.text) := by
  have hall := writeNote_eq_ok h
  unfold noteWrites at hall
  cases hwrite : folder.writeText relative (folder.readText relative ++ call.text) with
  | none =>
    split at hall
    · rw [Folder.writeAll_cons_of_none hwrite] at hall
      cases hall
    · rw [Folder.writeAll_cons_of_none hwrite] at hall
      cases hall
  | some folder₁ =>
    obtain ⟨hutf8, hbytes, -⟩ := Folder.writeText_spec hwrite
    have hfirst : folder₁.bytesOf relative = Utf8.encode (folder.readText relative ++ call.text) := by
      rw [Folder.bytesOf, hbytes, if_pos rfl]
      rfl
    refine ⟨hutf8, ?_⟩
    split at hall
    · next hnew =>
      -- the record of a new note is written to a file that is there already
      have hne : relative ≠ [infiniteFilesFile] := by
        rintro rfl
        rw [pathExists_of_isFile hready.files] at hnew
        cases hnew
      rw [Folder.writeAll_cons_of_some hwrite] at hall
      have hlater : (folder₁.writeAll [([infiniteFilesFile], folder.readText [infiniteFilesFile]
          ++ fileRecord relative (call.description.getD []) call.author call.run call.stamp
          ++ [newline])]).1.bytesOf relative = folder₁.bytesOf relative :=
        Folder.bytesOf_writeAll (by simpa using hne)
      rw [hall, hfirst] at hlater
      exact hlater
    · rw [Folder.writeAll_cons_of_some hwrite, Folder.writeAll_nil, Prod.mk.injEq] at hall
      rw [← hall.1, hfirst]

/-- What an accepted `edit_file` writes. -/
theorem editFile_eq_ok {path oldText newText : Text}
    (h : editFile casefold settings root folder path oldText newText = (folder', .ok relative)) :
    matchCount (folder.readText relative) oldText = 1 ∧
      folder.writeText relative (replaceFirst oldText newText (folder.readText relative)) = some folder' := by
  unfold editFile at h
  split at h
  · cases h
  split at h
  · cases h
  simp only at h
  split at h
  · cases h
  next hone =>
  split at h
  · cases h
  split at h
  · cases h
  split at h
  · next written hwrite =>
    rw [Prod.mk.injEq, Except.ok.injEq] at h
    obtain ⟨rfl, rfl⟩ := h
    exact ⟨Decidable.not_not.mp hone, hwrite⟩
  · cases h

end

/-! ### Runs -/

/-- **What a note keeps.** After any run, a note that `write_note` appends to has its old bytes and then
those of the text, and a note that `edit_file` changes has its old bytes with the one match of the old text
replaced, just where the old bytes are those of a text without a carriage return. -/
theorem note_kept_iff (casefold : Text → Text) (settings : NoteSettings) (root : List Text)
    (start : InfiniteWorkspace) (ops : List FolderOp) :
    (∀ call created relative,
      (writeNote casefold settings root (start.after casefold settings root ops).folder call).2
          = .ok (created, relative) →
        ((start.after casefold settings root (ops ++ [.writeNote call])).folder.bytesOf relative
            = (start.after casefold settings root ops).folder.bytesOf relative ++ Utf8.encode call.text
          ↔ ReadsBack ((start.after casefold settings root ops).folder.bytesOf relative))) ∧
      ∀ path oldText newText relative,
        (editFile casefold settings root (start.after casefold settings root ops).folder path oldText
            newText).2 = .ok relative →
          ((occurrences (Utf8.encode oldText)
                ((start.after casefold settings root ops).folder.bytesOf relative) = 1 ∧
              (start.after casefold settings root
                  (ops ++ [.editFile path oldText newText])).folder.bytesOf relative
                = substituteFirst (Utf8.encode oldText) (Utf8.encode newText)
                  ((start.after casefold settings root ops).folder.bytesOf relative))
            ↔ ReadsBack ((start.after casefold settings root ops).folder.bytesOf relative)) := by
  have hready := (start.after casefold settings root ops).ready
  simp only [InfiniteWorkspace.after, List.foldl_append, List.foldl_cons, List.foldl_nil] at hready ⊢
  generalize ops.foldl (InfiniteWorkspace.apply casefold settings root) start = workspace at hready ⊢
  constructor
  · intro call created relative haccepted
    obtain ⟨-, hbytes⟩ := writeNote_bytes hready (Prod.ext rfl haccepted)
    have happlied : (workspace.apply casefold settings root (.writeNote call)).folder
        = (writeNote casefold settings root workspace.folder call).1 := rfl
    rw [happlied, hbytes, Utf8.encode_append, List.append_cancel_right_eq]
    exact encode_read_eq_iff
  · intro path oldText newText relative haccepted
    obtain ⟨hone, hwrite⟩ := editFile_eq_ok (Prod.ext rfl haccepted)
    obtain ⟨hutf8, hbytes, -⟩ := Folder.writeText_spec hwrite
    have happlied : (workspace.apply casefold settings root (.editFile path oldText newText)).folder
        = (editFile casefold settings root workspace.folder path oldText newText).1 := rfl
    have hnote : (editFile casefold settings root workspace.folder path oldText newText).1.bytesOf relative
        = Utf8.encode (replaceFirst oldText newText (workspace.folder.readText relative)) := by
      rw [Folder.bytesOf, hbytes, if_pos rfl]
      rfl
    rw [happlied, hnote]
    exact kept_iff_readsBack hone hutf8

def lineNote (ending : Text) : FolderOp :=
  .writeNote ⟨lit "a.md", lit "hi" ++ ending, some (lit "a"), lit "g", lit "r", lit "t", true⟩

def moreOf (text : Text) : NoteCall := ⟨lit "a.md", text, none, lit "g", lit "r", lit "t", false⟩

theorem note_kept_iff_newline :
    (InfiniteWorkspace.created.after id fourFiles [] [lineNote [newline], .writeNote (moreOf (lit "ho"))]
      ).folder.bytesOf [lit "a.md"] = Utf8.encode (lit "hi" ++ [newline] ++ lit "ho") :=
  ((note_kept_iff id fourFiles [] InfiniteWorkspace.created [lineNote [newline]]).1 (moreOf (lit "ho")) false
    [lit "a.md"] (by decide +kernel)).mpr
    ⟨lit "hi" ++ [newline], by decide +kernel, by decide, by decide +kernel⟩

def returnNote : InfiniteWorkspace :=
  InfiniteWorkspace.created.after id fourFiles [] [lineNote [carriageReturn, newline]]

/-- A note whose line ends in two characters keeps one of them when it is appended to or edited. -/
theorem note_not_kept :
    (writeNote id fourFiles [] returnNote.folder (moreOf (lit "ho"))).2 = .ok (false, [lit "a.md"]) ∧
      (returnNote.after id fourFiles [] [.writeNote (moreOf (lit "ho"))]).folder.bytesOf [lit "a.md"]
        ≠ returnNote.folder.bytesOf [lit "a.md"] ++ Utf8.encode (lit "ho") ∧
      (editFile id fourFiles [] returnNote.folder (lit "a.md") (lit "i") (lit "o")).2 = .ok [lit "a.md"] ∧
      (returnNote.after id fourFiles [] [.editFile (lit "a.md") (lit "i") (lit "o")]).folder.bytesOf
          [lit "a.md"]
        ≠ substituteFirst (Utf8.encode (lit "i")) (Utf8.encode (lit "o"))
          (returnNote.folder.bytesOf [lit "a.md"]) :=
  ⟨by decide +kernel, by decide +kernel, by decide +kernel, by decide +kernel⟩

end VidbyteSdk.Agents.Infinite

import Mathlib.Algebra.Order.BigOperators.Group.List
import Mathlib.Algebra.Order.Ring.Nat
import VidbyteSdk.Agents.Infinite.Folder
import VidbyteSdk.Agents.Infinite.WorkspaceRuns

/-!
# Runs of workspace operations

A sum over the files of a folder changes with a write by what the written file adds and what the old
file under its path added. The totals that an operation checks are such sums, so they bound what is
measured after its writes.
-/

namespace VidbyteSdk.Agents.Infinite

open VidbyteSdk.Lib

namespace Folder

variable {folder folder' : Folder} {path : FolderPath}

/-! ### What a write changes -/

theorem node?_put (node : FolderNode) (p : FolderPath) :
    (folder.put path node).node? p = if path = p then some node else folder.node? p := by
  rw [node?, put, find?_upsert]
  split
  · rfl
  · rfl

theorem bytes?_put_dir (h : folder.node? path = none) (p : FolderPath) :
    (folder.put path .dir).bytes? p = folder.bytes? p := by
  rw [bytes?, node?_put]
  by_cases hp : path = p
  · rw [if_pos hp, bytes?, ← hp, h]
  · rw [if_neg hp, bytes?]

theorem bytes?_put_file (bytes : List Byte) (p : FolderPath) :
    (folder.put path (.file bytes)).bytes? p
      = if path = p then some bytes else folder.bytes? p := by
  rw [bytes?, node?_put]
  by_cases hp : path = p
  · rw [if_pos hp, if_pos hp]
  · rw [if_neg hp, if_neg hp, bytes?]

theorem bytes?_makeDir (p : FolderPath) : (folder.makeDir path).bytes? p = folder.bytes? p := by
  unfold makeDir
  split
  · rfl
  · next h =>
    rw [Bool.not_eq_true, Option.isSome_eq_false_iff, Option.isNone_iff_eq_none] at h
    exact bytes?_put_dir h p

theorem bytes?_makeDirs (paths : List FolderPath) (p : FolderPath) :
    (paths.foldl makeDir folder).bytes? p = folder.bytes? p := by
  induction paths generalizing folder with
  | nil => rfl
  | cons q paths ih => rw [List.foldl_cons, ih, bytes?_makeDir]

def rowWeight (w : FolderPath → List Byte → ℕ) : FolderPath × FolderNode → ℕ
  | (path, .file bytes) => w path bytes
  | (_, .dir) => 0

def total (w : FolderPath → List Byte → ℕ) (folder : Folder) : ℕ :=
  (folder.nodes.map (rowWeight w)).sum

def share (w : FolderPath → List Byte → ℕ) (folder : Folder) (path : FolderPath) : ℕ :=
  ((folder.bytes? path).map (w path)).getD 0

variable (w : FolderPath → List Byte → ℕ)

theorem share_eq : ((folder.nodes.find? fun row => row.1 = path).map (rowWeight w)).getD 0
    = share w folder path := by
  rw [share, bytes?, node?]
  cases hfind : folder.nodes.find? fun row => row.1 = path with
  | none => rfl
  | some row =>
    obtain ⟨p, node⟩ := row
    have hp : p = path := by simpa using List.find?_some hfind
    subst hp
    cases node <;> rfl

theorem total_put_file (bytes : List Byte) :
    total w (folder.put path (.file bytes)) + share w folder path = total w folder + w path bytes := by
  rw [← share_eq]
  exact sum_map_upsert (rowWeight w) folder.nodup

theorem total_makeDir : total w (folder.makeDir path) = total w folder := by
  unfold makeDir
  split
  · rfl
  · next h =>
    rw [Bool.not_eq_true, Option.isSome_eq_false_iff, Option.isNone_iff_eq_none] at h
    have hsum := sum_map_upsert (a := (path, FolderNode.dir)) (rowWeight w) folder.nodup
    have hnone : folder.nodes.find? (fun row => row.1 = path) = none := by
      rw [node?, Option.map_eq_none_iff] at h
      exact h
    rw [hnone] at hsum
    exact hsum

theorem total_makeDirs (paths : List FolderPath) :
    total w (paths.foldl makeDir folder) = total w folder := by
  induction paths generalizing folder with
  | nil => rfl
  | cons q paths ih => rw [List.foldl_cons, ih, total_makeDir]

variable {content : Text}

theorem writeText_spec (h : folder.writeText path content = some folder') :
    Text.isUtf8 content = true ∧
      (∀ p, folder'.bytes? p = if path = p then some (Utf8.encode content) else folder.bytes? p) ∧
      ∀ w, total w folder' + share w folder path = total w folder + w path (Utf8.encode content) := by
  unfold writeText at h
  split at h
  · cases h
  · next hcan =>
    obtain rfl := Option.some.inj h
    simp only [Bool.or_eq_true, Bool.not_eq_true', not_or, Bool.not_eq_false] at hcan
    refine ⟨hcan.1.1, fun p => ?_, fun w => ?_⟩
    · rw [bytes?_put_file, bytes?_makeDirs]
    · have hshare : share w ((parents path).foldl makeDir folder) path = share w folder path := by
        rw [share, share, bytes?_makeDirs]
      rw [← hshare, total_put_file, total_makeDirs]

theorem writeAll_nil : folder.writeAll [] = (folder, true) := rfl

variable {rest : List (FolderPath × Text)}

theorem writeAll_cons_of_some (h : folder.writeText path content = some folder') :
    folder.writeAll ((path, content) :: rest) = folder'.writeAll rest := by
  rw [writeAll, h]

theorem writeAll_cons_of_none (h : folder.writeText path content = none) :
    folder.writeAll ((path, content) :: rest) = (folder, false) := by
  rw [writeAll, h]

variable {writes : List (FolderPath × Text)}

theorem isFile_writeAll (h : folder.isFile path = true) :
    (folder.writeAll writes).1.isFile path = true := by
  induction writes generalizing folder with
  | nil => exact h
  | cons write writes ih =>
    obtain ⟨p, content⟩ := write
    cases hwrite : folder.writeText p content with
    | none =>
      rw [writeAll_cons_of_none hwrite]
      exact h
    | some folder' =>
      rw [writeAll_cons_of_some hwrite]
      apply ih
      rw [isFile, (writeText_spec hwrite).2.1 path]
      split
      · rfl
      · exact h

theorem total_writeAll (hnodup : (writes.map Prod.fst).Nodup)
    (h : folder.writeAll writes = (folder', true)) :
    (∀ write ∈ writes, Text.isUtf8 write.2 = true) ∧
      total w folder' + (writes.map fun write => share w folder write.1).sum
        = total w folder + (writes.map fun write => w write.1 (Utf8.encode write.2)).sum := by
  induction writes generalizing folder with
  | nil =>
    obtain rfl := congrArg Prod.fst h
    exact ⟨fun _ hmem => absurd hmem List.not_mem_nil, rfl⟩
  | cons write writes ih =>
    obtain ⟨path, content⟩ := write
    rw [List.map_cons, List.nodup_cons] at hnodup
    cases hwrite : folder.writeText path content with
    | none =>
      rw [writeAll_cons_of_none hwrite] at h
      cases h
    | some next =>
      rw [writeAll_cons_of_some hwrite] at h
      obtain ⟨hutf8, hbytes, htotal⟩ := writeText_spec hwrite
      obtain ⟨hrest, hsum⟩ := ih hnodup.2 h
      have hshares : (writes.map fun write => share w next write.1)
          = writes.map fun write => share w folder write.1 := by
        refine List.map_congr_left fun write hmem => ?_
        have hne : path ≠ write.1 := by
          rintro rfl
          exact hnodup.1 (List.mem_map.mpr ⟨write, hmem, rfl⟩)
        rw [share, hbytes, if_neg hne, share]
      rw [hshares] at hsum
      have hfirst := htotal w
      refine ⟨List.forall_mem_cons.mpr ⟨hutf8, hrest⟩, ?_⟩
      simp only [List.map_cons, List.sum_cons]
      omega

/-! ### What is measured -/

def isCounted (path : FolderPath) : Bool := path.head? ≠ some infiniteRunsDirname

def fileWeight (path : FolderPath) (_ : List Byte) : ℕ := if isCounted path then 1 else 0

def tokenWeight (path : FolderPath) (bytes : List Byte) : ℕ :=
  if isCounted path then Text.tokens (universalNewlines (Utf8.decode bytes)) else 0

theorem countedRow_file (bytes : List Byte) :
    countedRow (path, .file bytes)
      = if isCounted path then some (path, tokenWeight path bytes) else none := by
  by_cases h : path.head? = some infiniteRunsDirname
  · simp [countedRow, isCounted, h]
  · simp [countedRow, isCounted, tokenWeight, h]

theorem length_tokensByFile : folder.tokensByFile.length = total fileWeight folder := by
  rw [tokensByFile, total]
  induction folder.nodes with
  | nil => rfl
  | cons row rows ih =>
    obtain ⟨p, node⟩ := row
    cases node with
    | dir =>
      rw [List.filterMap_cons, List.map_cons, List.sum_cons]
      simp [countedRow, rowWeight, ih]
    | file bytes =>
      rw [List.filterMap_cons, countedRow_file, List.map_cons, List.sum_cons, rowWeight]
      by_cases hp : isCounted p = true
      · simp [hp, ih, fileWeight]
        omega
      · simp [hp, ih, fileWeight]

theorem sum_tokensByFile :
    (folder.tokensByFile.map Prod.snd).sum = total tokenWeight folder := by
  rw [tokensByFile, total]
  induction folder.nodes with
  | nil => rfl
  | cons row rows ih =>
    obtain ⟨p, node⟩ := row
    cases node with
    | dir =>
      rw [List.filterMap_cons, List.map_cons, List.sum_cons]
      simp [countedRow, rowWeight, ih]
    | file bytes =>
      rw [List.filterMap_cons, countedRow_file, List.map_cons, List.sum_cons, rowWeight]
      by_cases hp : isCounted p = true
      · simp [hp, ih]
      · simp [hp, ih, tokenWeight]

theorem find?_tokensByFile (path : FolderPath) :
    folder.tokensByFile.find? (fun row => row.1 = path)
      = if isCounted path then (folder.bytes? path).map fun bytes => (path, tokenWeight path bytes)
        else none := by
  have hnodup := folder.nodup
  rw [tokensByFile, bytes?, node?]
  generalize folder.nodes = rows at hnodup ⊢
  induction rows with
  | nil => simp
  | cons row rows ih =>
    obtain ⟨p, node⟩ := row
    rw [List.map_cons, List.nodup_cons] at hnodup
    have hrest := ih hnodup.2
    by_cases hp : p = path
    · -- no other row has the path, so nothing is found behind this one
      subst hp
      have hnone : rows.find? (fun row => row.1 = p) = none := by
        rw [List.find?_eq_none]
        intro row hrow heq
        exact hnodup.1 (List.mem_map.mpr ⟨row, hrow, of_decide_eq_true heq⟩)
      rw [hnone] at hrest
      cases node with
      | dir =>
        rw [List.filterMap_cons]
        simpa [countedRow] using hrest
      | file bytes =>
        rw [List.filterMap_cons, countedRow_file]
        by_cases hcounted : isCounted p = true
        · simp [hcounted]
        · simpa [hcounted] using hrest
    · cases node with
      | dir =>
        rw [List.filterMap_cons]
        simpa [countedRow, hp] using hrest
      | file bytes =>
        rw [List.filterMap_cons, countedRow_file]
        by_cases hcounted : isCounted p = true
        · simpa [hcounted, hp] using hrest
        · simpa [hcounted, hp] using hrest

theorem countOf_eq (path : FolderPath) :
    countOf folder.tokensByFile path = share tokenWeight folder path := by
  rw [countOf, find?_tokensByFile, share]
  by_cases h : isCounted path = true
  · cases folder.bytes? path <;> simp [h]
  · cases folder.bytes? path <;> simp [h, tokenWeight]

theorem mem_tokensByFile (path : FolderPath) :
    path ∈ folder.tokensByFile.map Prod.fst ↔ share fileWeight folder path = 1 := by
  have hfind : path ∈ folder.tokensByFile.map Prod.fst
      ↔ (folder.tokensByFile.find? fun row => row.1 = path).isSome := by
    rw [List.find?_isSome, List.mem_map]
    simp
  rw [hfind, find?_tokensByFile, share]
  by_cases h : isCounted path = true
  · cases folder.bytes? path <;> simp [h, fileWeight]
  · cases folder.bytes? path <;> simp [h, fileWeight]

theorem usage_eq : folder.usage = ⟨total fileWeight folder, total tokenWeight folder⟩ := by
  rw [usage, totals, length_tokensByFile, sum_tokensByFile]
  rfl

theorem tokenWeight_encode_le (h : Text.isUtf8 content = true)
    (path : FolderPath) : tokenWeight path (Utf8.encode content) ≤ Text.tokens content := by
  have hlen := length_universalNewlines_le content
  rw [tokenWeight, Utf8.decode_encode h]
  split
  · rw [Text.tokens, Text.tokens]
    omega
  · exact Nat.zero_le _

/-- **The projection bounds the write.** What is measured after the writes is at most the totals that
were projected before them. -/
theorem usage_writeAll_le (hnodup : (writes.map Prod.fst).Nodup) (h : folder.writeAll writes = (folder', true)) :
    folder'.usage.files ≤ (totals folder.tokensByFile writes).files ∧
      folder'.usage.tokens ≤ (totals folder.tokensByFile writes).tokens := by
  obtain ⟨hutf8, htokens⟩ := total_writeAll tokenWeight hnodup h
  have hfiles := (total_writeAll fileWeight hnodup h).2
  rw [usage_eq, totals, length_tokensByFile, sum_tokensByFile]
  simp only [countOf_eq, mem_tokensByFile]
  constructor
  · have hnew : (writes.map fun write => fileWeight write.1 (Utf8.encode write.2)).sum
        ≤ (writes.map fun write => share fileWeight folder write.1).sum
          + (writes.filter fun write => ¬ share fileWeight folder write.1 = 1).length := by
      clear hnodup h hutf8 htokens hfiles
      induction writes with
      | nil => exact Nat.le_refl 0
      | cons write writes ih =>
        have hle : fileWeight write.1 (Utf8.encode write.2) ≤ 1 := by
          rw [fileWeight]
          split <;> omega
        by_cases hshare : share fileWeight folder write.1 = 1
        · rw [List.filter_cons_of_neg (by simp [hshare])]
          simp only [List.map_cons, List.sum_cons]
          omega
        · rw [List.filter_cons_of_pos (by simp [hshare])]
          simp only [List.map_cons, List.sum_cons, List.length_cons]
          omega
    omega
  · have hnew : (writes.map fun write => tokenWeight write.1 (Utf8.encode write.2)).sum
        ≤ (writes.map fun write => Text.tokens write.2).sum :=
      List.sum_le_sum fun write hmem => tokenWeight_encode_le (hutf8 write hmem) write.1
    omega

end Folder

/-! ### The workspace -/

/-- The bookkeeping files are there, as the workspace's constructor leaves them. -/
structure Folder.IsReady (folder : Folder) : Prop where
  entries : folder.isFile [infiniteEntriesFile] = true
  superseded : folder.isFile [infiniteSupersededFile] = true
  files : folder.isFile [infiniteFilesFile] = true

structure WithinCaps (settings : InfiniteWorkspaceSettings) (folder : Folder) : Prop where
  files : folder.usage.files ≤ settings.maxFiles
  tokens : folder.usage.tokens ≤ settings.maxTokens

variable {casefold : Text → Text} {settings : NoteSettings} {root : List Text} {folder : Folder}

theorem Folder.IsReady.writeAll (h : folder.IsReady) (writes : List (FolderPath × Text)) :
    (folder.writeAll writes).1.IsReady :=
  ⟨Folder.isFile_writeAll h.entries, Folder.isFile_writeAll h.superseded,
    Folder.isFile_writeAll h.files⟩

theorem Folder.isDir_of_isFile {path : FolderPath} (hne : path ≠ [])
    (h : folder.isFile path = true) : folder.isDir path = false := by
  rw [isFile, bytes?] at h
  rw [isDir]
  cases hnode : folder.node? path with
  | none => simp [hne]
  | some node =>
    rw [hnode] at h
    cases node with
    | dir => cases h
    | file bytes => simp [hne]

theorem Folder.writeText_top {name content : Text} (hfile : folder.isFile [name] = true)
    (hutf8 : Text.isUtf8 content = true) : ∃ folder', folder.writeText [name] content = some folder' := by
  have hdir := isDir_of_isFile (List.cons_ne_nil name []) hfile
  have hparents : parents [name] = [] := rfl
  rw [writeText, hutf8, hdir, hparents]
  exact ⟨_, rfl⟩

/-- What an operation does: it keeps the folder within the caps, or is refused and changes no file. -/
structure Applied (settings : InfiniteWorkspaceSettings) (folder folder' : Folder)
    (refused : Bool) : Prop where
  ready : folder'.IsReady
  within : refused = false → WithinCaps settings folder'
  same : refused = true → folder' = folder

theorem Applied.refusal (hready : folder.IsReady) :
    Applied settings.toInfiniteWorkspaceSettings folder folder true :=
  ⟨hready, fun h => Bool.noConfusion h, fun _ => rfl⟩

theorem Applied.writes {folder' : Folder} {writes : List (FolderPath × Text)}
    (hready : folder.IsReady) (hnodup : (writes.map Prod.fst).Nodup)
    (hfiles : (totals folder.tokensByFile writes).files ≤ settings.maxFiles)
    (htokens : (totals folder.tokensByFile writes).tokens ≤ settings.maxTokens)
    (h : folder.writeAll writes = (folder', true)) :
    Applied settings.toInfiniteWorkspaceSettings folder folder' false := by
  obtain ⟨hf, ht⟩ := Folder.usage_writeAll_le hnodup h
  have hready' := hready.writeAll writes
  rw [h] at hready'
  exact ⟨hready', fun _ => ⟨hf.trans hfiles, ht.trans htokens⟩, nofun⟩

/-! ### Notes -/

variable {changed : List (FolderPath × Text)}

theorem noteRoom_eq_none (h : noteRoom settings folder changed = none) :
    (totals folder.tokensByFile changed).files ≤ settings.maxFiles ∧
      (totals folder.tokensByFile changed).tokens ≤ settings.maxTokens := by
  unfold noteRoom at h
  simp only at h
  split at h
  · cases h
  split at h
  · cases h
  · exact ⟨by omega, by omega⟩

theorem notePlan_spec {call : NoteCall} {created : Bool} {relative : FolderPath}
    (h : notePlan casefold settings root folder call = .ok (created, relative, changed)) :
    created = !folder.pathExists relative ∧ noteRoom settings folder changed = none ∧
      (∀ write ∈ changed, Text.isUtf8 write.2 = true) ∧
      ∃ note, note = noteText folder relative created call.text ∧
        changed = noteWrites folder relative created note call := by
  unfold notePlan at h
  split at h
  · cases h
  next relative' _ =>
  simp only at h
  split at h
  · cases h
  split at h
  · cases h
  split at h
  · cases h
  split at h
  · cases h
  next hroom =>
  split at h
  · cases h
  next hutf8 =>
  simp only [Except.ok.injEq, Prod.mk.injEq] at h
  obtain ⟨rfl, rfl, rfl⟩ := h
  rw [Bool.not_eq_true', Bool.not_eq_false, List.all_eq_true] at hutf8
  exact ⟨rfl, hroom, hutf8, _, rfl, rfl⟩

theorem pathExists_of_isFile {path : FolderPath} (h : folder.isFile path = true) :
    folder.pathExists path = true := by
  rw [Folder.isFile, Folder.bytes?] at h
  rw [Folder.pathExists]
  cases hnode : folder.node? path with
  | none => rw [hnode] at h; cases h
  | some node => simp

theorem writeNote_applied (hready : folder.IsReady) (call : NoteCall) :
    Applied settings.toInfiniteWorkspaceSettings folder
      (writeNote casefold settings root folder call).1
      (!(writeNote casefold settings root folder call).2.isOk) := by
  cases hplan : notePlan casefold settings root folder call with
  | error refusal =>
    simp only [writeNote, hplan]
    exact Applied.refusal hready
  | ok plan =>
    obtain ⟨created, relative, changed⟩ := plan
    obtain ⟨hcreated, hroom, hutf8, note, -, hchanged⟩ := notePlan_spec hplan
    obtain ⟨hfiles, htokens⟩ := noteRoom_eq_none hroom
    simp only [writeNote, hplan]
    cases hwrite : folder.writeText relative note with
    | none =>
      -- the first write is the note's, so nothing is written when it is refused
      have hall : folder.writeAll changed = (folder, false) := by
        rw [hchanged, noteWrites]
        split <;> exact Folder.writeAll_cons_of_none hwrite
      rw [hall]
      exact Applied.refusal hready
    | some folder₁ =>
      have hnodup : (changed.map Prod.fst).Nodup := by
        rw [hchanged, noteWrites]
        split
        · next hnew =>
          have hne : relative ≠ [infiniteFilesFile] := by
            rintro rfl
            rw [hcreated, pathExists_of_isFile hready.files] at hnew
            cases hnew
          simpa using hne
        · simp
      have hall : ∃ folder', folder.writeAll changed = (folder', true) := by
        rw [hchanged] at hutf8 ⊢
        rw [noteWrites] at hutf8 ⊢
        split
        · next hnew =>
          rw [if_pos hnew] at hutf8
          have hfile : folder₁.isFile [infiniteFilesFile] = true := by
            have h : (folder.writeAll [(relative, note)]).1.isFile [infiniteFilesFile] = true :=
              Folder.isFile_writeAll hready.files
            rw [Folder.writeAll_cons_of_some hwrite] at h
            exact h
          rw [List.forall_mem_cons, List.forall_mem_cons] at hutf8
          dsimp only at hutf8
          obtain ⟨folder₂, hsecond⟩ := Folder.writeText_top hfile hutf8.2.1
          rw [Folder.writeAll_cons_of_some hwrite, Folder.writeAll_cons_of_some hsecond]
          exact ⟨_, rfl⟩
        · rw [Folder.writeAll_cons_of_some hwrite]
          exact ⟨_, rfl⟩
      obtain ⟨folder', hall⟩ := hall
      rw [hall]
      exact Applied.writes hready hnodup hfiles htokens hall

theorem editFile_applied (hready : folder.IsReady) (path oldText newText : Text) :
    Applied settings.toInfiniteWorkspaceSettings folder
      (editFile casefold settings root folder path oldText newText).1
      (!(editFile casefold settings root folder path oldText newText).2.isOk) := by
  unfold editFile
  split
  · exact Applied.refusal hready
  next relative _ =>
  split
  · exact Applied.refusal hready
  simp only
  split
  · exact Applied.refusal hready
  split
  · exact Applied.refusal hready
  split
  · exact Applied.refusal hready
  next hroom =>
  obtain ⟨hfiles, htokens⟩ := noteRoom_eq_none hroom
  split
  · next folder' hwrite =>
    refine Applied.writes hready (by simp) hfiles htokens ?_
    rw [Folder.writeAll_cons_of_some hwrite, Folder.writeAll_nil]
  · exact Applied.refusal hready

/-! ### Commits -/

theorem isUtf8_rstripReturn {t : Text} (h : Text.isUtf8 t = true) :
    Text.isUtf8 (Text.rstripReturn t) = true := by
  rw [Text.isUtf8_iff] at *
  intro c hc
  apply h
  rw [Text.rstripReturn, List.mem_reverse] at hc
  exact List.mem_reverse.mp ((List.dropWhile_suffix _).mem hc)

variable {found : List (InfiniteEntry × Text)}

theorem isUtf8_entryLines {file : EntryFile} {number : Nat} {raws : List Text}
    (h : entryLines file number raws = .ok found)
    (hraws : ∀ raw ∈ raws, Text.isUtf8 raw = true) : ∀ e ∈ found, Text.isUtf8 e.2 = true := by
  induction raws generalizing number found with
  | nil =>
    cases h
    exact fun e he => absurd he List.not_mem_nil
  | cons raw raws ih =>
    obtain ⟨hraw, hrest⟩ := List.forall_mem_cons.mp hraws
    unfold entryLines at h
    simp only at h
    split at h
    · exact ih h hrest
    · split at h
      · cases h
      · next entry _ =>
        cases hlines : entryLines file (number + 1) raws with
        | error refusal =>
          rw [hlines] at h
          cases h
        | ok rest =>
          rw [hlines] at h
          obtain rfl := Except.ok.inj h
          exact List.forall_mem_cons.mpr ⟨isUtf8_rstripReturn hraw, ih hlines hrest⟩

theorem isUtf8_readEntries {file : EntryFile}
    (h : readEntries folder.entryFiles file = .ok found) : ∀ e ∈ found, Text.isUtf8 e.2 = true := by
  refine isUtf8_entryLines h fun raw hraw => ?_
  have htext : Text.isUtf8 (folder.entryFiles.text file) = true := by
    cases file <;> exact Utf8.isUtf8_decode _
  rw [Text.isUtf8_iff] at *
  intro c hc
  rcases mem_universalNewlines (mem_of_mem_lines hraw hc) with hmem | rfl
  · exact htext c hmem
  · decide

theorem isUtf8_lines
    (h : ∀ e ∈ found, Text.isUtf8 e.2 = true) : Text.isUtf8 (unlines (found.map Prod.snd)) = true := by
  refine Text.isUtf8_unlines fun l hl => ?_
  obtain ⟨e, he, rfl⟩ := List.mem_map.mp hl
  exact h e he

theorem commitPlan_writes {others : List Nat} {draft : InfiniteEntryDraft} {origin : Provenance}
    {plan : CommitPlan} (h : commitPlan casefold settings.toInfiniteWorkspaceSettings
      folder.entryFiles others draft origin = .ok plan) :
    room settings.toInfiniteWorkspaceSettings folder.entryFiles others plan.writes = none ∧
      ∃ kept moved, Text.isUtf8 kept = true ∧ Text.isUtf8 moved = true ∧
        (plan.writes = [(.entries, kept)] ∨
          plan.writes = [(.superseded, moved), (.entries, kept)]) := by
  obtain ⟨live, retired, hlive, hretired, -, -, -, hline, hroom, heq⟩ := commitPlan_ok h
  generalize plan.entry = entry at hline heq
  subst heq
  have hkept := isUtf8_readEntries hlive
  have hold := isUtf8_readEntries hretired
  refine ⟨hroom, unlines ((live.filter fun e => some e.1.id ≠ entry.draft.supersedes).map Prod.snd
      ++ [entryJson entry]), unlines (retired.map Prod.snd)
      ++ unlines ((live.filter fun e => some e.1.id = entry.draft.supersedes).map Prod.snd), ?_, ?_, ?_⟩
  · rw [unlines_append]
    refine Text.isUtf8_append (isUtf8_lines fun e he => hkept e (List.mem_of_mem_filter he)) ?_
    exact Text.isUtf8_unlines fun l hl => List.mem_singleton.mp hl ▸ hline
  · exact Text.isUtf8_append (isUtf8_lines hold)
      (isUtf8_lines fun e he => hkept e (List.mem_of_mem_filter he))
  · simp only [commitWrites]
    split
    · exact .inl rfl
    · exact .inr rfl

theorem Folder.share_tokenWeight_top {name : Text} (hname : name ≠ infiniteRunsDirname)
    (hfile : folder.isFile [name] = true) :
    share tokenWeight folder [name] = Text.tokens (universalNewlines (folder.rawText [name])) := by
  have hcounted : isCounted [name] = true := by simpa [isCounted] using hname
  rw [isFile] at hfile
  rw [share, rawText]
  cases hbytes : folder.bytes? [name] with
  | none => rw [hbytes] at hfile; cases hfile
  | some bytes => simp [tokenWeight, hcounted]

theorem Folder.share_fileWeight_top {name : Text} (hname : name ≠ infiniteRunsDirname)
    (hfile : folder.isFile [name] = true) : share fileWeight folder [name] = 1 := by
  have hcounted : isCounted [name] = true := by simpa [isCounted] using hname
  rw [isFile] at hfile
  rw [share]
  cases hbytes : folder.bytes? [name] with
  | none => rw [hbytes] at hfile; cases hfile
  | some bytes => simp [fileWeight, hcounted]

theorem Folder.nodup_tokensByFile : (folder.tokensByFile.map Prod.fst).Nodup := by
  have hkeys : ∀ row counted, countedRow row = some counted → counted.1 = row.1 := by
    rintro ⟨p, node⟩ counted h
    cases node with
    | dir => cases h
    | file bytes =>
      rw [countedRow_file] at h
      split at h
      · obtain rfl := Option.some.inj h
        rfl
      · cases h
  have hsub : (folder.tokensByFile.map Prod.fst).Sublist (folder.nodes.map Prod.fst) := by
    rw [tokensByFile]
    induction folder.nodes with
    | nil => exact List.Sublist.refl _
    | cons row rows ih =>
      rw [List.filterMap_cons, List.map_cons]
      cases hrow : countedRow row with
      | none => exact ih.cons _
      | some counted =>
        rw [List.map_cons, hkeys row counted hrow]
        exact ih.cons_cons _
  exact hsub.nodup folder.nodup

theorem Folder.sum_tokensByFile_split (w : FolderPath × Nat → ℕ) :
    (folder.tokensByFile.map w).sum
      = ((folder.tokensByFile.find? fun row => row.1 = [infiniteEntriesFile]).map w).getD 0
        + ((folder.tokensByFile.find? fun row => row.1 = [infiniteSupersededFile]).map w).getD 0
        + ((folder.tokensByFile.filter fun row =>
            row.1 ≠ [infiniteEntriesFile] ∧ row.1 ≠ [infiniteSupersededFile]).map w).sum := by
  have hnodup := folder.nodup_tokensByFile
  have hnodup' : ((folder.tokensByFile.filter fun row => row.1 ≠ [infiniteEntriesFile]).map
      Prod.fst).Nodup := (List.filter_sublist.map Prod.fst).nodup hnodup
  have hfind : (folder.tokensByFile.filter fun row => row.1 ≠ [infiniteEntriesFile]).find?
        (fun row => row.1 = [infiniteSupersededFile])
      = folder.tokensByFile.find? fun row => row.1 = [infiniteSupersededFile] := by
    have hne : ([infiniteSupersededFile] : FolderPath) ≠ [infiniteEntriesFile] := by decide
    rw [List.find?_filter]
    congr 1
    funext row
    by_cases hrow : row.1 = [infiniteSupersededFile]
    · simp [hrow, hne]
    · simp [hrow]
  have hfilter : (folder.tokensByFile.filter fun row => row.1 ≠ [infiniteEntriesFile]).filter
        (fun row => row.1 ≠ [infiniteSupersededFile])
      = folder.tokensByFile.filter fun row =>
          row.1 ≠ [infiniteEntriesFile] ∧ row.1 ≠ [infiniteSupersededFile] := by
    rw [List.filter_filter]
    congr 1
    funext row
    simp [Bool.and_comm]
  rw [sum_map_eq_add_filter w hnodup [infiniteEntriesFile],
    sum_map_eq_add_filter w hnodup' [infiniteSupersededFile], hfind, hfilter, Nat.add_assoc]

theorem countOf_entryFile (hready : folder.IsReady) (file : EntryFile) :
    countOf folder.tokensByFile file.path
      = Text.tokens (universalNewlines (folder.entryFiles.text file)) := by
  rw [Folder.countOf_eq]
  cases file with
  | entries => exact Folder.share_tokenWeight_top (by decide) hready.entries
  | superseded => exact Folder.share_tokenWeight_top (by decide) hready.superseded

theorem mem_tokensByFile_entryFile (hready : folder.IsReady) (file : EntryFile) :
    file.path ∈ folder.tokensByFile.map Prod.fst := by
  rw [Folder.mem_tokensByFile]
  cases file with
  | entries => exact Folder.share_fileWeight_top (by decide) hready.entries
  | superseded => exact Folder.share_fileWeight_top (by decide) hready.superseded

theorem length_tokensByFile_split (hready : folder.IsReady) :
    folder.tokensByFile.length = folder.otherCounts.length + 2 := by
  have hone : ∀ file : EntryFile, ((folder.tokensByFile.find? fun row => row.1 = file.path).map
      fun _ => 1).getD 0 = 1 := by
    intro file
    obtain ⟨row, hrow, hpath⟩ := List.mem_map.mp (mem_tokensByFile_entryFile hready file)
    have hsome : (folder.tokensByFile.find? fun row => row.1 = file.path).isSome := by
      rw [List.find?_isSome]
      exact ⟨row, hrow, decide_eq_true hpath⟩
    obtain ⟨found, hfound⟩ := Option.isSome_iff_exists.mp hsome
    rw [hfound]
    rfl
  have hsplit := folder.sum_tokensByFile_split fun _ => 1
  have hentries : ((folder.tokensByFile.find? fun row => row.1 = [infiniteEntriesFile]).map
      fun _ => 1).getD 0 = 1 := hone .entries
  have hsuperseded : ((folder.tokensByFile.find? fun row => row.1 = [infiniteSupersededFile]).map
      fun _ => 1).getD 0 = 1 := hone .superseded
  rw [hentries, hsuperseded] at hsplit
  simp only [List.map_const', List.sum_replicate, nsmul_eq_mul, Nat.cast_id, mul_one] at hsplit
  rw [Folder.otherCounts, List.length_map]
  omega

theorem sum_tokensByFile_entryFiles (hready : folder.IsReady) :
    (folder.tokensByFile.map Prod.snd).sum
      = Text.tokens (universalNewlines folder.entryFiles.entries)
        + Text.tokens (universalNewlines folder.entryFiles.superseded) + folder.otherCounts.sum := by
  have hentries : countOf folder.tokensByFile [infiniteEntriesFile]
      = Text.tokens (universalNewlines folder.entryFiles.entries) :=
    countOf_entryFile hready .entries
  have hsuperseded : countOf folder.tokensByFile [infiniteSupersededFile]
      = Text.tokens (universalNewlines folder.entryFiles.superseded) :=
    countOf_entryFile hready .superseded
  rw [countOf] at hentries hsuperseded
  rw [folder.sum_tokensByFile_split Prod.snd, hentries, hsuperseded, Folder.otherCounts]

theorem room_eq_none (hready : folder.IsReady) {writes : List (EntryFile × Text)}
    (h : room settings.toInfiniteWorkspaceSettings folder.entryFiles folder.otherCounts writes = none) :
    (totals folder.tokensByFile (writes.map fun w => (w.1.path, w.2))).files ≤ settings.maxFiles ∧
      (totals folder.tokensByFile (writes.map fun w => (w.1.path, w.2))).tokens
        ≤ settings.maxTokens := by
  have hnew : ((writes.map fun w => (w.1.path, w.2)).filter fun w =>
      w.1 ∉ folder.tokensByFile.map Prod.fst) = [] := by
    rw [List.filter_eq_nil_iff]
    intro w hw
    obtain ⟨v, -, rfl⟩ := List.mem_map.mp hw
    simpa using mem_tokensByFile_entryFile hready v.1
  have hold : ((writes.map fun w => (w.1.path, w.2)).map fun w => countOf folder.tokensByFile w.1)
      = writes.map fun w => Text.tokens (universalNewlines (folder.entryFiles.text w.1)) := by
    rw [List.map_map]
    exact List.map_congr_left fun w _ => countOf_entryFile hready w.1
  have htexts : ((writes.map fun w => (w.1.path, w.2)).map fun w => Text.tokens w.2)
      = writes.map fun w => Text.tokens w.2 := by
    rw [List.map_map]
    rfl
  unfold room at h
  simp only at h
  split at h
  · cases h
  next hfiles =>
  split at h
  · cases h
  next htokens =>
  rw [totals, hnew, hold, htexts, length_tokensByFile_split hready,
    sum_tokensByFile_entryFiles hready]
  simp only [List.length_nil]
  constructor
  · omega
  · omega

theorem commitIn_applied (hready : folder.IsReady) (draft : InfiniteEntryDraft)
    (origin : Provenance) :
    Applied settings.toInfiniteWorkspaceSettings folder
      (commitIn casefold settings folder draft origin).1
      (!(commitIn casefold settings folder draft origin).2.isOk) := by
  cases hplan : commitPlan casefold settings.toInfiniteWorkspaceSettings folder.entryFiles
      folder.otherCounts draft origin with
  | error refusal =>
    simp only [commitIn, hplan]
    exact Applied.refusal hready
  | ok plan =>
    obtain ⟨hroom, kept, moved, hkept, hmoved, hwrites⟩ := commitPlan_writes hplan
    obtain ⟨hfiles, htokens⟩ := room_eq_none hready hroom
    have hnodup : ((plan.writes.map fun w => (w.1.path, w.2)).map Prod.fst).Nodup := by
      have hdistinct : [EntryFile.superseded.path, EntryFile.entries.path].Nodup := by decide
      rcases hwrites with h | h
      · rw [h]
        exact List.nodup_singleton _
      · rw [h]
        exact hdistinct
    have hall : ∃ folder', folder.writeAll (plan.writes.map fun w => (w.1.path, w.2))
        = (folder', true) := by
      rcases hwrites with h | h
      · obtain ⟨folder₁, hfirst⟩ := Folder.writeText_top hready.entries hkept
        rw [h]
        exact ⟨folder₁, Folder.writeAll_cons_of_some hfirst⟩
      · -- the live file is still there once the superseded one is written
        obtain ⟨folder₁, hfirst⟩ := Folder.writeText_top hready.superseded hmoved
        have hready₁ := hready.writeAll [([infiniteSupersededFile], moved)]
        rw [Folder.writeAll_cons_of_some hfirst] at hready₁
        obtain ⟨folder₂, hsecond⟩ := Folder.writeText_top hready₁.entries hkept
        rw [h]
        exact ⟨folder₂, (Folder.writeAll_cons_of_some hfirst).trans
          (Folder.writeAll_cons_of_some hsecond)⟩
    obtain ⟨folder', hall⟩ := hall
    simp only [commitIn, hplan, hall]
    exact Applied.writes hready hnodup hfiles htokens hall

/-! ### Runs -/

variable (casefold settings root) in
theorem applyOp_applied (hready : folder.IsReady) (op : FolderOp) :
    Applied settings.toInfiniteWorkspaceSettings folder (applyOp casefold settings root folder op).1
      (applyOp casefold settings root folder op).2 := by
  cases op with
  | commitEntry draft origin => exact commitIn_applied hready draft origin
  | writeNote call => exact writeNote_applied hready call
  | editFile path oldText newText => exact editFile_applied hready path oldText newText

/-- A workspace as its constructor leaves it and its operations keep it. -/
structure InfiniteWorkspace where
  folder : Folder
  ready : folder.IsReady

def InfiniteWorkspace.created : InfiniteWorkspace where
  folder := ⟨[([infiniteEntriesFile], .file []), ([infiniteSupersededFile], .file []),
    ([infiniteFilesFile], .file [])], by decide⟩
  ready := ⟨by decide, by decide, by decide⟩

def InfiniteWorkspace.apply (casefold : Text → Text) (settings : NoteSettings) (root : List Text)
    (workspace : InfiniteWorkspace) (op : FolderOp) : InfiniteWorkspace :=
  ⟨(applyOp casefold settings root workspace.folder op).1, (applyOp_applied casefold settings root workspace.ready op).ready⟩

def InfiniteWorkspace.after (casefold : Text → Text) (settings : NoteSettings) (root : List Text)
    (start : InfiniteWorkspace) (ops : List FolderOp) : InfiniteWorkspace :=
  ops.foldl (InfiniteWorkspace.apply casefold settings root) start

/-- **The caps hold.** After every operation of a run that starts within the caps, what is measured
in the folder is within them, and an operation that is refused leaves every file as it was. -/
theorem caps_hold (casefold : Text → Text) (settings : NoteSettings) (root : List Text)
    (start : InfiniteWorkspace)
    (hstart : WithinCaps settings.toInfiniteWorkspaceSettings start.folder) (ops : List FolderOp) :
    WithinCaps settings.toInfiniteWorkspaceSettings
        (start.after casefold settings root ops).folder ∧
      ∀ op, (applyOp casefold settings root (start.after casefold settings root ops).folder op).2
          = true →
        ∀ path, ((start.after casefold settings root (ops ++ [op])).folder.bytes? path)
          = (start.after casefold settings root ops).folder.bytes? path := by
  constructor
  · induction ops using List.reverseRecOn with
    | nil => exact hstart
    | append_singleton ops op ih =>
      rw [InfiniteWorkspace.after, List.foldl_append, List.foldl_cons, List.foldl_nil]
      have happlied := applyOp_applied casefold settings root
        (start.after casefold settings root ops).ready op
      cases hrefused : (applyOp casefold settings root
          (start.after casefold settings root ops).folder op).2 with
      | false => exact happlied.within hrefused
      | true =>
        have hwithin : ∀ folder' : Folder, folder' = (start.after casefold settings root ops).folder →
            WithinCaps settings.toInfiniteWorkspaceSettings folder' := fun _ h => h ▸ ih
        exact hwithin _ (happlied.same hrefused)
  · intro op hrefused path
    have happlied := applyOp_applied casefold settings root
      (start.after casefold settings root ops).ready op
    have hsame := happlied.same hrefused
    rw [InfiniteWorkspace.after, List.foldl_append, List.foldl_cons, List.foldl_nil]
    exact congrArg (fun folder : Folder => folder.bytes? path) hsame

/-- A new note in a new workspace: four files, of the four that the caps allow. -/
def firstNote : FolderOp :=
  .writeNote ⟨Json.word ['a', '.', 'm', 'd'], Json.word ['h', 'i'], some (Json.word ['a']),
    Json.word ['g'], Json.word ['r'], Json.word ['t'], true⟩

def fourFiles : NoteSettings := ⟨⟨4, 100, 10⟩, 50⟩

theorem caps_hold_firstNote :
    (InfiniteWorkspace.created.after id fourFiles [] [firstNote]).folder.usage.files = 4 ∧
      WithinCaps fourFiles.toInfiniteWorkspaceSettings
        (InfiniteWorkspace.created.after id fourFiles [] [firstNote]).folder :=
  ⟨by decide +kernel,
    (caps_hold id fourFiles [] InfiniteWorkspace.created ⟨by decide +kernel, by decide +kernel⟩
      [firstNote]).1⟩

end VidbyteSdk.Agents.Infinite

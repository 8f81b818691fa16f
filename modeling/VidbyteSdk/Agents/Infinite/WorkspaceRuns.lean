import Mathlib.Data.List.Count
import VidbyteSdk.Agents.Infinite.Workspace

/-!
# Runs of commits

The two files always hold the lines of two lists of committed entries. A commit appends to the
first and moves at most one entry to the second; a commit stopped between its writes leaves that
entry in both.
-/

namespace VidbyteSdk.Agents.Infinite

open VidbyteSdk.Lib

/-- Entries with their lines, as `_entry_lines` returns them. -/
def withLines (es : List InfiniteEntry) : List (InfiniteEntry × Text) :=
  es.map fun e => (e, entryJson e)

@[simp] theorem map_fst_withLines (es : List InfiniteEntry) : (withLines es).map Prod.fst = es := by
  simp [withLines, Function.comp_def]

@[simp] theorem map_snd_withLines (es : List InfiniteEntry) :
    (withLines es).map Prod.snd = es.map entryJson := by
  simp [withLines]

theorem withLines_append (es fs : List InfiniteEntry) :
    withLines es ++ withLines fs = withLines (es ++ fs) := by
  simp [withLines]

theorem filter_withLines (p : InfiniteEntry → Bool) (es : List InfiniteEntry) :
    (withLines es).filter (fun e => p e.1) = withLines (es.filter p) := by
  simp only [withLines, List.filter_map]
  rfl

theorem entryLines_withLines (file : EntryFile) (es : List InfiniteEntry) (number : Nat) :
    entryLines file number (es.map entryJson) = .ok (withLines es) := by
  induction es generalizing number with
  | nil => rfl
  | cons e es ih =>
    have hreturn : (0x0D : CodePoint) ∉ entryJson e := fun h =>
      absurd (le_of_mem_entryJson h) (by decide)
    rw [List.map_cons, entryLines, Text.rstripReturn_of_notMem hreturn, isBlank_entryJson,
      entryOfLine_entryJson, ih]
    rfl

variable {files : EntryFiles}

theorem readEntries_of {file : EntryFile} {es : List InfiniteEntry}
    (h : files.text file = unlines (es.map entryJson)) :
    readEntries files file = .ok (withLines es) := by
  have hline : ∀ l ∈ es.map entryJson, newline ∉ l := by
    intro l hl hmem
    obtain ⟨e, -, rfl⟩ := List.mem_map.mp hl
    exact absurd (le_of_mem_entryJson hmem) (by decide)
  have hreturn : (0x0D : CodePoint) ∉ unlines (es.map entryJson) := by
    intro hmem
    obtain ⟨l, hl, hc⟩ := List.mem_flatMap.mp hmem
    obtain ⟨e, -, rfl⟩ := List.mem_map.mp hl
    rcases List.mem_append.mp hc with hc | hc
    · exact absurd (le_of_mem_entryJson hc) (by decide)
    · exact absurd (List.mem_singleton.mp hc) (by decide)
  have hlines := lines_unlines hline (List.not_mem_nil (a := newline))
  rw [List.append_nil, if_pos rfl, List.append_nil] at hlines
  rw [readEntries, h, universalNewlines_of_notMem hreturn, hlines, entryLines_withLines]

section

variable {casefold : Text → Text} {settings : InfiniteWorkspaceSettings}

variable {draft : InfiniteEntryDraft}

theorem isUtf8_of_entryRules {live : List (InfiniteEntry × Text)}
    (h : entryRules casefold settings draft live = none) :
    ∀ t ∈ draft.text :: draft.refs, Text.isUtf8 t = true := by
  unfold entryRules at h
  split at h
  · cases h
  next hutf8 =>
  simpa using hutf8

theorem isUtf8_of_make {origin : Provenance} {id : Int}
    {entry : InfiniteEntry} (hdraft : ∀ t ∈ draft.text :: draft.refs, Text.isUtf8 t = true)
    (hmake : InfiniteEntry.make id draft origin.author.val (origin.verifiedBy.map Subtype.val)
      origin.run.val origin.stamp.val = some entry) : Text.isUtf8 (entryJson entry) = true := by
  unfold InfiniteEntry.make at hmake
  split at hmake
  · cases hmake
    apply isUtf8_entryJson
    · exact hdraft draft.text List.mem_cons_self
    · exact fun r hr => hdraft r (List.mem_cons_of_mem _ hr)
    · exact origin.author.property
    · intro t ht
      obtain ⟨u, -, rfl⟩ := Option.map_eq_some_iff.mp ht
      exact u.property
    · exact origin.run.property
    · exact origin.stamp.property
  · cases hmake

theorem entryRules_eq_none {live : List InfiniteEntry}
    (h : entryRules casefold settings draft (withLines live) = none) :
    (∀ t ∈ draft.text :: draft.refs, Text.isUtf8 t = true) ∧
      ∀ e ∈ live, normalText casefold e.draft.text ≠ normalText casefold draft.text := by
  refine ⟨isUtf8_of_entryRules h, fun e he => ?_⟩
  unfold entryRules at h
  split at h
  · cases h
  split at h
  · cases h
  split at h
  · cases h
  next htwin =>
  have := List.find?_eq_none.mp htwin (e, entryJson e) (List.mem_map_of_mem he)
  simpa using this

theorem lt_nextId {live retired : List (InfiniteEntry × Text)} {e : InfiniteEntry × Text}
    (he : e ∈ live ++ retired) : e.1.id < nextId live retired := by
  have hmem : e.1.id ∈ (live ++ retired).map fun e => e.1.id :=
    List.mem_map_of_mem (f := fun e : InfiniteEntry × Text => e.1.id) he
  rw [nextId]
  cases hmax : ((live ++ retired).map fun e => e.1.id).max? with
  | none =>
    rw [List.max?_eq_none_iff] at hmax
    rw [hmax] at hmem
    cases hmem
  | some m =>
    have := (List.max?_le_iff hmax (x := m)).mp (Int.le_refl m) e.1.id hmem
    simp only [Option.getD_some]
    omega

/-- A commit that is not refused before its first write: what it read, and what it is about to do. -/
theorem commitPlan_ok {others : List Nat}
    {origin : Provenance} {plan : CommitPlan}
    (h : commitPlan casefold settings files others draft origin = .ok plan) :
    ∃ live retired, readEntries files .entries = .ok live ∧
      readEntries files .superseded = .ok retired ∧
      entryRules casefold settings draft live = none ∧
      plan.entry.id = nextId live retired ∧ plan.entry.draft = draft ∧
      Text.isUtf8 (entryJson plan.entry) = true ∧
      room settings files others plan.writes = none ∧ plan = commitWrites live retired plan.entry := by
  unfold commitPlan at h
  split at h
  · cases h
  next live hlive =>
  split at h
  · cases h
  next retired hretired =>
  split at h
  · cases h
  next hrules =>
  split at h
  · cases h
  next entry hmake =>
  split at h
  · cases h
  next hroom =>
  cases h
  have hline := isUtf8_of_make (isUtf8_of_entryRules hrules) hmake
  unfold InfiniteEntry.make at hmake
  split at hmake
  · cases hmake
    exact ⟨live, retired, hlive, hretired, hrules, rfl, rfl, hline, hroom, rfl⟩
  · cases hmake

end

/-! ### The invariant -/

/-- The entries of the two files, and how they cover what was committed. -/
structure Kept (casefold : Text → Text) (run : WorkspaceRun) (live retired : List InfiniteEntry) :
    Prop where
  entries : run.files.entries = unlines (live.map entryJson)
  superseded : run.files.superseded = unlines (retired.map entryJson)
  /-- The live entries stand in the order of their commits. -/
  live_sublist : live.Sublist run.committed
  retired_subset : retired ⊆ run.committed
  covered : ∀ e ∈ run.committed, e ∈ live ∨ e ∈ retired
  /-- An entry is in both files only if a stopped commit left it there. -/
  once : ∀ e ∈ run.committed, e ∉ run.halfMoved → live.count e + retired.count e = 1
  increasing : run.committed.Pairwise fun d e => d.id < e.id
  distinct : live.Pairwise fun d e =>
    normalText casefold d.draft.text ≠ normalText casefold e.draft.text
  utf8 : ∀ e ∈ run.committed, Text.isUtf8 (entryJson e) = true

theorem kept_start (casefold : Text → Text) : Kept casefold WorkspaceRun.start [] [] where
  entries := rfl
  superseded := rfl
  live_sublist := List.Sublist.refl _
  retired_subset := List.Subset.refl _
  covered := fun _ hmem => nomatch hmem
  once := fun _ hmem => nomatch hmem
  increasing := List.Pairwise.nil
  distinct := List.Pairwise.nil
  utf8 := fun _ hmem => nomatch hmem

/-! ### What a commit writes -/

/-- The entry is the one that `entry` replaces. -/
def replaced (entry e : InfiniteEntry) : Bool := some e.id = entry.draft.supersedes

def liveAfter (entry : InfiniteEntry) (live : List InfiniteEntry) : List InfiniteEntry :=
  (live.filter fun e => !replaced entry e) ++ [entry]

def movedBy (entry : InfiniteEntry) (live : List InfiniteEntry) : List InfiniteEntry :=
  live.filter (replaced entry)

theorem commitWrites_withLines (live retired : List InfiniteEntry) (entry : InfiniteEntry) :
    commitWrites (withLines live) (withLines retired) entry =
      { entry
        moved := withLines (movedBy entry live)
        writes :=
          if movedBy entry live = [] then
            [(EntryFile.entries, unlines ((liveAfter entry live).map entryJson))]
          else
            [(EntryFile.superseded, unlines ((retired ++ movedBy entry live).map entryJson)),
              (EntryFile.entries, unlines ((liveAfter entry live).map entryJson))] } := by
  have hkept : ((withLines live).filter fun e => some e.1.id ≠ entry.draft.supersedes)
      = withLines (live.filter fun e => !replaced entry e) := by
    rw [← filter_withLines]
    simp [replaced]
  have hmoved : ((withLines live).filter fun e => some e.1.id = entry.draft.supersedes)
      = withLines (movedBy entry live) := filter_withLines (replaced entry) live
  have hempty : (withLines (movedBy entry live)).isEmpty = true ↔ movedBy entry live = [] := by
    simp [withLines]
  simp only [commitWrites, hkept, hmoved, hempty, map_snd_withLines, liveAfter, List.map_append,
    List.map_cons, List.map_nil, unlines_append]

theorem writeAll_of_utf8 {writes : List (EntryFile × Text)}
    (h : ∀ w ∈ writes, Text.isUtf8 w.2 = true) (files : EntryFiles) :
    files.writeAll writes = (writes.foldl (fun files w => files.replace w.2 w.1) files, true) := by
  induction writes generalizing files with
  | nil => rfl
  | cons w writes ih =>
    obtain ⟨file, content⟩ := w
    have hcontent : Text.isUtf8 content = true := h (file, content) (by simp)
    rw [EntryFiles.writeAll, EntryFiles.writeText, if_pos hcontent]
    exact ih (fun w hw => h w (by simp [hw])) _

section

variable {casefold : Text → Text} {settings : InfiniteWorkspaceSettings} {run : WorkspaceRun}
  {live retired : List InfiniteEntry} {call : CommitCall} {plan : CommitPlan}

/-- A commit that is not refused: its entry is new, and can be written. -/
structure Admits (casefold : Text → Text) (live retired : List InfiniteEntry)
    (entry : InfiniteEntry) : Prop where
  above : ∀ e, e ∈ live ∨ e ∈ retired → e.id < entry.id
  distinct : ∀ e ∈ live, normalText casefold e.draft.text ≠ normalText casefold entry.draft.text
  utf8 : Text.isUtf8 (entryJson entry) = true

theorem commitPlan_spec (h : Kept casefold run live retired)
    (hplan : commitPlan casefold settings run.files call.others call.draft call.origin = .ok plan) :
    Admits casefold live retired plan.entry ∧
      plan = commitWrites (withLines live) (withLines retired) plan.entry := by
  have hlive : readEntries run.files .entries = .ok (withLines live) := readEntries_of h.entries
  have hretired : readEntries run.files .superseded = .ok (withLines retired) :=
    readEntries_of h.superseded
  obtain ⟨live', retired', hlive', hretired', hrules, hid, hdraft, hline, -, heq⟩ :=
    commitPlan_ok hplan
  obtain rfl := Except.ok.inj (hlive.symm.trans hlive')
  obtain rfl := Except.ok.inj (hretired.symm.trans hretired')
  have hdistinct := (entryRules_eq_none hrules).2
  rw [← hdraft] at hdistinct
  refine ⟨⟨fun e he => ?_, hdistinct, hline⟩, heq⟩
  rw [hid]
  refine lt_nextId (e := (e, entryJson e)) ?_
  rw [withLines_append]
  exact List.mem_map_of_mem (List.mem_append.mpr he)

theorem admits_notMem {entry : InfiniteEntry} (h : Admits casefold live retired entry) :
    entry ∉ live ∧ entry ∉ retired :=
  ⟨fun hmem => Int.lt_irrefl _ (h.above entry (Or.inl hmem)),
    fun hmem => Int.lt_irrefl _ (h.above entry (Or.inr hmem))⟩

theorem count_moved (entry e : InfiniteEntry) (live retired : List InfiniteEntry) :
    (live.filter fun e => !replaced entry e).count e + (retired ++ movedBy entry live).count e
      = live.count e + retired.count e := by
  have hperm := (List.filter_append_perm (replaced entry) live).count_eq e
  rw [List.count_append] at hperm
  rw [List.count_append, movedBy]
  omega

theorem kept_committed {entry : InfiniteEntry}
    (h : Kept casefold run live retired) (hadmits : Admits casefold live retired entry)
    (hentries : files.entries = unlines ((liveAfter entry live).map entryJson))
    (hsuperseded : files.superseded = unlines ((retired ++ movedBy entry live).map entryJson)) :
    Kept casefold { run with files, committed := run.committed ++ [entry] } (liveAfter entry live)
      (retired ++ movedBy entry live) := by
  obtain ⟨hlive, hretired⟩ := admits_notMem hadmits
  have hnew : entry ∉ run.committed := fun hmem =>
    (h.covered entry hmem).elim hlive hretired
  refine ⟨hentries, hsuperseded, ?_, ?_, ?_, ?_, ?_, ?_, ?_⟩
  · exact (List.filter_sublist.trans h.live_sublist).append (List.Sublist.refl _)
  · intro e he
    rcases List.mem_append.mp he with he | he
    · exact List.mem_append_left _ (h.retired_subset he)
    · exact List.mem_append_left _ (h.live_sublist.subset (List.mem_of_mem_filter he))
  · intro e he
    rcases List.mem_append.mp he with he | he
    · rcases h.covered e he with hmem | hmem
      · by_cases hrep : replaced entry e = true
        · exact Or.inr (List.mem_append_right _ (List.mem_filter.mpr ⟨hmem, hrep⟩))
        · exact Or.inl (List.mem_append_left _ (List.mem_filter.mpr ⟨hmem, by simpa using hrep⟩))
      · exact Or.inr (List.mem_append_left _ hmem)
    · exact Or.inl (List.mem_append_right _ he)
  · intro e he hhalf
    have hcount := count_moved entry e live retired
    rw [liveAfter, List.count_append]
    rcases List.mem_append.mp he with he | he
    · have hne : e ≠ entry := fun heq => hnew (heq ▸ he)
      have honce := h.once e he hhalf
      rw [List.count_eq_zero_of_not_mem (by simpa using hne) (l := [entry])]
      omega
    · obtain rfl := List.mem_singleton.mp he
      rw [List.count_eq_zero_of_not_mem hlive, List.count_eq_zero_of_not_mem hretired] at hcount
      rw [List.count_singleton_self]
      omega
  · refine List.pairwise_append.mpr ⟨h.increasing, List.pairwise_singleton _ _, ?_⟩
    intro e he d hd
    obtain rfl := List.mem_singleton.mp hd
    exact hadmits.above e (h.covered e he)
  · refine List.pairwise_append.mpr
      ⟨h.distinct.sublist List.filter_sublist, List.pairwise_singleton _ _, ?_⟩
    intro e he d hd
    obtain rfl := List.mem_singleton.mp hd
    exact hadmits.distinct e (List.mem_of_mem_filter he)
  · intro e he
    rcases List.mem_append.mp he with he | he
    · exact h.utf8 e he
    · exact List.mem_singleton.mp he ▸ hadmits.utf8

theorem kept_halfMoved {entry : InfiniteEntry}
    (h : Kept casefold run live retired) (hentries : files.entries = run.files.entries)
    (hsuperseded : files.superseded = unlines ((retired ++ movedBy entry live).map entryJson)) :
    Kept casefold { run with files, halfMoved := run.halfMoved ++ movedBy entry live } live
      (retired ++ movedBy entry live) where
  entries := hentries.trans h.entries
  superseded := hsuperseded
  live_sublist := h.live_sublist
  retired_subset := by
    intro e he
    rcases List.mem_append.mp he with he | he
    · exact h.retired_subset he
    · exact h.live_sublist.subset (List.mem_of_mem_filter he)
  covered := fun e he => (h.covered e he).imp_right fun hmem => List.mem_append_left _ hmem
  once := by
    intro e he hhalf
    rw [List.mem_append, not_or] at hhalf
    rw [List.count_append, List.count_eq_zero_of_not_mem hhalf.2]
    exact h.once e he hhalf.1
  increasing := h.increasing
  distinct := h.distinct
  utf8 := h.utf8

theorem writeAll_commitWrites {entry : InfiniteEntry} (h : Kept casefold run live retired)
    (hadmits : Admits casefold live retired entry) :
    (∃ files, run.files.writeAll (commitWrites (withLines live) (withLines retired) entry).writes
        = (files, true) ∧
      files.entries = unlines ((liveAfter entry live).map entryJson) ∧
      files.superseded = unlines ((retired ++ movedBy entry live).map entryJson)) ∧
    (1 < (commitWrites (withLines live) (withLines retired) entry).writes.length →
      ∃ files, run.files.writeAll
          ((commitWrites (withLines live) (withLines retired) entry).writes.take 1) = (files, true) ∧
        files.entries = run.files.entries ∧
        files.superseded = unlines ((retired ++ movedBy entry live).map entryJson)) := by
  have hlines : ∀ es : List InfiniteEntry, (∀ e ∈ es, e = entry ∨ e ∈ run.committed) →
      Text.isUtf8 (unlines (es.map entryJson)) = true := by
    intro es hes
    apply Text.isUtf8_unlines
    intro l hl
    obtain ⟨e, he, rfl⟩ := List.mem_map.mp hl
    rcases hes e he with rfl | hmem
    · exact hadmits.utf8
    · exact h.utf8 e hmem
  have hentries : Text.isUtf8 (unlines ((liveAfter entry live).map entryJson)) = true := by
    apply hlines
    intro e he
    rcases List.mem_append.mp he with he | he
    · exact Or.inr (h.live_sublist.subset (List.mem_of_mem_filter he))
    · exact Or.inl (List.mem_singleton.mp he)
  have hsuperseded :
      Text.isUtf8 (unlines ((retired ++ movedBy entry live).map entryJson)) = true := by
    apply hlines
    intro e he
    rcases List.mem_append.mp he with he | he
    · exact Or.inr (h.retired_subset he)
    · exact Or.inr (h.live_sublist.subset (List.mem_of_mem_filter he))
  rw [commitWrites_withLines]
  by_cases hmoved : movedBy entry live = []
  · rw [if_pos hmoved, hmoved, List.append_nil]
    constructor
    · refine ⟨_, writeAll_of_utf8 (fun w hw => ?_) run.files, rfl, h.superseded⟩
      exact List.mem_singleton.mp hw ▸ hentries
    · intro hlen
      simp at hlen
  · rw [if_neg hmoved]
    constructor
    · refine ⟨_, writeAll_of_utf8 (fun w hw => ?_) run.files, rfl, rfl⟩
      rcases List.mem_cons.mp hw with rfl | hw
      · exact hsuperseded
      · exact List.mem_singleton.mp hw ▸ hentries
    · intro _
      refine ⟨_, writeAll_of_utf8 (fun w hw => ?_) run.files, rfl, rfl⟩
      exact List.mem_singleton.mp hw ▸ hsuperseded

theorem files_of_refused (h : Kept casefold run live retired) {refusal : CommitRefusal}
    (hrefused : (commitEntry casefold settings run.files call.others call.draft call.origin).2
      = .error refusal) :
    (commitEntry casefold settings run.files call.others call.draft call.origin).1 = run.files := by
  unfold commitEntry at *
  cases hplan : commitPlan casefold settings run.files call.others call.draft call.origin with
  | error r => rfl
  | ok plan =>
    obtain ⟨hadmits, hwrites⟩ := commitPlan_spec h hplan
    obtain ⟨⟨files, hall, -⟩, -⟩ := writeAll_commitWrites h hadmits
    rw [← hwrites] at hall
    simp only [hplan, hall] at hrefused
    cases hrefused

theorem step_kept (h : Kept casefold run live retired) (event : WorkspaceEvent) :
    ∃ live retired, Kept casefold (run.step casefold settings event) live retired := by
  cases event with
  | commit call =>
    rw [WorkspaceRun.step, commitEntry]
    cases hplan : commitPlan casefold settings run.files call.others call.draft call.origin with
    | error refusal => exact ⟨live, retired, h⟩
    | ok plan =>
      obtain ⟨hadmits, hwrites⟩ := commitPlan_spec h hplan
      obtain ⟨⟨files, hall, hentries, hsuperseded⟩, -⟩ := writeAll_commitWrites h hadmits
      rw [← hwrites] at hall
      simp only [hall]
      exact ⟨_, _, kept_committed h hadmits hentries hsuperseded⟩
  | crash call writes =>
    rw [WorkspaceRun.step]
    cases hplan : commitPlan casefold settings run.files call.others call.draft call.origin with
    | error refusal => exact ⟨live, retired, h⟩
    | ok plan =>
      obtain ⟨hadmits, hwrites⟩ := commitPlan_spec h hplan
      obtain ⟨⟨files, hall, hentries, hsuperseded⟩, hfirst⟩ := writeAll_commitWrites h hadmits
      rw [← hwrites] at hall hfirst
      dsimp only
      by_cases hdone : plan.writes.length ≤ writes
      · have hstop : ¬ (0 < writes ∧ writes < plan.writes.length) := by omega
        rw [if_pos hdone, if_neg hstop, List.take_of_length_le hdone, hall]
        exact ⟨_, _, kept_committed h hadmits hentries hsuperseded⟩
      · rw [if_neg hdone]
        by_cases hzero : writes = 0
        · have hstop : ¬ (0 < writes ∧ writes < plan.writes.length) := by omega
          rw [if_neg hstop, hzero]
          exact ⟨live, retired, h⟩
        · have hlen : plan.writes.length ≤ 2 := by
            rw [hwrites, commitWrites_withLines]
            dsimp only
            split <;> simp
          obtain rfl : writes = 1 := by omega
          have hmoved : plan.moved.map Prod.fst = movedBy plan.entry live := by
            rw [hwrites, commitWrites_withLines, map_fst_withLines]
          obtain ⟨files, hone, hentries, hsuperseded⟩ := hfirst (by omega)
          rw [if_pos (by omega), hone, hmoved]
          exact ⟨_, _, kept_halfMoved h hentries hsuperseded⟩
  | restart => exact ⟨live, retired, h⟩

theorem after_kept (casefold : Text → Text) (settings : InfiniteWorkspaceSettings)
    (events : List WorkspaceEvent) :
    ∃ live retired, Kept casefold (WorkspaceRun.after casefold settings events) live retired := by
  induction events using List.reverseRecOn with
  | nil => exact ⟨[], [], kept_start casefold⟩
  | append_singleton events event ih =>
    obtain ⟨live, retired, h⟩ := ih
    rw [WorkspaceRun.after, List.foldl_append]
    exact step_kept h event

theorem halfMoved_step_of_not_crash {event : WorkspaceEvent}
    (h : ∀ call writes, event ≠ .crash call writes) :
    (run.step casefold settings event).halfMoved = run.halfMoved := by
  cases event with
  | commit call =>
    rw [WorkspaceRun.step]
    split <;> rfl
  | crash call writes => exact absurd rfl (h call writes)
  | restart => rfl

theorem halfMoved_after (casefold : Text → Text) (settings : InfiniteWorkspaceSettings)
    (events : List WorkspaceEvent) (h : ∀ call writes, .crash call writes ∉ events) :
    (WorkspaceRun.after casefold settings events).halfMoved = [] := by
  induction events using List.reverseRecOn with
  | nil => rfl
  | append_singleton events event ih =>
    rw [WorkspaceRun.after, List.foldl_append]
    refine (halfMoved_step_of_not_crash fun call writes heq => ?_).trans
      (ih fun call writes hmem => h call writes (List.mem_append_left _ hmem))
    exact h call writes (by simp [heq])

end

/-! ### The files of a run -/

theorem lines_entries {es : List InfiniteEntry} {t : Text} (h : t = unlines (es.map entryJson)) :
    lines t = es.map entryJson := by
  have hline : ∀ l ∈ es.map entryJson, newline ∉ l := by
    intro l hl hmem
    obtain ⟨e, -, rfl⟩ := List.mem_map.mp hl
    exact absurd (le_of_mem_entryJson hmem) (by decide)
  have := lines_unlines hline (List.not_mem_nil (a := newline))
  simpa [h] using this

/-- Whatever commits, crashes and restarts a workspace has seen: ids grow with every commit; no two
live entries have the same text up to case and spacing; each committed line stands in one of the two
files, and in one place of one only, unless a crash between two writes left it in both; and a
refused commit changes neither file. -/
theorem committed_entries_kept (casefold : Text → Text) (settings : InfiniteWorkspaceSettings)
    (events : List WorkspaceEvent) :
    let run := WorkspaceRun.after casefold settings events
    (run.committed.Pairwise fun d e => d.id < e.id) ∧
      (∃ live, readEntries run.files .entries = .ok (withLines live) ∧
        live.Pairwise fun d e =>
          normalText casefold d.draft.text ≠ normalText casefold e.draft.text) ∧
      (∀ e ∈ run.committed,
        entryJson e ∈ lines run.files.entries ∨ entryJson e ∈ lines run.files.superseded) ∧
      (∀ e ∈ run.committed, e ∉ run.halfMoved →
        (lines run.files.entries).count (entryJson e)
          + (lines run.files.superseded).count (entryJson e) = 1) ∧
      ((∀ call writes, .crash call writes ∉ events) → run.halfMoved = []) ∧
      ∀ (call : CommitCall) (refusal : CommitRefusal),
        (commitEntry casefold settings run.files call.others call.draft call.origin).2
          = .error refusal →
        (commitEntry casefold settings run.files call.others call.draft call.origin).1
          = run.files := by
  intro run
  obtain ⟨live, retired, h⟩ := after_kept casefold settings events
  refine ⟨h.increasing, ⟨live, readEntries_of h.entries, h.distinct⟩, ?_, ?_,
    halfMoved_after casefold settings events, fun _ _ => files_of_refused h⟩
  · intro e he
    rw [lines_entries h.entries, lines_entries h.superseded]
    exact (h.covered e he).imp List.mem_map_of_mem List.mem_map_of_mem
  · intro e he hhalf
    have hinj : Function.Injective entryJson := fun _ _ => entryJson_injective
    rw [lines_entries h.entries, lines_entries h.superseded, List.count_map_of_injective _ _ hinj,
      List.count_map_of_injective _ _ hinj]
    exact h.once e he hhalf

end VidbyteSdk.Agents.Infinite

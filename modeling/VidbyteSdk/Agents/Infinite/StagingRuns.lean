import VidbyteSdk.Agents.Infinite.Staging
import VidbyteSdk.Agents.Infinite.WorkspaceRuns

/-!
# Runs of a pair

Whatever the files hold, a commit adds one id to those in them, above all the others, and a commit
that stops between its writes adds none. So the ids that are there because of a pair are those on
its committed list; and that list, the dropped list and the staged one always share out everything
that was ever staged.
-/

namespace VidbyteSdk.Agents.Infinite

open VidbyteSdk.Lib

/-! ### The ids in the files -/

structure IsEntryLine (e : InfiniteEntry × Text) : Prop where
  newline : newline ∉ e.2
  return_ : (0x0D : CodePoint) ∉ e.2
  blank : Text.isBlank e.2 = false
  reads : entryOfLine e.2 = some e.1

theorem isEntryLine_entryJson (entry : InfiniteEntry) : IsEntryLine (entry, entryJson entry) where
  newline := fun h => absurd (le_of_mem_entryJson h) (by decide)
  return_ := fun h => absurd (le_of_mem_entryJson h) (by decide)
  blank := isBlank_entryJson entry
  reads := entryOfLine_entryJson entry

variable {found : List (InfiniteEntry × Text)} {file : EntryFile}

theorem isEntryLine_of_entryLines {number : Nat} {raws : List Text}
    (h : entryLines file number raws = .ok found)
    (hraws : ∀ raw ∈ raws, newline ∉ raw ∧ (0x0D : CodePoint) ∉ raw) :
    ∀ e ∈ found, IsEntryLine e := by
  induction raws generalizing number found with
  | nil =>
    cases h
    exact fun e he => absurd he List.not_mem_nil
  | cons raw raws ih =>
    obtain ⟨⟨hnewline, hreturn⟩, hrest⟩ := List.forall_mem_cons.mp hraws
    unfold entryLines at h
    simp only [Text.rstripReturn_of_notMem hreturn] at h
    split at h
    · exact ih h hrest
    next hblank =>
    split at h
    · cases h
    next entry hentry =>
    cases hlines : entryLines file (number + 1) raws with
    | error refusal =>
      rw [hlines] at h
      cases h
    | ok rest =>
      rw [hlines] at h
      obtain rfl := Except.ok.inj h
      exact List.forall_mem_cons.mpr
        ⟨⟨hnewline, hreturn, Bool.not_eq_true _ ▸ hblank, hentry⟩, ih hlines hrest⟩

theorem isEntryLine_of_readEntries {files : EntryFiles}
    (h : readEntries files file = .ok found) :
    ∀ e ∈ found, IsEntryLine e :=
  isEntryLine_of_entryLines h fun _ hraw => ⟨newline_notMem_of_mem_lines hraw,
    fun hmem => return_notMem_universalNewlines _ (mem_of_mem_lines hraw hmem)⟩

variable {es : List (InfiniteEntry × Text)}

theorem entryLines_of_isEntryLine (hes : ∀ e ∈ es, IsEntryLine e) (file : EntryFile) (number : Nat) :
    entryLines file number (es.map Prod.snd) = .ok es := by
  induction es generalizing number with
  | nil => rfl
  | cons e es ih =>
    obtain ⟨he, hrest⟩ := List.forall_mem_cons.mp hes
    rw [List.map_cons, entryLines, Text.rstripReturn_of_notMem he.return_, he.blank, he.reads,
      ih hrest]
    rfl

theorem readEntries_unlines {files : EntryFiles}
    (hes : ∀ e ∈ es, IsEntryLine e)
    (h : files.text file = unlines (es.map Prod.snd)) : readEntries files file = .ok es := by
  have hline : ∀ l ∈ es.map Prod.snd, newline ∉ l := by
    intro l hl
    obtain ⟨e, he, rfl⟩ := List.mem_map.mp hl
    exact (hes e he).newline
  have hreturn : (0x0D : CodePoint) ∉ unlines (es.map Prod.snd) := by
    intro hmem
    obtain ⟨l, hl, hc⟩ := List.mem_flatMap.mp hmem
    obtain ⟨e, he, rfl⟩ := List.mem_map.mp hl
    rcases List.mem_append.mp hc with hc | hc
    · exact (hes e he).return_ hc
    · exact absurd (List.mem_singleton.mp hc) (by decide)
  have hlines := lines_unlines hline (List.not_mem_nil (a := newline))
  rw [List.append_nil, if_pos rfl, List.append_nil] at hlines
  rw [readEntries, h, universalNewlines_of_notMem hreturn, hlines, entryLines_of_isEntryLine hes]

def fileIds (files : EntryFiles) (file : EntryFile) : List Int :=
  match readEntries files file with
  | .error _ => []
  | .ok found => found.map fun e => e.1.id

def idsIn (files : EntryFiles) : List Int := fileIds files .entries ++ fileIds files .superseded

theorem fileIds_of_ok {files : EntryFiles}
    (h : readEntries files file = .ok found) :
    fileIds files file = found.map fun e => e.1.id := by
  rw [fileIds, h]

@[simp] theorem text_replace_self (files : EntryFiles) (content : Text) (file : EntryFile) :
    (files.replace content file).text file = content := by
  cases file <;> rfl

theorem readEntries_replace_of_ne {files : EntryFiles} {content : Text} {file other : EntryFile}
    (h : other ≠ file) : readEntries (files.replace content file) other = readEntries files other := by
  cases file <;> cases other <;> first | rfl | exact absurd rfl h

theorem readEntries_replace_self {files : EntryFiles}
    (hes : ∀ e ∈ es, IsEntryLine e) :
    readEntries (files.replace (unlines (es.map Prod.snd)) file) file = .ok es :=
  readEntries_unlines hes (text_replace_self _ _ _)

section

variable {casefold : Text → Text} {settings : InfiniteWorkspaceSettings} {files : EntryFiles}
  {others : List Nat} {draft : InfiniteEntryDraft} {origin : Provenance} {plan : CommitPlan}

/-- What a commit's writes do to the ids: all of them add the new one, and less than all of them
none. -/
structure CommitIds (files : EntryFiles) (plan : CommitPlan) : Prop where
  fresh : ∀ id ∈ idsIn files, id < plan.entry.id
  whole : (files.writeAll plan.writes).2 = true → ∀ id,
    id ∈ idsIn (files.writeAll plan.writes).1 ↔ id ∈ idsIn files ∨ id = plan.entry.id
  failed : (files.writeAll plan.writes).2 = false → ∀ id,
    id ∈ idsIn (files.writeAll plan.writes).1 ↔ id ∈ idsIn files
  cut : ∀ n < plan.writes.length, ∀ id,
    id ∈ idsIn (files.writeAll (plan.writes.take n)).1 ↔ id ∈ idsIn files

theorem commitIds_of_writes {entry : InfiniteEntry} {kept moved : Text}
    (hfresh : ∀ id ∈ idsIn files, id < entry.id)
    (hmoved : ∀ id, id ∈ idsIn (files.replace moved .superseded) ↔ id ∈ idsIn files)
    (hkept : ∀ id, id ∈ idsIn ((files.replace moved .superseded).replace kept .entries)
      ↔ id ∈ idsIn files ∨ id = entry.id) (es : List (InfiniteEntry × Text)) :
    CommitIds files ⟨entry, es, [(.superseded, moved), (.entries, kept)]⟩ := by
  have hfirst : files.writeText .superseded moved
      = if Text.isUtf8 moved then some (files.replace moved .superseded) else none := rfl
  have hsecond : (files.replace moved .superseded).writeText .entries kept
      = if Text.isUtf8 kept then some ((files.replace moved .superseded).replace kept .entries)
        else none := rfl
  refine ⟨hfresh, ?_, ?_, ?_⟩
  · intro hall
    simp only [EntryFiles.writeAll, hfirst] at hall ⊢
    by_cases hm : Text.isUtf8 moved = true
    · simp only [if_pos hm, hsecond] at hall ⊢
      by_cases hk : Text.isUtf8 kept = true
      · simpa only [if_pos hk] using hkept
      · simp [if_neg hk] at hall
    · simp [if_neg hm] at hall
  · intro hall
    simp only [EntryFiles.writeAll, hfirst] at hall ⊢
    by_cases hm : Text.isUtf8 moved = true
    · simp only [if_pos hm, hsecond] at hall ⊢
      by_cases hk : Text.isUtf8 kept = true
      · simp [if_pos hk] at hall
      · simpa only [if_neg hk] using hmoved
    · simp [if_neg hm]
  · intro n hn
    simp only [List.length_cons, List.length_nil] at hn
    obtain rfl | rfl : n = 0 ∨ n = 1 := by omega
    · exact fun _ => Iff.rfl
    · simp only [List.take_succ_cons, List.take_zero, EntryFiles.writeAll, hfirst]
      by_cases hm : Text.isUtf8 moved = true
      · simpa only [if_pos hm] using hmoved
      · simp [if_neg hm]

theorem commitIds_of_write {entry : InfiniteEntry} {kept : Text}
    (hfresh : ∀ id ∈ idsIn files, id < entry.id)
    (hkept : ∀ id, id ∈ idsIn (files.replace kept .entries) ↔ id ∈ idsIn files ∨ id = entry.id)
    (es : List (InfiniteEntry × Text)) : CommitIds files ⟨entry, es, [(.entries, kept)]⟩ := by
  have hwrite : files.writeText .entries kept
      = if Text.isUtf8 kept then some (files.replace kept .entries) else none := rfl
  refine ⟨hfresh, ?_, ?_, ?_⟩
  · intro hall
    simp only [EntryFiles.writeAll, hwrite] at hall ⊢
    by_cases hk : Text.isUtf8 kept = true
    · simpa only [if_pos hk] using hkept
    · simp [if_neg hk] at hall
  · intro hall
    simp only [EntryFiles.writeAll, hwrite] at hall ⊢
    by_cases hk : Text.isUtf8 kept = true
    · simp [if_pos hk] at hall
    · simp [if_neg hk]
  · intro n hn
    simp only [List.length_cons, List.length_nil] at hn
    obtain rfl : n = 0 := by omega
    exact fun _ => Iff.rfl

theorem commitIds (h : commitPlan casefold settings files others draft origin = .ok plan) :
    CommitIds files plan := by
  obtain ⟨live, retired, hlive, hretired, -, hid, -, -, -, heq⟩ := commitPlan_ok h
  generalize plan.entry = entry at hid heq
  subst heq
  have hlines := isEntryLine_of_readEntries hlive
  have hold := isEntryLine_of_readEntries hretired
  have hids : idsIn files = (live ++ retired).map fun e => e.1.id := by
    rw [idsIn, fileIds_of_ok hlive, fileIds_of_ok hretired, List.map_append]
  have hfresh : ∀ id ∈ idsIn files, id < entry.id := by
    intro id hmem
    rw [hids] at hmem
    obtain ⟨e, he, rfl⟩ := List.mem_map.mp hmem
    rw [hid]
    exact lt_nextId he
  have hkeptLines : ∀ e ∈ (live.filter fun e => some e.1.id ≠ entry.draft.supersedes)
      ++ [(entry, entryJson entry)], IsEntryLine e := by
    intro e he
    rcases List.mem_append.mp he with he | he
    · exact hlines e (List.mem_of_mem_filter he)
    · obtain rfl := List.mem_singleton.mp he
      exact isEntryLine_entryJson entry
  have hmovedLines : ∀ e ∈ retired ++ live.filter fun e => some e.1.id = entry.draft.supersedes,
      IsEntryLine e := by
    intro e he
    rcases List.mem_append.mp he with he | he
    · exact hold e he
    · exact hlines e (List.mem_of_mem_filter he)
  have hkeptText : unlines ((live.filter fun e => some e.1.id ≠ entry.draft.supersedes).map Prod.snd
      ++ [entryJson entry]) = unlines (((live.filter fun e =>
        some e.1.id ≠ entry.draft.supersedes) ++ [(entry, entryJson entry)]).map Prod.snd) := by
    rw [List.map_append]
    rfl
  have hmovedText : unlines (retired.map Prod.snd)
      ++ unlines ((live.filter fun e => some e.1.id = entry.draft.supersedes).map Prod.snd)
      = unlines ((retired ++ live.filter fun e =>
        some e.1.id = entry.draft.supersedes).map Prod.snd) := by
    rw [List.map_append, unlines_append]
  simp only [commitWrites, hkeptText, hmovedText]
  split
  · next hnone =>
    -- nothing moves, so what is kept is everything that was live
    have hall : (live.filter fun e => some e.1.id ≠ entry.draft.supersedes) = live := by
      rw [List.filter_eq_self]
      intro e he
      rw [List.isEmpty_iff, List.filter_eq_nil_iff] at hnone
      simpa using hnone e he
    refine commitIds_of_write hfresh (fun id => ?_) _
    rw [idsIn, fileIds_of_ok (readEntries_replace_self hkeptLines), fileIds_of_ok
      ((readEntries_replace_of_ne (by decide)).trans hretired), hids, hall]
    simp only [List.map_append, List.mem_append, List.map_cons, List.map_nil, List.mem_singleton]
    tauto
  · have hsplit : ∀ id, id ∈ live.map (fun e => e.1.id)
        ↔ id ∈ (live.filter fun e => some e.1.id ≠ entry.draft.supersedes).map (fun e => e.1.id)
          ∨ id ∈ (live.filter fun e => some e.1.id = entry.draft.supersedes).map fun e => e.1.id := by
      intro id
      simp only [List.mem_map, List.mem_filter, decide_eq_true_eq]
      constructor
      · rintro ⟨e, he, rfl⟩
        by_cases hmove : some e.1.id = entry.draft.supersedes
        · exact .inr ⟨e, ⟨he, hmove⟩, rfl⟩
        · exact .inl ⟨e, ⟨he, hmove⟩, rfl⟩
      · rintro (⟨e, ⟨he, -⟩, rfl⟩ | ⟨e, ⟨he, -⟩, rfl⟩)
        · exact ⟨e, he, rfl⟩
        · exact ⟨e, he, rfl⟩
    refine commitIds_of_writes hfresh (fun id => ?_) (fun id => ?_) _
    · rw [idsIn, fileIds_of_ok (readEntries_replace_self hmovedLines), fileIds_of_ok
        ((readEntries_replace_of_ne (by decide)).trans hlive), hids]
      simp only [List.map_append, List.mem_append, hsplit]
      tauto
    · rw [idsIn, fileIds_of_ok (readEntries_replace_self hkeptLines), fileIds_of_ok
        ((readEntries_replace_of_ne (by decide)).trans (readEntries_replace_self hmovedLines)), hids]
      simp only [List.map_append, List.mem_append, List.map_cons, List.map_nil, List.mem_singleton,
        hsplit]
      tauto

end

/-! ### The lists of a pair -/

theorem stagedKey_injective {m n : Nat} (h : stagedKey m = stagedKey n) : m = n := by
  have hdigits := List.append_cancel_left h
  rw [← Json.ofDigits_digitsOf m, hdigits, Json.ofDigits_digitsOf]

/-- What holds of a pair's lists and of the ids in the files. -/
structure Sorted (start : EntryFiles) (state : StagingState) : Prop where
  keys : state.history.map (·.key)
    = (List.range state.history.length).map fun i => stagedKey (i + 1)
  split : (state.committed.map (·.stagedKey) ++ state.dropped.map (·.key)
    ++ state.staged.map (·.key)).Perm (state.history.map (·.key))
  ids : ∀ id, id ∈ idsIn state.files ↔
    id ∈ idsIn start ∨ id ∈ state.others ∨ id ∈ state.committed.map (·.entryId)
  own : ∀ id ∈ state.committed.map (·.entryId), id ∉ idsIn start ∧ id ∉ state.others

namespace Sorted

variable {setup : PairSetup} {start : EntryFiles} {state : StagingState}

theorem nodup_keys (h : Sorted start state) : (state.history.map (·.key)).Nodup := by
  rw [h.keys]
  refine List.Nodup.map_on (fun m _ n _ hmn => ?_) List.nodup_range
  have := stagedKey_injective hmn
  omega

theorem begin (files : EntryFiles) : Sorted files (.start files) where
  keys := rfl
  split := List.Perm.refl _
  ids := by simp [StagingState.start]
  own := by simp [StagingState.start]

theorem otherWrite (h : Sorted start state) (write : OtherWrite) :
    Sorted start (state.otherWrite setup write) := by
  have hsame : ∀ files : EntryFiles, (∀ id, id ∈ idsIn files ↔ id ∈ idsIn state.files) →
      Sorted start { state with files := files } := fun files hids =>
    ⟨h.keys, h.split, fun id => (hids id).trans (h.ids id), h.own⟩
  have hadds : ∀ (files : EntryFiles) (new : Int), (∀ id ∈ idsIn state.files, id < new) →
      (∀ id, id ∈ idsIn files ↔ id ∈ idsIn state.files ∨ id = new) →
      Sorted start { state with files := files, others := state.others ++ [new] } := by
    intro files new hfresh hids
    refine ⟨h.keys, h.split, fun id => ?_, fun id hid => ?_⟩
    · simp only [hids, h.ids, List.mem_append, List.mem_singleton]
      tauto
    · obtain ⟨hstart, hothers⟩ := h.own id hid
      have hlt := hfresh id ((h.ids id).mpr (.inr (.inr hid)))
      refine ⟨hstart, ?_⟩
      simp only [List.mem_append, List.mem_singleton, not_or]
      exact ⟨hothers, by omega⟩
  cases write with
  | commit call =>
    cases hplan : commitPlan setup.casefold setup.settings state.files call.others call.draft
        call.origin with
    | error refusal =>
      simp only [StagingState.otherWrite, commitEntry, hplan]
      exact h
    | ok plan =>
      have hids := commitIds hplan
      cases hall : state.files.writeAll plan.writes with
      | mk files done =>
        have hwhole := hids.whole
        have hfailed := hids.failed
        rw [hall] at hwhole hfailed
        simp only [StagingState.otherWrite, commitEntry, hplan, hall]
        cases done with
        | true => exact hadds files _ hids.fresh (hwhole rfl)
        | false => exact hsame files (hfailed rfl)
  | cut call writes =>
    cases hplan : commitPlan setup.casefold setup.settings state.files call.others call.draft
        call.origin with
    | error refusal =>
      simp only [StagingState.otherWrite, hplan]
      exact h
    | ok plan =>
      have hids := commitIds hplan
      simp only [StagingState.otherWrite, hplan]
      by_cases hlen : writes < plan.writes.length
      · rw [if_pos hlen]
        exact hsame _ (hids.cut writes hlen)
      · rw [if_neg hlen]
        exact h

theorem otherWrites (h : Sorted start state) (writes : List OtherWrite) :
    Sorted start (writes.foldl (StagingState.otherWrite setup) state) := by
  induction writes generalizing state with
  | nil => exact h
  | cons write writes ih => exact ih (h.otherWrite write)

end Sorted

section

variable {setup : PairSetup} {start : EntryFiles} {state : StagingState}

theorem lists_otherWrite (write : OtherWrite) :
    (state.otherWrite setup write).staged = state.staged ∧
      (state.otherWrite setup write).committed = state.committed := by
  cases write with
  | commit call =>
    cases hcommit : commitEntry setup.casefold setup.settings state.files call.others call.draft
        call.origin with
    | mk files result =>
      simp only [StagingState.otherWrite, hcommit]
      cases result with
      | ok entry => exact ⟨rfl, rfl⟩
      | error refusal => exact ⟨rfl, rfl⟩
  | cut call writes =>
    cases hplan : commitPlan setup.casefold setup.settings state.files call.others call.draft
        call.origin with
    | error refusal =>
      have hstay : state.otherWrite setup (.cut call writes) = state := by
        simp only [StagingState.otherWrite, hplan]
      rw [hstay]
      exact ⟨rfl, rfl⟩
    | ok plan =>
      simp only [StagingState.otherWrite, hplan]
      by_cases hlen : writes < plan.writes.length
      · rw [if_pos hlen]
        exact ⟨rfl, rfl⟩
      · rw [if_neg hlen]
        exact ⟨rfl, rfl⟩

theorem staged_otherWrites (writes : List OtherWrite) :
    (writes.foldl (StagingState.otherWrite setup) state).staged = state.staged := by
  induction writes generalizing state with
  | nil => rfl
  | cons write writes ih => rw [List.foldl_cons, ih, (lists_otherWrite write).1]

theorem perm_keys_erase {item : InfiniteStagedEntry} (hmem : item ∈ state.staged)
    (keys : List Text) : (keys ++ [item.key] ++ (state.staged.erase item).map (·.key)).Perm
      (keys ++ state.staged.map (·.key)) := by
  rw [List.append_assoc]
  exact ((List.perm_cons_erase hmem).symm.map (·.key)).append_left keys

theorem Sorted.remember (h : Sorted start state) (hnone : state.committed = [])
    (author : Utf8Text) (draft : InfiniteEntryDraft) (readable : Bool) :
    Sorted start (state.remember setup author draft readable) := by
  unfold StagingState.remember
  split
  · exact h
  · have hlen : state.staged.length + state.dropped.length = state.history.length := by
      have hperm := h.split.length_eq
      simp only [hnone, List.map_nil, List.nil_append, List.length_append, List.length_map] at hperm
      omega
    refine ⟨?_, ?_, h.ids, h.own⟩
    · simp only [List.map_append, List.map_cons, List.map_nil, List.length_append,
        List.length_singleton, List.range_succ, h.keys, hlen]
    · simp only [List.map_append, List.map_cons, List.map_nil, ← List.append_assoc]
      exact h.split.append_right _

theorem Sorted.drop (h : Sorted start state) (key : Text) : Sorted start (state.drop key) := by
  unfold StagingState.drop
  split
  · exact h
  · next item hfind =>
    have hmem := List.mem_of_find?_eq_some hfind
    refine ⟨h.keys, ?_, h.ids, h.own⟩
    have hperm := perm_keys_erase hmem
      (state.committed.map (·.stagedKey) ++ state.dropped.map (·.key))
    simp only [List.map_append, List.map_cons, List.map_nil, ← List.append_assoc]
    exact hperm.trans h.split

theorem committed_memoryCall (verifier : Bool) (call : MemoryCall) :
    (state.memoryCall setup verifier call).committed = state.committed := by
  cases call with
  | remember draft readable =>
    simp only [StagingState.memoryCall, StagingState.remember]
    split
    · rfl
    · rfl
  | drop key =>
    simp only [StagingState.memoryCall, StagingState.drop]
    split
    · split
      · rfl
      · rfl
    · rfl
  | other write => exact (lists_otherWrite write).2

theorem Sorted.memoryCall (h : Sorted start state) (hnone : state.committed = [])
    (verifier : Bool) (call : MemoryCall) :
    Sorted start (state.memoryCall setup verifier call) := by
  cases call with
  | remember draft readable => exact h.remember hnone _ draft readable
  | drop key =>
    simp only [StagingState.memoryCall]
    split
    · exact h.drop key
    · exact h
  | other write => exact h.otherWrite write

theorem Sorted.memoryCalls (h : Sorted start state) (hnone : state.committed = [])
    (verifier : Bool) (calls : List MemoryCall) :
    Sorted start (calls.foldl (StagingState.memoryCall setup verifier) state) ∧
      (calls.foldl (StagingState.memoryCall setup verifier) state).committed = [] := by
  induction calls generalizing state with
  | nil => exact ⟨h, hnone⟩
  | cons call calls ih =>
    exact ih (h.memoryCall hnone verifier call) ((committed_memoryCall verifier call).trans hnone)

/-! ### The commit loop -/

variable (setup) in
theorem commitUnder_ids (files : EntryFiles) (attempt : CommitAttempt) (draft : InfiniteEntryDraft)
    (origin : Provenance) :
    match commitUnder setup files attempt draft origin with
    | (files', .ok entry) => (∀ id ∈ idsIn files, id < entry.id) ∧
        ∀ id, id ∈ idsIn files' ↔ id ∈ idsIn files ∨ id = entry.id
    | (files', .error _) => ∀ id, id ∈ idsIn files' ↔ id ∈ idsIn files := by
  by_cases hreadable : attempt.readable = false
  · simp [commitUnder, hreadable]
  rw [Bool.not_eq_false] at hreadable
  cases hplan : commitPlan setup.casefold setup.settings files attempt.others draft origin with
  | error refusal => simp [commitUnder, hreadable, hplan]
  | ok plan =>
    have hids := commitIds hplan
    simp only [commitUnder, hreadable, Bool.not_true, Bool.false_eq_true, if_false, hplan]
    cases hcut : attempt.refusedWrite.filter fun n => n < plan.writes.length with
    | some n =>
      have hn : n < plan.writes.length := of_decide_eq_true (Option.filter_eq_some_iff.mp hcut).2
      exact hids.cut n hn
    | none =>
      have hwhole := hids.whole
      have hfailed := hids.failed
      cases hall : files.writeAll plan.writes with
      | mk files' done =>
        rw [hall] at hwhole hfailed
        cases done with
        | true => exact ⟨hids.fresh, hwhole rfl⟩
        | false => exact hfailed rfl

variable (setup) in
theorem Sorted.commitItem (h : Sorted start state) {item : InfiniteStagedEntry}
    {rest : List InfiniteStagedEntry} (hstaged : state.staged = item :: rest)
    (attempt : CommitAttempt) :
    Sorted start (state.commitItem setup attempt item).1 ∧
      ((state.commitItem setup attempt item).2 = none →
        (state.commitItem setup attempt item).1.staged = rest) := by
  have hbefore : Sorted start (attempt.before.foldl (StagingState.otherWrite setup) state) :=
    h.otherWrites attempt.before
  have hitems : (attempt.before.foldl (StagingState.otherWrite setup) state).staged = item :: rest :=
    (staged_otherWrites attempt.before).trans hstaged
  unfold StagingState.commitItem
  generalize attempt.before.foldl (StagingState.otherWrite setup) state = state at hbefore hitems ⊢
  have hmem : item ∈ state.staged := hitems ▸ List.mem_cons_self
  have herase : state.staged.erase item = rest := by
    rw [hitems, List.erase_cons_head]
  have hids := commitUnder_ids setup state.files attempt item.draft
    ⟨item.author, some setup.verifierKey, setup.runId, attempt.stamp⟩
  have hsame : ∀ files : EntryFiles, (∀ id, id ∈ idsIn files ↔ id ∈ idsIn state.files) →
      Sorted start { state with files := files } := fun files hids =>
    ⟨hbefore.keys, hbefore.split, fun id => (hids id).trans (hbefore.ids id), hbefore.own⟩
  have hdropped := perm_keys_erase hmem
    (state.committed.map (·.stagedKey) ++ state.dropped.map (·.key))
  cases hcommit : commitUnder setup state.files attempt item.draft
      ⟨item.author, some setup.verifierKey, setup.runId, attempt.stamp⟩ with
  | mk files result =>
    rw [hcommit] at hids
    simp only [hcommit]
    cases result with
    | ok entry =>
      obtain ⟨hfresh, hadded⟩ := hids
      refine ⟨⟨hbefore.keys, ?_, fun id => ?_, fun id hid => ?_⟩, fun _ => herase⟩
      · have hmove : (state.committed.map (·.stagedKey) ++ [item.key] ++ state.dropped.map (·.key)
            ++ (state.staged.erase item).map (·.key)).Perm
            (state.committed.map (·.stagedKey) ++ state.dropped.map (·.key) ++ [item.key]
              ++ (state.staged.erase item).map (·.key)) := by
          simp only [List.append_assoc]
          refine List.Perm.append_left _ ?_
          simp only [← List.append_assoc]
          exact List.perm_append_comm.append_right _
        simp only [List.map_append, List.map_cons, List.map_nil]
        exact hmove.trans (hdropped.trans hbefore.split)
      · simp only [hadded, hbefore.ids, List.map_append, List.map_cons, List.map_nil,
          List.mem_append, List.mem_singleton]
        tauto
      · simp only [List.map_append, List.map_cons, List.map_nil, List.mem_append,
          List.mem_singleton] at hid
        rcases hid with hid | rfl
        · exact hbefore.own id hid
        · have hnew : entry.id ∉ idsIn state.files := fun hmem => by
            have := hfresh entry.id hmem
            omega
          rw [hbefore.ids] at hnew
          exact ⟨fun hstart => hnew (.inl hstart), fun hother => hnew (.inr (.inl hother))⟩
    | error failure =>
      cases failure with
      | disk => exact ⟨hsame files hids, nofun⟩
      | refused refusal =>
        simp only
        split
        · refine ⟨⟨hbefore.keys, ?_, fun id => (hids id).trans (hbefore.ids id), hbefore.own⟩,
            fun _ => herase⟩
          simp only [List.map_append, List.map_cons, List.map_nil, ← List.append_assoc]
          exact hdropped.trans hbefore.split
        · exact ⟨hsame files hids, nofun⟩

variable (setup) in
theorem Sorted.commitAll (attempts : Nat → CommitAttempt) (items : List InfiniteStagedEntry)
    (h : Sorted start state) (hstaged : state.staged = items) (turn : Nat) :
    Sorted start (StagingState.commitAll setup attempts state turn items).1 := by
  induction items generalizing state turn with
  | nil => exact h
  | cons item rest ih =>
    obtain ⟨hsorted, hrest⟩ := h.commitItem setup hstaged (attempts turn)
    unfold StagingState.commitAll
    cases hitem : state.commitItem setup (attempts turn) item with
    | mk next error =>
      rw [hitem] at hsorted hrest
      cases error with
      | none => exact ih hsorted (hrest rfl) (turn + 1)
      | some error => exact hsorted

theorem Sorted.finish (h : Sorted start state) (verdict : InfiniteVerdict) :
    Sorted start (state.finish verdict) := by
  refine ⟨h.keys, ?_, h.ids, h.own⟩
  simp only [StagingState.finish, List.map_append, List.map_map, List.map_nil, List.append_nil]
  exact (List.append_assoc _ _ _).symm ▸ h.split

/-! ### A run -/

theorem sorted_generated (setup : PairSetup) (script : PairScript) (files : EntryFiles) :
    Sorted files (script.generated setup files) ∧
      (script.generated setup files).committed = [] :=
  (Sorted.begin files).memoryCalls rfl false script.generator

theorem sorted_reviewed (setup : PairSetup) (script : PairScript) (files : EntryFiles) :
    Sorted files (script.reviewed setup files) ∧
      (script.reviewed setup files).committed = [] := by
  obtain ⟨h, hnone⟩ := sorted_generated setup script files
  have hreset : Sorted files { script.generated setup files with accepted := 0 } :=
    ⟨h.keys, h.split, h.ids, h.own⟩
  exact hreset.memoryCalls hnone true script.verifier

theorem sorted_work (setup : PairSetup) (script : PairScript) (files : EntryFiles) :
    Sorted files (script.work setup files).1 := by
  have hgenerated := (sorted_generated setup script files).1
  have hreviewed := (sorted_reviewed setup script files).1
  have hcommitted := hreviewed.commitAll setup script.attempts _ rfl 0
  unfold PairScript.work
  split
  · exact hgenerated
  simp only
  split
  · exact hgenerated
  split
  · exact hreviewed
  split
  · exact hreviewed
  split
  · next state error hall =>
    rw [hall] at hcommitted
    exact hcommitted
  · next state hall =>
    rw [hall] at hcommitted
    exact hcommitted

/-- A card shares out what was ever staged: each entry is committed, with its id, or dropped, with its
line. The ids are those in the files that neither were there before nor are another agent's. -/
structure Conserved (start : EntryFiles) (recorded : PairScript.Recorded) : Prop where
  keys : (recorded.state.history.map (·.key)).Nodup
  split : (recorded.state.committed.map (·.stagedKey)
    ++ recorded.state.dropped.map (·.key)).Perm (recorded.state.history.map (·.key))
  entries : recorded.card.entries = recorded.state.committed.map (·.entryId)
  dropped : recorded.card.dropped = recorded.state.dropped.map PairScript.droppedLine
  ids : ∀ id, id ∈ recorded.card.entries ↔ id ∈ idsIn recorded.state.files ∧
    id ∉ idsIn start ∧ id ∉ recorded.state.others

theorem conserved_finish (setup : PairSetup) (script : PairScript) (report : PairReport)
    (h : Sorted start state) :
    ∀ recorded ∈ script.finish setup state report, Conserved start recorded := by
  intro recorded hmem
  have hfinished := h.finish report.verdict
  unfold PairScript.finish PairScript.card InfiniteResultCard.make at hmem
  split at hmem
  · simp only [Option.map_some, Option.toList_some, List.mem_singleton] at hmem
    subst hmem
    have hsplit := hfinished.split
    simp only [StagingState.finish, List.map_nil, List.append_nil] at hsplit
    refine ⟨hfinished.nodup_keys, hsplit, rfl, rfl, fun id => ?_⟩
    rw [hfinished.ids]
    constructor
    · exact fun hid => ⟨.inr (.inr hid), hfinished.own id hid⟩
    · rintro ⟨hid, hstart, hothers⟩
      exact (hid.resolve_left hstart).resolve_left hothers
  · cases hmem

theorem conserved_run (setup : PairSetup) (script : PairScript) (files : EntryFiles) :
    ∀ recorded ∈ script.run setup files, Conserved files recorded := by
  have hwork := sorted_work setup script files
  unfold PairScript.run
  split
  · next state report hresult =>
    rw [hresult] at hwork
    exact conserved_finish setup script report hwork
  · next state report hresult =>
    rw [hresult] at hwork
    have hfirst := conserved_finish setup script report hwork
    have hagain : ∀ error : Text, ∀ recorded ∈ script.finish setup (state.finish report.verdict)
        (PairScript.raised report.status report.summary error), Conserved files recorded :=
      fun error => conserved_finish setup script _ (hwork.finish report.verdict)
    split
    · exact hagain _
    · exact hfirst
    · intro recorded hmem
      rcases List.mem_append.mp hmem with hmem | hmem
      · exact hfirst recorded hmem
      · exact hagain _ recorded hmem

/-! ### Before the verdict -/

def otherFiles (setup : PairSetup) (files : EntryFiles) : OtherWrite → EntryFiles
  | .commit call =>
    (commitEntry setup.casefold setup.settings files call.others call.draft call.origin).1
  | .cut call writes =>
    match commitPlan setup.casefold setup.settings files call.others call.draft call.origin with
    | .error _ => files
    | .ok plan =>
      if writes < plan.writes.length then (files.writeAll (plan.writes.take writes)).1 else files

def otherWrites (calls : List MemoryCall) : List OtherWrite :=
  calls.filterMap fun call =>
    match call with
    | .other write => some write
    | _ => none

theorem files_otherWrite (write : OtherWrite) :
    (state.otherWrite setup write).files = otherFiles setup state.files write := by
  cases write with
  | commit call =>
    cases hcommit : commitEntry setup.casefold setup.settings state.files call.others call.draft
        call.origin with
    | mk files result =>
      simp only [StagingState.otherWrite, otherFiles, hcommit]
      cases result <;> rfl
  | cut call writes =>
    cases hplan : commitPlan setup.casefold setup.settings state.files call.others call.draft
        call.origin with
    | error refusal => simp only [StagingState.otherWrite, otherFiles, hplan]
    | ok plan =>
      simp only [StagingState.otherWrite, otherFiles, hplan]
      split
      · rfl
      · rfl

theorem files_memoryCalls (verifier : Bool) (calls : List MemoryCall) :
    (calls.foldl (StagingState.memoryCall setup verifier) state).files
      = (otherWrites calls).foldl (otherFiles setup) state.files := by
  induction calls generalizing state with
  | nil => rfl
  | cons call calls ih =>
    rw [List.foldl_cons, ih]
    cases call with
    | remember draft readable =>
      simp only [StagingState.memoryCall, StagingState.remember]
      split
      · rfl
      · rfl
    | drop key =>
      simp only [StagingState.memoryCall, StagingState.drop]
      split
      · split
        · rfl
        · rfl
      · rfl
    | other write =>
      rw [StagingState.memoryCall, files_otherWrite]
      rfl

def PairScript.isJudged (setup : PairSetup) (script : PairScript) : Bool :=
  match script.reply, script.review with
  | .ok (content, stop), .ok review =>
    replyStatus content stop ≠ .failed && setup.verdictOf review ≠ .unchecked
  | _, _ => false

theorem committed_work (setup : PairSetup) (script : PairScript) (files : EntryFiles)
    (h : script.isJudged setup = false) : (script.work setup files).1.committed = [] := by
  have hgenerated := (sorted_generated setup script files).2
  have hreviewed := (sorted_reviewed setup script files).2
  unfold PairScript.isJudged at h
  unfold PairScript.work
  cases hreply : script.reply with
  | error error => exact hgenerated
  | ok reply =>
    obtain ⟨content, stop⟩ := reply
    simp only
    by_cases hfailed : replyStatus content stop = .failed
    · rw [if_pos hfailed]
      exact hgenerated
    · rw [if_neg hfailed]
      cases hreview : script.review with
      | error error => exact hreviewed
      | ok review =>
        rw [hreply, hreview] at h
        have hverdict : setup.verdictOf review = .unchecked := by simpa [hfailed] using h
        simp only [if_pos hverdict]
        exact hreviewed

theorem entries_of_finish {report : PairReport} {script : PairScript}
    (hnone : state.committed = []) :
    ∀ recorded ∈ script.finish setup state report, recorded.card.entries = [] := by
  intro recorded hmem
  unfold PairScript.finish PairScript.card InfiniteResultCard.make at hmem
  split at hmem
  · simp only [Option.map_some, Option.toList_some, List.mem_singleton] at hmem
    rw [hmem]
    simp [StagingState.finish, hnone]
  · cases hmem

theorem entries_of_not_judged (setup : PairSetup) (script : PairScript) (files : EntryFiles)
    (h : script.isJudged setup = false) :
    ∀ recorded ∈ script.run setup files, recorded.card.entries = [] := by
  have hwork := committed_work setup script files h
  unfold PairScript.run
  split
  · next state report hresult =>
    rw [hresult] at hwork
    exact entries_of_finish hwork
  · next state report hresult =>
    rw [hresult] at hwork
    have hfirst : ∀ recorded ∈ script.finish setup state report, recorded.card.entries = [] :=
      entries_of_finish hwork
    have hagain : ∀ error : Text, ∀ recorded ∈ script.finish setup (state.finish report.verdict)
        (PairScript.raised report.status report.summary error), recorded.card.entries = [] :=
      fun error => entries_of_finish hwork
    split
    · exact hagain _
    · exact hfirst
    · intro recorded hmem
      rcases List.mem_append.mp hmem with hmem | hmem
      · exact hfirst recorded hmem
      · exact hagain _ recorded hmem

/-- **Staged entries are conserved.** Every card that a pair's run hands to the journal shares out
what was ever staged, under keys that differ, and names the ids that the pair put into the files.
Until the verdict only other agents' writes change the files, and without one no id is the pair's. -/
theorem staged_entries_conserved (setup : PairSetup) (script : PairScript) (files : EntryFiles) :
    (∀ recorded ∈ script.run setup files, Conserved files recorded) ∧
      (script.isJudged setup = false →
        ∀ recorded ∈ script.run setup files, recorded.card.entries = []) ∧
      ∀ generator verifier, generator <+: script.generator → verifier <+: script.verifier →
        (verifier.foldl (StagingState.memoryCall setup true)
            { generator.foldl (StagingState.memoryCall setup false) (.start files) with
              accepted := 0 }).files
          = (otherWrites generator ++ otherWrites verifier).foldl (otherFiles setup) files := by
  refine ⟨conserved_run setup script files, entries_of_not_judged setup script files,
    fun generator verifier _ _ => ?_⟩
  rw [files_memoryCalls, files_memoryCalls, List.foldl_append]
  rfl

end

end VidbyteSdk.Agents.Infinite

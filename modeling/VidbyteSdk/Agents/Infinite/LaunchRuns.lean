import VidbyteSdk.Agents.Infinite.Launch
import VidbyteSdk.Lib.Prefixes

/-!
# Runs of launches

A journal admits a record only after certain others: a pair starts while it has no recorded card
and the cap has room for two more agents, and finishes once it was started. Every action writes
admitted records, so every crash point leaves a part of them; and a process knows, but for joined
surrogates, what the file says.
-/

namespace VidbyteSdk.Agents.Infinite

open VidbyteSdk.Lib VidbyteSdk.Util JournalContents

variable {maxAgents : Nat} {records : List JournalRecord}

/-! ### The records that a journal admits -/

/-- What a record needs of those before it. -/
def Admitted (maxAgents : Nat) (earlier : List JournalRecord) : JournalRecord → Prop
  | .pairStarted key =>
    (∃ pair : PairKey, key = pair.text) ∧ lastCard earlier key = none ∧
      infiniteMinAgents * ((startedKeys earlier).length + 1) ≤ maxAgents
  | .pairFinished key _ => (∃ pair : PairKey, key = pair.text) ∧ key ∈ startedKeys earlier
  | .runStarted _ => True
  | .runFinished _ _ _ => True

abbrev History (maxAgents : Nat) : List JournalRecord → Prop := EachAfter (Admitted maxAgents)

namespace History

theorem ofPair (h : History maxAgents records) : ∀ record ∈ records, record.OfPair := by
  intro record hmem
  obtain ⟨earlier, later, hsplit⟩ := List.append_of_mem hmem
  have hadmitted := h earlier record later hsplit
  cases record with
  | runStarted task => trivial
  | runFinished stopReason answer files => trivial
  | pairStarted key => exact hadmitted.1
  | pairFinished key card => exact hadmitted.1

theorem length_startedKeys (h : History maxAgents records) :
    infiniteMinAgents * (startedKeys records).length ≤ maxAgents := by
  induction records using List.reverseRecOn with
  | nil => exact Nat.zero_le _
  | append_singleton records record ih =>
    obtain ⟨hrecords, hrecord⟩ := eachAfter_concat.mp h
    rw [startedKeys_append]
    cases record with
    | pairStarted key =>
      rw [List.length_append]
      exact hrecord.2.2
    | runStarted task => simpa [startedKeys] using ih hrecords
    | pairFinished key card => simpa [startedKeys] using ih hrecords
    | runFinished stopReason answer files => simpa [startedKeys] using ih hrecords

theorem mem_startedKeys_of_finished (h : History maxAgents records) {key : Text}
    {card : InfiniteResultCard} (hmem : .pairFinished key card ∈ records) :
    key ∈ startedKeys records := by
  obtain ⟨earlier, later, hsplit⟩ := List.append_of_mem hmem
  rw [hsplit, startedKeys_append]
  exact List.mem_append_left _ (h earlier _ later hsplit).2

theorem append_pairStarted (h : History maxAgents records) {pairs : List PairKey}
    (hfresh : ∀ pair ∈ pairs, lastCard records pair.text = none)
    (hfits : infiniteMinAgents * ((startedKeys records).length + pairs.length) ≤ maxAgents) :
    History maxAgents (records ++ pairs.map fun pair => .pairStarted pair.text) := by
  induction pairs generalizing records with
  | nil => simpa using h
  | cons pair pairs ih =>
    have hpair : Admitted maxAgents records (.pairStarted pair.text) := by
      refine ⟨⟨pair, rfl⟩, hfresh pair List.mem_cons_self, le_trans ?_ hfits⟩
      apply Nat.mul_le_mul_left
      rw [List.length_cons]
      omega
    have hrest := ih (eachAfter_concat.mpr ⟨h, hpair⟩) (fun other hother => ?_) ?_
    · rwa [List.append_assoc, List.singleton_append] at hrest
    · rw [lastCard_concat]
      exact hfresh other (List.mem_cons_of_mem _ hother)
    · rw [startedKeys_append, List.length_append]
      simpa [startedKeys, Nat.add_assoc, Nat.add_comm 1] using hfits

end History

/-! ### What a process knows -/

/-- The process holds what the records say, but for joined surrogates, and only started pairs
run. -/
structure Knows (process : InfiniteProcess) (records : List JournalRecord) : Prop where
  contents : process.journal.toJournalContents.readBack = (ofRecords records).readBack
  running : ∀ pair ∈ process.running, pair.text ∈ startedKeys records

namespace Knows

variable {process : InfiniteProcess}

theorem started (h : Knows process records) : process.journal.started = startedKeys records := by
  have hstarted := congrArg JournalContents.started h.contents
  rw [← started_ofRecords]
  exact hstarted

theorem finished (h : Knows process records) (key : Text) :
    (process.journal.finished key).map InfiniteResultCard.readBack
      = (lastCard records key).map InfiniteResultCard.readBack := by
  rw [← finished_readBack, h.contents, finished_readBack, finished_ofRecords]

theorem finished_eq_none (h : Knows process records) (key : Text) :
    process.journal.finished key = none ↔ lastCard records key = none := by
  have := h.finished key
  rw [← Option.map_eq_none_iff, this, Option.map_eq_none_iff]

end Knows

theorem overMaxAgents_eq_none {journal : JournalContents} {fresh : List InfiniteTaskCard}
    (h : LaunchCall.overMaxAgents maxAgents journal fresh = none) :
    infiniteMinAgents * (journal.started.length + fresh.length) ≤ maxAgents := by
  rw [Nat.mul_add]
  by_contra hover
  rw [LaunchCall.overMaxAgents, agentsStarted] at h
  exact absurd h (by rw [if_pos (by omega)]; nofun)

theorem execute_ok {journal : JournalContents} {call : LaunchCall} {launched : Launched}
    (h : execute maxAgents journal call = .ok launched) :
    ∃ cards, call.tasks = .ok cards ∧
      launched.started = (call.fresh journal cards).map call.pairKey ∧
      launched.replayed = (cards.filterMap fun card =>
        (journal.finished (call.pairKey card).text).map fun recorded =>
          (call.pairKey card, recorded)) ∧
      infiniteMinAgents * (journal.started.length + launched.started.length) ≤ maxAgents := by
  unfold execute at h
  split at h
  · cases h
  · next cards htasks =>
    split at h
    · cases h
    · next hcheck =>
      cases h
      refine ⟨cards, htasks, rfl, rfl, ?_⟩
      rw [LaunchCall.check, Option.or_eq_none_iff] at hcheck
      rw [List.length_map]
      exact overMaxAgents_eq_none hcheck.2

theorem history_writes {process : InfiniteProcess} (h : History maxAgents records)
    (hknows : Knows process records) (action : LaunchAction) :
    History maxAgents (records ++ process.writes maxAgents action) := by
  cases action with
  | launch call =>
    rw [InfiniteProcess.writes]
    split
    · rwa [List.append_nil]
    · next launched hexecute =>
      obtain ⟨cards, -, hstarted, -, hfits⟩ := execute_ok hexecute
      rw [hknows.started] at hfits
      refine h.append_pairStarted (fun pair hpair => ?_) hfits
      rw [hstarted, List.mem_map] at hpair
      obtain ⟨card, hcard, rfl⟩ := hpair
      rw [← hknows.finished_eq_none]
      simpa using (List.mem_filter.mp hcard).2
  | finish pair outcome =>
    rw [InfiniteProcess.writes]
    split
    · next hrunning =>
      cases outcome.card pair with
      | none => simpa using h
      | some card =>
        exact eachAfter_concat.mpr ⟨h, ⟨pair, rfl⟩, hknows.running pair hrunning⟩
    · rwa [List.append_nil]
  | finishRun stopReason answer files => exact eachAfter_concat.mpr ⟨h, trivial⟩

theorem readBack_foldl_apply (contents : JournalContents) (records : List JournalRecord) :
    (records.foldl apply contents).readBack
      = (records.map JournalRecord.readBack).foldl apply contents.readBack := by
  induction records generalizing contents with
  | nil => rfl
  | cons record records ih =>
    rw [List.foldl_cons, List.map_cons, List.foldl_cons, ih, readBack_apply]

theorem knows_act {process : InfiniteProcess} (hknows : Knows process records)
    (action : LaunchAction) :
    Knows (process.act maxAgents action) (records ++ process.writes maxAgents action) where
  contents := by
    show ((process.writes maxAgents action).foldl apply _).readBack = _
    rw [ofRecords, List.foldl_append, readBack_foldl_apply, readBack_foldl_apply, hknows.contents]
    rfl
  running := by
    intro pair hpair
    rw [startedKeys_append]
    have hold : pair ∈ process.running →
        pair.text ∈ startedKeys records ++ startedKeys (process.writes maxAgents action) :=
      fun hmem => List.mem_append_left _ (hknows.running pair hmem)
    cases action with
    | launch call =>
      change pair ∈ process.runningAfter maxAgents (.launch call) at hpair
      rw [InfiniteProcess.runningAfter] at hpair
      cases hexecute : execute maxAgents process.journal.toJournalContents call with
      | error problem =>
        rw [hexecute] at hpair
        exact hold hpair
      | ok launched =>
        rw [hexecute] at hpair
        rcases List.mem_append.mp hpair with hpair | hpair
        · exact hold hpair
        · apply List.mem_append_right
          rw [mem_startedKeys, InfiniteProcess.writes, hexecute]
          exact List.mem_map_of_mem hpair
    | finish key outcome =>
      apply hold
      change pair ∈ process.runningAfter maxAgents (.finish key outcome) at hpair
      rw [InfiniteProcess.runningAfter] at hpair
      split at hpair
      · exact List.mem_of_mem_erase hpair
      · exact hpair
    | finishRun stopReason answer files => exact hold hpair

/-! ### The file -/

/-- The file is sound, and the records that are in it whole are these. -/
structure Holds (runId : Text) (file : JsonlRun) (records : List JournalRecord) : Prop where
  sound : file.Sound
  written : List.Forall₂ (fun record json => ∃ stamp, json = record.json runId stamp) records
    file.completed

variable {runId : Text} {stamp : JournalRecord → Text} {run : InfiniteRun}

theorem Holds.concat {file file' : JsonlRun} {record : JournalRecord}
    (h : Holds runId file records) (hsound : file'.Sound)
    (hcompleted : file'.completed = file.completed ++ [record.json runId (stamp record)]) :
    Holds runId file' (records ++ [record]) where
  sound := hsound
  written := by
    rw [hcompleted]
    exact List.rel_append h.written (List.Forall₂.cons ⟨stamp record, rfl⟩ List.Forall₂.nil)

namespace InfiniteRun

theorem holds_append (stamp : JournalRecord → Text) (h : Holds runId run.file run.durable) (hready : run.file.Ready)
    (record : JournalRecord) :
    Holds runId (run.append runId stamp record).file (run.append runId stamp record).durable ∧
      (run.append runId stamp record).file.Ready :=
  ⟨h.concat (JsonlRun.step_sound h.sound (.append _) hready).1 rfl, JsonlRun.ready_append _⟩

theorem holds_foldl_append (stamp : JournalRecord → Text) (h : Holds runId run.file run.durable) (hready : run.file.Ready)
    (records : List JournalRecord) :
    let run' := records.foldl (append runId stamp) run
    Holds runId run'.file run'.durable ∧ run'.file.Ready ∧
      run'.durable = run.durable ++ records := by
  induction records generalizing run with
  | nil => exact ⟨h, hready, (List.append_nil _).symm⟩
  | cons record records ih =>
    obtain ⟨hholds, hready⟩ := holds_append stamp h hready record
    obtain ⟨hholds, hready, hdurable⟩ := ih hholds hready
    refine ⟨hholds, hready, hdurable.trans ?_⟩
    rw [append, List.append_assoc, List.singleton_append]

theorem holds_cut (stamp : JournalRecord → Text) (h : Holds runId run.file run.durable) (hready : run.file.Ready) (k : Nat)
    (records : List JournalRecord) :
    Holds runId (run.cut runId stamp k records).file (run.cut runId stamp k records).durable ∧
      (run.cut runId stamp k records).durable <+: run.durable ++ records := by
  cases records with
  | nil => exact ⟨h, List.prefix_append _ _⟩
  | cons record records =>
    have hsound := (JsonlRun.step_sound h.sound
      (.cut (record.json runId (stamp record)) k) hready).1
    by_cases hlen :
        (run.file.log.repaired.2 ++ recordText (record.json runId (stamp record))).length ≤ k
    · rw [cut, if_pos hlen]
      refine ⟨h.concat hsound (if_pos hlen), records, ?_⟩
      rw [List.append_assoc, List.singleton_append]
    · rw [cut, if_neg hlen]
      refine ⟨⟨hsound, ?_⟩, List.prefix_append _ _⟩
      have hcompleted : (run.file.step (.cut (record.json runId (stamp record)) k)).completed
          = run.file.completed := if_neg hlen
      rw [hcompleted]
      exact h.written

end InfiniteRun

variable {file : JsonlRun}

theorem parse_of_exact (h : Holds runId file records)
    (hpair : ∀ record ∈ records, record.OfPair) (pyStr : Json → Text) {text : Text}
    (hexact : Exact text file.completed) :
    parse pyStr text = match taskOf (records.map JournalRecord.readBack) with
      | none => .error .noTask
      | some task => .ok ⟨(ofRecords records).readBack, task⟩ := by
  rw [parse, hexact, parseLines_recordTexts pyStr 1 hpair h.written]
  simp only [ofRecords_readBack]
  all_goals rfl

theorem find_ok (h : Holds runId file records)
    (hpair : ∀ record ∈ records, record.OfPair) {pyStr : Json → Text} {journal : InfiniteRunJournal}
    {log : AppendOnlyJsonl} (hfind : find pyStr file.log.reopened = .ok (journal, log)) :
    (∃ text, file.log.reopened.read = some (text, log)) ∧
      journal.toJournalContents = (ofRecords records).readBack := by
  cases hread : file.log.reopened.read with
  | none =>
    rw [find, hread] at hfind
    cases hfind
  | some result =>
    obtain ⟨text, log'⟩ := result
    have hexact := (read_spec (Shape.forget h.sound) hread).1
    rw [find, hread] at hfind
    simp only [parse_of_exact h hpair pyStr hexact] at hfind
    cases htask : taskOf (records.map JournalRecord.readBack) with
    | none =>
      rw [htask] at hfind
      cases hfind
    | some task =>
      simp only [htask] at hfind
      split at hfind
      · cases hfind
      · cases hfind
        exact ⟨⟨text, rfl⟩, rfl⟩

theorem exists_find (h : Holds runId file records)
    (hpair : ∀ record ∈ records, record.OfPair) (pyStr : Json → Text)
    (htask : ∃ task, .runStarted task ∈ records)
    (hopen : ∀ stopReason answer files, .runFinished stopReason answer files ∉ records) :
    ∃ journal log, find pyStr file.log.reopened = .ok (journal, log) := by
  obtain ⟨task, hmem⟩ := htask
  cases hread : file.log.reopened.read with
  | none =>
    have hnone := completed_of_read_eq_none (Shape.forget h.sound) hread
    have hwritten := h.written
    rw [hnone] at hwritten
    cases hwritten
    cases hmem
  | some result =>
    obtain ⟨text, log⟩ := result
    have hexact := (read_spec (Shape.forget h.sound) hread).1
    have hsome : (taskOf (records.map JournalRecord.readBack)).isSome = true :=
      isSome_taskOf.mpr ⟨_, List.mem_map_of_mem hmem⟩
    obtain ⟨task, htask⟩ := Option.isSome_iff_exists.mp hsome
    have hreason : (ofRecords records).readBack.stopReason.isSome = false := by
      rw [JournalContents.readBack, Option.isSome_map, ← Bool.not_eq_true, isSome_stopReason]
      rintro ⟨stopReason, answer, files, hmem⟩
      exact hopen stopReason answer files hmem
    refine ⟨⟨(ofRecords records).readBack, task⟩, log, ?_⟩
    rw [find, hread]
    simp only [parse_of_exact h hpair pyStr hexact, htask, hreason]
    rfl

theorem records_of_absent (h : Holds runId file records)
    (habsent : file.log.file = none) : records = [] ∧ file.Ready := by
  have hread : file.log.read = none := by rw [AppendOnlyJsonl.read, habsent]
  have hwritten := h.written
  rw [completed_of_read_eq_none h.sound hread] at hwritten
  refine ⟨List.forall₂_nil_right_iff.mp hwritten, Or.inl (Or.inl ?_)⟩
  rw [AppendOnlyJsonl.data, habsent]
  rfl

/-! ### Runs -/

namespace InfiniteRun

variable {settings : RunSettings}

structure Sound (settings : RunSettings) (run : InfiniteRun) : Prop where
  holds : Holds settings.runId run.file run.durable
  history : History settings.maxAgents run.durable
  process : ∀ process ∈ run.process, run.file.Ready ∧ Knows process run.durable

theorem sound_begin : begin.Sound settings where
  holds := ⟨JsonlRun.sound_start, List.Forall₂.nil⟩
  history := eachAfter_nil
  process := nofun

theorem step_start (h : run.Sound settings) (task : Text) :
    (run.step settings (.start task stamp)).Sound settings := by
  rw [step]
  split
  · next hguard =>
    rw [Bool.and_eq_true, Option.isNone_iff_eq_none, Option.isNone_iff_eq_none] at hguard
    obtain ⟨hempty, hready⟩ := records_of_absent h.holds hguard.2
    obtain ⟨hholds, hready⟩ := holds_append stamp h.holds hready (.runStarted task)
    refine ⟨hholds, eachAfter_concat.mpr ⟨h.history, trivial⟩, ?_⟩
    rintro process ⟨⟩
    refine ⟨hready, ?_, nofun⟩
    show _ = (ofRecords (run.durable ++ [_])).readBack
    rw [hempty]
    rfl
  · exact h

theorem step_startCut (h : run.Sound settings) (task : Text) (k : Nat) :
    (run.step settings (.startCut task stamp k)).Sound settings := by
  rw [step]
  split
  · next hguard =>
    rw [Bool.and_eq_true, Option.isNone_iff_eq_none, Option.isNone_iff_eq_none] at hguard
    obtain ⟨hempty, hready⟩ := records_of_absent h.holds hguard.2
    obtain ⟨hholds, hprefix⟩ := holds_cut stamp h.holds hready k [.runStarted task]
    refine ⟨hholds, EachAfter.part ?_ hprefix, ?_⟩
    · exact eachAfter_concat.mpr ⟨h.history, trivial⟩
    · intro process hprocess
      exact absurd (hguard.1 ▸ hprocess : process ∈ none) nofun
  · exact h

theorem step_act (h : run.Sound settings) (action : LaunchAction) :
    (run.step settings (.act action stamp)).Sound settings := by
  rw [step]
  cases hprocess : run.process with
  | none => exact h
  | some process =>
    obtain ⟨hready, hknows⟩ := h.process process hprocess
    obtain ⟨hholds, hready, hdurable⟩ := holds_foldl_append stamp h.holds hready
      (process.writes settings.maxAgents action)
    refine ⟨hholds, ?_, ?_⟩
    · rw [hdurable]
      exact history_writes h.history hknows action
    · rintro process' ⟨⟩
      refine ⟨hready, ?_⟩
      show Knows _ (((process.writes settings.maxAgents action).foldl _ run).durable)
      rw [hdurable]
      exact knows_act hknows action

theorem step_crash (h : run.Sound settings) (action : LaunchAction) (n k : Nat) :
    (run.step settings (.crash action stamp n k)).Sound settings := by
  rw [step]
  cases hprocess : run.process with
  | none => exact h
  | some process =>
    obtain ⟨hready, hknows⟩ := h.process process hprocess
    obtain ⟨hholds, hready, hdurable⟩ := holds_foldl_append stamp h.holds hready
      ((process.writes settings.maxAgents action).take n)
    obtain ⟨hholds, hprefix⟩ := holds_cut stamp hholds hready k
      ((process.writes settings.maxAgents action).drop n)
    rw [hdurable, List.append_assoc, List.take_append_drop] at hprefix
    exact ⟨hholds, (history_writes h.history hknows action).part hprefix, nofun⟩

theorem step_resume (h : run.Sound settings) : (run.step settings .resume).Sound settings := by
  rw [step]
  cases hprocess : run.process with
  | some process => exact h
  | none =>
    have hsound := (JsonlRun.step_sound (JsonlRun.step_sound h.holds.sound .reopen trivial).1 .read
      trivial).1
    refine ⟨⟨hsound, h.holds.written⟩, h.history, ?_⟩
    intro process hresumed
    cases hfind : find settings.pyStr run.file.log.reopened with
    | error problem =>
      simp only [hfind] at hresumed
      cases hresumed
    | ok found =>
      obtain ⟨journal, log⟩ := found
      simp only [hfind] at hresumed
      cases hresumed
      obtain ⟨⟨text, hread⟩, hcontents⟩ := find_ok h.holds h.history.ofPair hfind
      obtain ⟨-, -, -, -, hready⟩ := read_spec (Shape.forget h.holds.sound) hread
      refine ⟨?_, ?_, nofun⟩
      · have hlog : ((run.file.step .reopen).step .read).log = log := by
          show (run.file.log.reopened.read.map Prod.snd).getD run.file.log.reopened = log
          rw [hread]
          rfl
        show WholeLines ((run.file.step .reopen).step .read).log.data ∨ _
        rw [hlog]
        exact hready
      · show journal.toJournalContents.readBack = _
        rw [hcontents, readBack_readBack]

theorem step_sound (h : run.Sound settings) (event : LaunchEvent) :
    (run.step settings event).Sound settings := by
  cases event with
  | start task stamp => exact step_start h task
  | startCut task stamp k => exact step_startCut h task k
  | act action stamp => exact step_act h action
  | crash action stamp n k => exact step_crash h action n k
  | stop => exact ⟨h.holds, h.history, nofun⟩
  | resume => exact step_resume h

theorem sound_after (settings : RunSettings) (events : List LaunchEvent) :
    (after settings events).Sound settings := by
  induction events using List.reverseRecOn with
  | nil => exact sound_begin
  | append_singleton events event ih =>
    rw [after, List.foldl_append]
    exact step_sound ih event

theorem launched_of_knows {process : InfiniteProcess} (hknows : Knows process records)
    {call : LaunchCall} {launched : Launched}
    (hexecute : execute maxAgents process.journal.toJournalContents call = .ok launched)
    {cards : List InfiniteTaskCard} (htasks : call.tasks = .ok cards) {card : InfiniteTaskCard}
    (hcard : card ∈ cards) :
    match lastCard records (call.pairKey card).text with
    | none => call.pairKey card ∈ launched.started
    | some recorded => call.pairKey card ∉ launched.started ∧
        ∃ replayed, (call.pairKey card, replayed) ∈ launched.replayed ∧
          replayed.readBack = recorded.readBack := by
  obtain ⟨tasks, htasks', hstarted, hreplayed, -⟩ := execute_ok hexecute
  obtain rfl : cards = tasks := Except.ok.inj (htasks.symm.trans htasks')
  have hsame := hknows.finished (call.pairKey card).text
  cases hlast : lastCard records (call.pairKey card).text with
  | none =>
    rw [hstarted]
    apply List.mem_map_of_mem
    rw [LaunchCall.fresh, List.mem_filter, (hknows.finished_eq_none _).mpr hlast]
    exact ⟨hcard, rfl⟩
  | some recorded =>
    rw [hlast, Option.map_some, Option.map_eq_some_iff] at hsame
    obtain ⟨replayed, hfinished, hcards⟩ := hsame
    refine ⟨fun hmem => ?_, replayed, ?_, hcards⟩
    · rw [hstarted, List.mem_map] at hmem
      obtain ⟨other, hother, hkey⟩ := hmem
      have hnone := (List.mem_filter.mp hother).2
      rw [hkey, hfinished] at hnone
      cases hnone
    · rw [hreplayed, List.mem_filterMap]
      exact ⟨card, hcard, by rw [hfinished]; rfl⟩

/-- Whatever the launches, the crashes and the resumes, a resume rebuilds exactly the durable
starts and, for each pair, its durable card, up to joined surrogates; an unfinished run whose task
is in the file can be resumed; a finished pair was started, is replayed from its card and never
started again, and any other pair of an accepted batch is run; the agents counted as started stay
within `max_agents`; and a card is parsed as what it reads back as, which is the card itself unless
a text has a surrogate pair in two code points. -/
theorem resume_exact (settings : RunSettings) (events : List LaunchEvent) :
    let run := after settings events
    (∀ journal log, find settings.pyStr run.file.log.reopened = .ok (journal, log) →
        journal.started = startedKeys run.durable ∧
          ∀ key, journal.finished key = (lastCard run.durable key).map InfiniteResultCard.readBack) ∧
      ((∃ task, .runStarted task ∈ run.durable) →
        (∀ stopReason answer files, .runFinished stopReason answer files ∉ run.durable) →
          ∃ journal log, find settings.pyStr run.file.log.reopened = .ok (journal, log)) ∧
      (∀ key card, .pairFinished key card ∈ run.durable → key ∈ startedKeys run.durable) ∧
      (∀ process ∈ run.process, ∀ call launched cards,
        execute settings.maxAgents process.journal.toJournalContents call = .ok launched →
          call.tasks = .ok cards → ∀ card ∈ cards,
            match lastCard run.durable (call.pairKey card).text with
            | none => call.pairKey card ∈ launched.started
            | some recorded => call.pairKey card ∉ launched.started ∧
                ∃ replayed, (call.pairKey card, replayed) ∈ launched.replayed ∧
                  replayed.readBack = recorded.readBack) ∧
      (∀ earlier key later, run.durable = earlier ++ .pairStarted key :: later →
        lastCard earlier key = none) ∧
      infiniteMinAgents * (startedKeys run.durable).length ≤ settings.maxAgents ∧
      (∀ process ∈ run.process, process.journal.agentsStarted ≤ settings.maxAgents) ∧
      ∀ card : InfiniteResultCard,
        (Json.loads (Json.dumps true (.obj (cardRecord card)))).bind cardOfJson
            = some card.readBack ∧
          (card.NoPairs → card.readBack = card) := by
  intro run
  have hsound : run.Sound settings := sound_after settings events
  refine ⟨?_, ?_, ?_, ?_, ?_, hsound.history.length_startedKeys, ?_, ?_⟩
  · intro journal log hfind
    have hcontents := (find_ok hsound.holds hsound.history.ofPair hfind).2
    constructor
    · rw [hcontents, ← started_ofRecords]
      rfl
    · intro key
      rw [hcontents, finished_readBack, finished_ofRecords]
  · exact fun htask hopen => exists_find hsound.holds hsound.history.ofPair _ htask hopen
  · exact fun key card hmem => hsound.history.mem_startedKeys_of_finished hmem
  · intro process hprocess call launched cards hexecute htasks card hcard
    exact launched_of_knows (hsound.process process hprocess).2 hexecute htasks hcard
  · intro earlier key later hsplit
    exact (hsound.history earlier _ later hsplit).2.1
  · intro process hprocess
    rw [agentsStarted, (hsound.process process hprocess).2.started]
    exact hsound.history.length_startedKeys
  · exact fun card => ⟨cardOfJson_loads card, InfiniteResultCard.readBack_eq_self⟩

end InfiniteRun

def splitSurrogateCard : InfiniteResultCard where
  name := [0x61]
  key := [0x61]
  status := .done
  verdict := .passed
  summary := [0xD83D, 0xDE00]
  review := []
  entries := []
  dropped := []
  files := []
  valid := by decide

/-- Its record is parsed as another card. -/
theorem cardOfJson_splitSurrogateCard :
    ¬ ∀ card : InfiniteResultCard,
      (Json.loads (Json.dumps true (.obj (cardRecord card)))).bind cardOfJson = some card := by
  intro h
  have hcard := (cardOfJson_loads splitSurrogateCard).symm.trans (h splitSurrogateCard)
  have hsummary := congrArg InfiniteResultCard.summary (Option.some.inj hcard)
  exact absurd hsummary (by decide)

end VidbyteSdk.Agents.Infinite

import VidbyteSdk.Util.Jsonl

/-!
# Runs of the append-only file

Between two events the file is in one of three shapes: whole lines, a last record without its
newline, or a torn last record. `read` tells them apart, since a torn record is never a JSON text,
and a ready file is brought to whole lines before anything is written.
-/

namespace VidbyteSdk.Util

open VidbyteSdk.Lib AppendOnlyJsonl

/-! ### The text of a record -/

theorem newline_notMem_recordText (record : Record) : newline ∉ recordText record := by
  intro h
  exact absurd (Json.le_of_mem_dumps h) (by decide)

theorem recordText_start (record : Record) :
    ∃ u, recordText record = Json.leftBrace :: u := by
  unfold recordText
  rw [Json.dumps]
  exact ⟨_, rfl⟩

theorem recordText_ne_nil (record : Record) : recordText record ≠ [] := by
  obtain ⟨u, hu⟩ := recordText_start record
  rw [hu]
  simp

theorem loads_recordText (record : Record) :
    Json.loads (recordText record) = some (Json.normal true (.obj record)) :=
  Json.loads_dumps true _

theorem start_of_recordText {record : Record} {torn rest : Text}
    (h : recordText record = torn ++ rest) (hne : torn ≠ []) :
    torn.all isStripped = false ∧ newline ∉ torn := by
  constructor
  · obtain ⟨u, hu⟩ := recordText_start record
    match torn with
    | c :: t =>
      obtain rfl : Json.leftBrace = c := (List.cons.inj (hu.symm.trans h)).1
      have : isStripped Json.leftBrace = false := by decide
      simp [this]
  · intro hmem
    exact newline_notMem_recordText record (h ▸ List.mem_append_left rest hmem)

theorem newline_notMem_recordTexts (records : List Record) :
    ∀ l ∈ records.map recordText, newline ∉ l := by
  intro l hl
  obtain ⟨record, -, rfl⟩ := List.mem_map.mp hl
  exact newline_notMem_recordText record

theorem not_wholeLines_append (u : Text) {t : Text} (hne : t ≠ []) (ht : newline ∉ t) :
    ¬ WholeLines (u ++ t) := by
  rintro (h | h)
  · exact hne (List.append_eq_nil_iff.mp h).2
  · rw [List.getLast?_append_of_ne_nil _ hne] at h
    exact ht (List.mem_of_getLast? h)

/-! ### The shapes of the file -/

/-- How the completed records stand in the file, and what the object may remember of it. -/
inductive Shape (completed : List Record) (data : Text) (repair : Option (Nat × Text)) : Prop
  | whole (hdata : data = unlines (completed.map recordText)) (hrepair : repair = none)
  | unended (earlier : List Record) (last : Record) (hcompleted : completed = earlier ++ [last])
      (hdata : data = unlines (earlier.map recordText) ++ recordText last)
      (hrepair : ∀ r ∈ repair, r = (data.length, [newline]))
  | torn (record : Record) (part rest : Text) (hrecord : recordText record = part ++ rest)
      (hpart : part ≠ []) (hrest : rest ≠ [])
      (hdata : data = unlines (completed.map recordText) ++ part)
      (hrepair : ∀ r ∈ repair, r = ((unlines (completed.map recordText)).length, []))

variable {log log' : AppendOnlyJsonl} {completed : List Record} {text : Text}

theorem exact_unlines (records : List Record) : Exact (unlines (records.map recordText)) records := by
  have := lines_unlines (newline_notMem_recordTexts records) (List.not_mem_nil (a := newline))
  simpa [Exact] using this

theorem read_append {keep tail : Text} (hfile : log.file = some (keep ++ tail))
    (hkeep : WholeLines keep) (htail : newline ∉ tail) :
    log.read =
      if tail.all isStripped then some (keep ++ tail, { log with repair := none })
      else
        match Json.loads tail with
        | none => some (keep, { log with repair := some (keep.length, []) })
        | some _ =>
          some (keep ++ tail, { log with repair := some ((keep ++ tail).length, [newline]) }) := by
  obtain ⟨head, sep, hpart, hjoin⟩ := rpartition_wholeLines hkeep htail
  have hlen : head.length + sep.length = keep.length := by rw [← hjoin, List.length_append]
  rw [AppendOnlyJsonl.read, hfile]
  simp only [hpart, hjoin, hlen]
  all_goals rfl

theorem read_spec (h : Shape completed log.data log.repair)
    (hread : log.read = some (text, log')) :
    Exact text completed ∧ text <+: log.data ∧ log'.file = log.file ∧
      Shape completed log'.data log'.repair ∧
      (WholeLines log'.data ∨ log'.repair.isSome = true) := by
  obtain ⟨data, hfile⟩ : ∃ data, log.file = some data := by
    cases hfile : log.file with
    | none =>
      rw [AppendOnlyJsonl.read, hfile] at hread
      cases hread
    | some data => exact ⟨data, rfl⟩
  have hdata' : log.data = data := by rw [AppendOnlyJsonl.data, hfile]; rfl
  rw [hdata'] at h ⊢
  cases h with
  | whole hdata hrepair =>
    rw [← List.append_nil (unlines _)] at hdata
    rw [read_append (hdata ▸ hfile) (wholeLines_unlines _) List.not_mem_nil] at hread
    cases hread
    rw [List.append_nil] at *
    refine ⟨exact_unlines completed, hdata ▸ List.prefix_rfl, rfl, ?_, Or.inl ?_⟩
    · exact Shape.whole (hdata'.trans hdata) rfl
    · show WholeLines log.data
      rw [hdata', hdata]
      exact wholeLines_unlines _
  | unended earlier last hcompleted hdata hrepair =>
    have hblank := (start_of_recordText (List.append_nil _).symm (recordText_ne_nil last)).1
    rw [read_append (hdata ▸ hfile) (wholeLines_unlines _) (newline_notMem_recordText last), hblank,
      loads_recordText] at hread
    cases hread
    refine ⟨?_, hdata ▸ List.prefix_rfl, rfl, ?_, Or.inr rfl⟩
    · rw [Exact, lines_unlines (newline_notMem_recordTexts earlier) (newline_notMem_recordText last),
        if_neg (recordText_ne_nil last), hcompleted, List.map_append]
      rfl
    · refine Shape.unended earlier last hcompleted (hdata'.trans hdata) ?_
      rintro r ⟨⟩
      rw [← hdata, ← hdata']
      rfl
  | torn record part rest hrecord hpart hrest hdata hrepair =>
    obtain ⟨hblank, hline⟩ := start_of_recordText hrecord hpart
    have hloads : Json.loads part = none := Json.loads_prefix_object hrecord hrest
    rw [read_append (hdata ▸ hfile) (wholeLines_unlines _) hline, hblank, hloads] at hread
    cases hread
    refine ⟨exact_unlines completed, hdata ▸ List.prefix_append _ _, rfl, ?_, Or.inr rfl⟩
    refine Shape.torn record part rest hrecord hpart hrest (hdata'.trans hdata) ?_
    rintro r ⟨⟩
    rfl

theorem completed_of_read_eq_none (h : Shape completed log.data log.repair)
    (hread : log.read = none) : completed = [] := by
  have hfile : log.file = none := by
    cases hfile : log.file with
    | none => rfl
    | some data =>
      simp only [AppendOnlyJsonl.read, hfile] at hread
      split at hread
      · cases hread
      · split at hread <;> cases hread
  have hdata' : log.data = [] := by rw [AppendOnlyJsonl.data, hfile]; rfl
  rw [hdata'] at h
  cases h with
  | whole hdata hrepair =>
    cases completed with
    | nil => rfl
    | cons record records => simp at hdata
  | unended earlier last hcompleted hdata hrepair =>
    exact absurd (List.append_eq_nil_iff.mp hdata.symm).2 (recordText_ne_nil last)
  | torn record part rest hrecord hpart hrest hdata hrepair =>
    exact absurd (List.append_eq_nil_iff.mp hdata.symm).2 hpart

/-! ### Writing -/

theorem shape_take (completed : List Record) (record : Record) (k : Nat) :
    Shape (if (recordText record).length ≤ k then completed ++ [record] else completed)
      (unlines (completed.map recordText) ++ (recordText record ++ [newline]).take k) none := by
  rcases Nat.lt_trichotomy k (recordText record).length with hk | hk | hk
  · rw [if_neg (by omega), List.take_append_of_le_length hk.le]
    rcases Nat.eq_zero_or_pos k with rfl | hpos
    · rw [List.take_zero, List.append_nil]
      exact Shape.whole rfl rfl
    · refine Shape.torn record ((recordText record).take k) ((recordText record).drop k)
        (List.take_append_drop k _).symm ?_ ?_ rfl nofun
      · rw [ne_eq, List.take_eq_nil_iff, not_or]
        exact ⟨by omega, recordText_ne_nil record⟩
      · simp only [ne_eq, List.drop_eq_nil_iff]
        omega
  · rw [if_pos hk.ge, List.take_append_of_le_length hk.le, hk, List.take_length]
    exact Shape.unended completed record rfl rfl nofun
  · rw [if_pos hk.le, List.take_of_length_le (by simp; omega)]
    refine Shape.whole ?_ rfl
    simp

theorem truncated_append (a b : Text) : truncated a.length (a ++ b) = a := by
  simp [truncated]

theorem file_eq_some (h : log.data ≠ []) : log.file = some log.data := by
  unfold AppendOnlyJsonl.data at *
  cases hfile : log.file with
  | none =>
    rw [hfile] at h
    exact absurd rfl h
  | some data => rfl

theorem repaired_of_none (h : log.repair = none) : log.repaired = (log, []) := by
  rw [AppendOnlyJsonl.repaired, h]

theorem repaired_of_some {keep torn start : Text} (hdata : log.data = keep ++ torn)
    (hne : log.data ≠ []) (h : log.repair = some (keep.length, start)) :
    log.repaired = (⟨some keep, none⟩, start) := by
  rw [AppendOnlyJsonl.repaired, h, file_eq_some hne, hdata]
  simp only [Option.map_some, truncated_append]

theorem repaired_shape (h : Shape completed log.data log.repair) :
    log.repaired.1.repair = none ∧ Shape completed log.repaired.1.data none ∧
      OnlyTornLineCut log.data log.repaired.1.data := by
  have hsame : OnlyTornLineCut log.data log.data :=
    ⟨log.data, [], (List.append_nil _).symm, List.prefix_rfl, Or.inl rfl⟩
  cases hrep : log.repair with
  | none =>
    rw [repaired_of_none hrep]
    rw [hrep] at h
    exact ⟨hrep, h, hsame⟩
  | some r =>
    rw [hrep] at h
    cases h with
    | whole hdata hrepair => cases hrepair
    | unended earlier last hcompleted hdata hrepair =>
      obtain rfl := hrepair r rfl
      have hne : log.data ≠ [] :=
        hdata ▸ List.append_ne_nil_of_right_ne_nil _ (recordText_ne_nil last)
      rw [repaired_of_some (List.append_nil _).symm hne hrep]
      exact ⟨rfl, Shape.unended earlier last hcompleted hdata nofun, hsame⟩
    | torn record part rest hrecord hpart hrest hdata hrepair =>
      obtain rfl := hrepair r rfl
      have hne : log.data ≠ [] := hdata ▸ List.append_ne_nil_of_right_ne_nil _ hpart
      rw [repaired_of_some hdata hne hrep]
      refine ⟨rfl, Shape.whole rfl rfl, _, part, hdata, List.prefix_rfl, Or.inr ⟨?_, ?_, ?_⟩⟩
      · exact wholeLines_unlines _
      · exact (start_of_recordText hrecord hpart).2
      · exact Json.loads_prefix_object hrecord hrest

theorem repaired_ready (h : Shape completed log.data log.repair)
    (hready : WholeLines log.data ∨ log.repair.isSome = true) :
    log.repaired.1.data ++ log.repaired.2 = unlines (completed.map recordText) ∧
      (log.repaired.2 = [] ∨ log.repaired.2 = [newline]) := by
  cases hrep : log.repair with
  | none =>
    rw [repaired_of_none hrep]
    rw [hrep] at h hready
    have hwhole : WholeLines log.data := hready.resolve_right (by simp)
    refine ⟨?_, Or.inl rfl⟩
    rw [List.append_nil]
    cases h with
    | whole hdata hrepair => exact hdata
    | unended earlier last hcompleted hdata hrepair =>
      rw [hdata] at hwhole
      exact absurd hwhole
        (not_wholeLines_append _ (recordText_ne_nil last) (newline_notMem_recordText last))
    | torn record part rest hrecord hpart hrest hdata hrepair =>
      rw [hdata] at hwhole
      exact absurd hwhole (not_wholeLines_append _ hpart (start_of_recordText hrecord hpart).2)
  | some r =>
    rw [hrep] at h
    cases h with
    | whole hdata hrepair => cases hrepair
    | unended earlier last hcompleted hdata hrepair =>
      obtain rfl := hrepair r rfl
      have hne : log.data ≠ [] :=
        hdata ▸ List.append_ne_nil_of_right_ne_nil _ (recordText_ne_nil last)
      rw [repaired_of_some (List.append_nil _).symm hne hrep]
      refine ⟨?_, Or.inr rfl⟩
      show log.data ++ [newline] = _
      rw [hdata, hcompleted]
      simp
    | torn record part rest hrecord hpart hrest hdata hrepair =>
      obtain rfl := hrepair r rfl
      have hne : log.data ≠ [] := hdata ▸ List.append_ne_nil_of_right_ne_nil _ hpart
      rw [repaired_of_some hdata hne hrep]
      exact ⟨List.append_nil _, Or.inl rfl⟩

theorem OnlyTornLineCut.append {old new : Text} (h : OnlyTornLineCut old new) (t : Text) :
    OnlyTornLineCut old (new ++ t) := by
  obtain ⟨keep, torn, hold, hnew, htorn⟩ := h
  exact ⟨keep, torn, hold, hnew.trans (List.prefix_append new t), htorn⟩

theorem OnlyTornLineCut.refl (t : Text) : OnlyTornLineCut t t :=
  ⟨t, [], (List.append_nil _).symm, List.prefix_rfl, Or.inl rfl⟩

theorem appendCut_shape (record : Record) (k : Nat)
    (h : Shape completed log.data log.repair)
    (hready : WholeLines log.data ∨ log.repair.isSome = true) :
    Shape (if (log.repaired.2 ++ recordText record).length ≤ k then completed ++ [record]
      else completed) (log.appendCut record k).data (log.appendCut record k).repair := by
  obtain ⟨hrepair, hshape, -⟩ := repaired_shape h
  obtain ⟨hwhole, hstart⟩ := repaired_ready h hready
  have hcut : (log.appendCut record k).repair = none := hrepair
  have hdata : (log.appendCut record k).data = log.repaired.1.data
      ++ (log.repaired.2 ++ recordText record ++ [newline]).take k := rfl
  rw [hcut, hdata]
  rcases hstart with hstart | hstart
  · rw [hstart, List.append_nil] at hwhole
    rw [hstart, List.nil_append, hwhole]
    exact shape_take completed record k
  · rw [hstart] at hwhole ⊢
    cases k with
    | zero =>
      rw [if_neg (by simp), List.take_zero, List.append_nil]
      exact hshape
    | succ k =>
      -- the newline is in the file, and then the first `k` characters of the line
      have hlen : ([newline] ++ recordText record).length ≤ k + 1
          ↔ (recordText record).length ≤ k := by
        simp only [List.length_append, List.length_singleton]
        omega
      have htake : ([newline] ++ recordText record ++ [newline]).take (k + 1)
          = [newline] ++ (recordText record ++ [newline]).take k := by
        simp [List.take_succ_cons]
      rw [if_congr hlen rfl rfl, htake, ← List.append_assoc, hwhole]
      exact shape_take completed record k

theorem append_eq_appendCut (log : AppendOnlyJsonl) (record : Record) :
    log.append record = log.appendCut record
      (log.repaired.2 ++ recordText record ++ [newline]).length := by
  rw [AppendOnlyJsonl.append, AppendOnlyJsonl.appendCut, List.take_length]

theorem appendCut_onlyTornLineCut (record : Record) (k : Nat)
    (h : Shape completed log.data log.repair) :
    OnlyTornLineCut log.data (log.appendCut record k).data :=
  (repaired_shape h).2.2.append _

theorem Shape.forget {data : Text} {repair : Option (Nat × Text)} (h : Shape completed data repair) :
    Shape completed data none := by
  cases h with
  | whole hdata hrepair => exact Shape.whole hdata rfl
  | unended earlier last hcompleted hdata hrepair =>
    exact Shape.unended earlier last hcompleted hdata nofun
  | torn record part rest hrecord hpart hrest hdata hrepair =>
    exact Shape.torn record part rest hrecord hpart hrest hdata nofun

/-! ### Runs -/

namespace JsonlRun

def Sound (run : JsonlRun) : Prop := Shape run.completed run.log.data run.log.repair

theorem sound_start : start.Sound := Shape.whole rfl rfl

variable {run : JsonlRun}

theorem step_sound (h : run.Sound) (event : JsonlEvent) (hguard : run.Guard event) :
    (run.step event).Sound ∧ OnlyTornLineCut run.log.data (run.step event).log.data := by
  cases event with
  | read =>
    cases hread : run.log.read with
    | none =>
      have hstep : run.step .read = run := by simp [step, hread]
      rw [hstep]
      exact ⟨h, OnlyTornLineCut.refl _⟩
    | some result =>
      obtain ⟨text, log'⟩ := result
      obtain ⟨-, -, hfile, hshape, -⟩ := read_spec h hread
      have hstep : run.step .read = ⟨log', run.completed⟩ := by simp [step, hread]
      have hdata : log'.data = run.log.data := congrArg (·.getD []) hfile
      rw [hstep]
      exact ⟨hshape, hdata ▸ OnlyTornLineCut.refl _⟩
  | append record =>
    rw [step, append_eq_appendCut]
    refine ⟨?_, appendCut_onlyTornLineCut record _ h⟩
    have hshape := appendCut_shape record
      (run.log.repaired.2 ++ recordText record ++ [newline]).length h hguard
    rwa [if_pos (by simp)] at hshape
  | cut record k =>
    exact ⟨appendCut_shape record k h hguard, appendCut_onlyTornLineCut record k h⟩
  | rejected =>
    obtain ⟨hrepair, hshape, hcut⟩ := repaired_shape h
    refine ⟨?_, hcut⟩
    show Shape run.completed run.log.repaired.1.data run.log.repaired.1.repair
    rw [hrepair]
    exact hshape
  | unrepaired => exact ⟨h, OnlyTornLineCut.refl _⟩
  | reopen => exact ⟨Shape.forget h, OnlyTornLineCut.refl _⟩

theorem foldl_sound {events : List JsonlEvent} (h : run.Sound)
    (hguarded : run.Guarded events) : (events.foldl step run).Sound := by
  induction events generalizing run with
  | nil => exact h
  | cons event events ih => exact ih (step_sound h event hguarded.1).1 hguarded.2

theorem ready_append (record : Record) : (run.step (.append record)).Ready := by
  apply Or.inl
  apply Or.inr
  show (run.log.repaired.1.data ++ (run.log.repaired.2 ++ recordText record ++ [newline])).getLast?
    = some newline
  rw [List.getLast?_append_of_ne_nil _ (by simp), List.getLast?_append_of_ne_nil _ (by simp)]
  rfl

/-- In a run whose appends all find the file ready, every read returns the completed records, in
order, and nothing else; a file that cannot be read holds none; and no event takes anything out of
the file but a last line that is not a record. -/
theorem exact_of_guarded (events : List JsonlEvent) (hguarded : start.Guarded events) :
    (∀ text log, (after events).log.read = some (text, log) → Exact text (after events).completed) ∧
      ((after events).log.read = none → (after events).completed = []) ∧
      ∀ event, (after events).Guard event →
        OnlyTornLineCut (after events).log.data ((after events).step event).log.data := by
  have hsound : (after events).Sound := foldl_sound sound_start hguarded
  refine ⟨fun text log hread => (read_spec hsound hread).1, completed_of_read_eq_none hsound, ?_⟩
  exact fun event hguard => (step_sound hsound event hguard).2

def sampleRecord (n : Int) : Record := [([0x6E], .int n)]

/-- A crash tears the second record; the new object reads before it appends. -/
def tornThenRead : List JsonlEvent :=
  [.append (sampleRecord 1), .cut (sampleRecord 2) 5, .reopen, .read, .append (sampleRecord 3)]

theorem exact_of_tornThenRead :
    start.Guarded tornThenRead ∧ (after tornThenRead).completed = [sampleRecord 1, sampleRecord 3] ∧
      ((∀ text log, (after tornThenRead).log.read = some (text, log) →
          Exact text (after tornThenRead).completed) ∧
        ((after tornThenRead).log.read = none → (after tornThenRead).completed = []) ∧
        ∀ event, (after tornThenRead).Guard event →
          OnlyTornLineCut (after tornThenRead).log.data
            ((after tornThenRead).step event).log.data) :=
  ⟨by decide +kernel, rfl, exact_of_guarded tornThenRead (by decide +kernel)⟩

def failedThenAppended : List JsonlEvent :=
  [.append (sampleRecord 1), .cut (sampleRecord 2) 5, .append (sampleRecord 3)]

/-- The two records become one line, which is neither of them. -/
theorem merged_after_failed_append :
    ¬ ∀ text log, (after failedThenAppended).log.read = some (text, log) →
      Exact text (after failedThenAppended).completed := by
  intro h
  have hread : (after failedThenAppended).log.read.isSome = true := by decide +kernel
  obtain ⟨⟨text, log⟩, hread⟩ := Option.isSome_iff_exists.mp hread
  have hexact := h text log hread
  have htext : text = (((after failedThenAppended).log.read.map Prod.fst).getD []) := by
    rw [hread]
    rfl
  rw [htext] at hexact
  exact absurd hexact (by decide +kernel)

end JsonlRun

end VidbyteSdk.Util

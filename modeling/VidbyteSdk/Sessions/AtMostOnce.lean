import VidbyteSdk.Sessions.FailureRouter

/-!
# At-most-once recovery

A handler gets each failure at most once. The invariant speaks about one id at a time: while an id was
recorded once it has one ledger entry, and once handed over that entry is marked. An eviction drops entry
and mark together, and only `_replace` brings an entry back, with its mark. That failures recorded while a
handler runs are exempt also needs that `_recovering_ids` names every running handler, which holds where
no id was recorded twice: then no two handlers run for one id.
-/

namespace VidbyteSdk.Sessions

open VidbyteSdk.Lib

/-! ### What a run did -/

def RouterEvent.isRecordOf (id : String) : RouterEvent → Bool
  | recorded failure _ => failure.id = id
  | handed .. => false

def RouterEvent.isHandOverOf (id : String) : RouterEvent → Bool
  | recorded .. => false
  | handed failure _ => failure.id = id

def RouterTask.recovers (id : String) : RouterTask → Bool
  | rule .. => false
  | recovery failure .. => failure.id = id

namespace FailureRouter

variable {r : FailureRouter} {f : Failure}

theorem ledger_record (h : r.settings.enabled = true) :
    (r.record f).ledger
      = r.ledger.enter r.settings.maxHistory (decide r.recoveringIds.Nonempty) f.id := by
  unfold record ledger MarkedLedger.enter
  rw [if_pos h]
  simp [List.map_drop, List.map_take]

theorem record_of_disabled (h : ¬ r.settings.enabled = true) : r.record f = r :=
  if_neg h

@[simp] theorem settings_record : (r.record f).settings = r.settings := by
  unfold record
  split <;> rfl

@[simp] theorem recoveringIds_record : (r.record f).recoveringIds = r.recoveringIds := by
  unfold record
  split <;> rfl

theorem length_history : r.history.length = r.ledger.ids.length := by
  unfold ledger
  rw [List.length_map]

theorem findIdx?_eq_none : r.history.findIdx? (·.id = f.id) = none ↔ f.id ∉ r.ledger.ids := by
  unfold ledger
  simp [List.findIdx?_eq_none_iff]

theorem ledger_replace_of_mem (h : f.id ∈ r.ledger.ids) : (r.replace f).ledger = r.ledger := by
  unfold replace
  cases hidx : r.history.findIdx? (·.id = f.id) with
  | none => exact absurd h (findIdx?_eq_none.mp hidx)
  | some i =>
    obtain ⟨hlt, hid, -⟩ := List.findIdx?_eq_some_iff_getElem.mp hidx
    have hmap : (r.history.set i f).map (·.id) = r.history.map (·.id) := by
      have hlt' : i < (r.history.map (·.id)).length := by simpa using hlt
      have hsame : f.id = (r.history.map (·.id))[i] := by
        rw [List.getElem_map]
        exact (of_decide_eq_true hid).symm
      rw [List.map_set, hsame, List.set_getElem_self]
    unfold ledger
    simp only [hmap]

theorem replace_of_notMem (h : f.id ∉ r.ledger.ids) :
    r.replace f = { r.record f with routedIds := insert f.id (r.record f).routedIds } := by
  unfold replace
  rw [findIdx?_eq_none.mpr h]

@[simp] theorem settings_replace : (r.replace f).settings = r.settings := by
  unfold replace
  split
  · rfl
  · exact settings_record

@[simp] theorem recoveringIds_replace : (r.replace f).recoveringIds = r.recoveringIds := by
  unfold replace
  split
  · rfl
  · exact recoveringIds_record

theorem handlerFor_spec {b : RecoveryBinding} (h : r.handlerFor f = some b) :
    r.settings.enabled = true ∧ f.id ∉ r.routedIds := by
  unfold handlerFor at h
  split at h
  · next henabled =>
    refine ⟨henabled, ?_⟩
    cases hb : r.bindings f.code with
    | none => simp [hb] at h
    | some b' =>
      simp only [hb] at h
      split at h
      · cases h
      · split at h
        · cases h
        · next hid => exact hid
  · cases h

end FailureRouter

namespace RouterConfig

/-- How often the id was recorded, by anything but `_replace`. -/
def timesRecorded (c : RouterConfig) (id : String) : Nat := c.log.countP (·.isRecordOf id)

def timesHanded (c : RouterConfig) (id : String) : Nat := c.log.countP (·.isHandOverOf id)

def RecordedOnce (c : RouterConfig) : Prop := ∀ id, c.timesRecorded id ≤ 1

def running (c : RouterConfig) (id : String) : Nat := c.tasks.countP (·.recovers id)

/-- The invariant of a run of a router made with `settings`. -/
structure Intact (c : RouterConfig) (settings : FailureRouterSettings) : Prop where
  sameSettings : c.router.settings = settings
  bounded : c.router.ledger.ids.length ≤ settings.maxHistory
  known : ∀ id, c.timesRecorded id = 0 → id ∉ c.router.ledger.ids ∧ c.timesHanded id = 0
  once : ∀ id, c.timesRecorded id ≤ 1 → c.router.ledger.ids.count id ≤ 1 ∧ c.timesHanded id ≤ 1
  marked : ∀ id, c.timesRecorded id ≤ 1 → 0 < c.timesHanded id → id ∈ c.router.ledger.ids →
    id ∈ c.router.ledger.marks
  running_le : ∀ id, c.running id ≤ c.timesHanded id
  recovering : c.RecordedOnce → ∀ id, 0 < c.running id → id ∈ c.router.recoveringIds
  exempt : c.RecordedOnce → ∀ f, RouterEvent.recorded f true ∈ c.log →
    c.timesHanded f.id = 0 ∧ (f.id ∈ c.router.ledger.ids → f.id ∈ c.router.ledger.marks)

section

variable {c c' : RouterConfig} {settings : FailureRouterSettings} {f : Failure} {id : String}

theorem exists_running_of_handlerRuns (h : c.handlerRuns = true) : ∃ id, 0 < c.running id := by
  obtain ⟨t, ht, hrec⟩ := List.any_eq_true.mp h
  cases t with
  | rule current rules => cases hrec
  | recovery failure binding next =>
    refine ⟨failure.id, List.countP_pos_iff.mpr ⟨_, ht, ?_⟩⟩
    simp [RouterTask.recovers]

theorem one_le_timesRecorded {b : Bool} (h : RouterEvent.recorded f b ∈ c.log) :
    1 ≤ c.timesRecorded f.id := by
  apply List.countP_pos_iff.mpr
  exact ⟨_, h, by simp [RouterEvent.isRecordOf]⟩

/-! ### The parts of a step -/

theorem timesRecorded_record (henabled : c.router.settings.enabled = true) :
    (c.record f).timesRecorded id = c.timesRecorded id + if f.id = id then 1 else 0 := by
  unfold record timesRecorded
  rw [if_pos henabled, List.countP_append, List.countP_singleton]
  simp [RouterEvent.isRecordOf]

theorem timesHanded_record : (c.record f).timesHanded id = c.timesHanded id := by
  unfold record timesHanded
  split
  · rw [List.countP_append, List.countP_singleton]
    simp [RouterEvent.isHandOverOf]
  · rfl

theorem Intact.record (h : c.Intact settings) : (c.record f).Intact settings := by
  by_cases henabled : c.router.settings.enabled = true
  swap
  · unfold RouterConfig.record
    rwa [if_neg henabled]
  have hrecorded : ∀ id, (c.record f).timesRecorded id
      = c.timesRecorded id + if f.id = id then 1 else 0 := fun _ => timesRecorded_record henabled
  have hhanded : ∀ id, (c.record f).timesHanded id = c.timesHanded id := fun _ => timesHanded_record
  have hrouter : (c.record f).router = c.router.record f := by
    unfold RouterConfig.record
    rw [if_pos henabled]
  have htasks : (c.record f).tasks = c.tasks := by
    unfold RouterConfig.record
    rw [if_pos henabled]
  have hlog : (c.record f).log = c.log ++ [.recorded f c.handlerRuns] := by
    unfold RouterConfig.record
    rw [if_pos henabled]
  have hledger := FailureRouter.ledger_record (f := f) henabled
  -- an id that is marked, or marked by this record, stays marked with its entry
  have hmarks : ∀ id, (c.router.ledger.ids ++ [f.id]).count id ≤ 1 →
      id ∈ (c.router.record f).ledger.ids →
      id ∈ c.router.ledger.marks ∨ decide c.router.recoveringIds.Nonempty = true ∧ id = f.id →
      id ∈ (c.router.record f).ledger.marks := by
    intro id hone hid hmark
    rw [hledger] at hid ⊢
    exact MarkedLedger.mem_marks_enter hone hid hmark
  have hmem : ∀ id, id ∈ (c.router.record f).ledger.ids → id ∈ c.router.ledger.ids ∨ id = f.id := by
    intro id hid
    rw [hledger] at hid
    exact MarkedLedger.mem_ids_of_mem_enter hid
  have honce : (c.record f).RecordedOnce → c.RecordedOnce := by
    intro hall id
    have := hall id
    rw [hrecorded] at this
    omega
  have hcount : ∀ id, f.id ≠ id →
      (c.router.ledger.ids ++ [f.id]).count id = c.router.ledger.ids.count id := by
    intro id hne
    rw [List.count_append, List.count_singleton]
    simp [hne]
  refine ⟨?_, ?_, fun id hzero => ?_, fun id hle => ?_, fun id hle hpos hid => ?_, fun id => ?_,
    fun hall id hrun => ?_, fun hall g hg => ?_⟩
  · rw [hrouter, FailureRouter.settings_record]
    exact h.sameSettings
  · rw [hrouter, hledger, h.sameSettings]
    exact MarkedLedger.length_ids_enter
  · rw [hrecorded] at hzero
    have hne : f.id ≠ id := by
      intro heq
      rw [if_pos heq] at hzero
      omega
    obtain ⟨hid, hhand⟩ := h.known id (by omega)
    rw [hrouter, hhanded]
    refine ⟨fun hmem' => ?_, hhand⟩
    rcases hmem id hmem' with hold | heq
    · exact hid hold
    · exact hne heq.symm
  · rw [hrecorded] at hle
    rw [hrouter, hhanded, hledger]
    have hbound : ((c.router.ledger.enter c.router.settings.maxHistory
        (decide c.router.recoveringIds.Nonempty) f.id).ids).count id
          ≤ c.router.ledger.ids.count id + if f.id = id then 1 else 0 :=
      MarkedLedger.count_ids_enter_le
    by_cases heq : f.id = id
    · rw [if_pos heq] at hle hbound
      obtain ⟨hid, hhand⟩ := h.known id (by omega)
      have hzero := List.count_eq_zero.mpr hid
      omega
    · rw [if_neg heq] at hle hbound
      have := h.once id (by omega)
      omega
  · rw [hrecorded] at hle
    rw [hhanded] at hpos
    rw [hrouter] at hid ⊢
    have hne : f.id ≠ id := by
      intro heq
      rw [if_pos heq] at hle
      have := (h.known id (by omega)).2
      omega
    rw [if_neg hne] at hle
    have hold : id ∈ c.router.ledger.ids := (hmem id hid).resolve_right (Ne.symm hne)
    apply hmarks id ?_ hid (Or.inl (h.marked id hle hpos hold))
    rw [hcount id hne]
    exact (h.once id hle).1
  · unfold running
    rw [htasks, hhanded]
    exact h.running_le id
  · unfold running at hrun
    rw [htasks] at hrun
    rw [hrouter, FailureRouter.recoveringIds_record]
    exact h.recovering (honce hall) id hrun
  · rw [hlog] at hg
    rw [hhanded, hrouter]
    rcases List.mem_append.mp hg with hold | hnew
    · have hne : f.id ≠ g.id := by
        intro heq
        have hle := hall g.id
        rw [hrecorded, if_pos heq] at hle
        have := one_le_timesRecorded hold
        omega
      obtain ⟨hhand, hmark⟩ := h.exempt (honce hall) g hold
      refine ⟨hhand, fun hid => ?_⟩
      have hstored : g.id ∈ c.router.ledger.ids := (hmem _ hid).resolve_right (Ne.symm hne)
      apply hmarks _ ?_ hid (Or.inl (hmark hstored))
      rw [hcount _ hne]
      exact (h.once _ (honce hall _)).1
    · -- the failure recorded just now, while a handler runs
      obtain ⟨rfl, hruns⟩ : g = f ∧ true = c.handlerRuns := by simpa using hnew
      have hle := hall g.id
      rw [hrecorded, if_pos rfl] at hle
      obtain ⟨hid, hhand⟩ := h.known g.id (by omega)
      refine ⟨hhand, fun hid' => ?_⟩
      obtain ⟨y, hy⟩ := exists_running_of_handlerRuns hruns.symm
      have hnonempty : c.router.recoveringIds.Nonempty := ⟨y, h.recovering (honce hall) y hy⟩
      apply hmarks _ ?_ hid' (Or.inr ⟨decide_eq_true hnonempty, rfl⟩)
      rw [List.count_append, List.count_eq_zero.mpr hid, List.count_singleton_self]

/-- A step that records and hands over nothing: it may bring back ids that were handed over, and it may
not unmark an id that stays. -/
theorem Intact.of_ledger (h : c.Intact settings) (hlog : c'.log = c.log)
    (hrun : ∀ id, c'.running id ≤ c.running id)
    (hrecovering : c'.router.recoveringIds = c.router.recoveringIds)
    (hsettings : c'.router.settings = c.router.settings)
    (hbounded : c'.router.ledger.ids.length ≤ c.router.settings.maxHistory)
    (hmem : ∀ id, id ∈ c'.router.ledger.ids → id ∈ c.router.ledger.ids ∨ 0 < c.timesHanded id)
    (hcount : ∀ id, c.router.ledger.ids.count id ≤ 1 → c'.router.ledger.ids.count id ≤ 1)
    (hmark : ∀ id, c.router.ledger.ids.count id ≤ 1 → id ∈ c'.router.ledger.ids →
      (id ∈ c.router.ledger.ids → id ∈ c.router.ledger.marks) → id ∈ c'.router.ledger.marks) :
    c'.Intact settings := by
  have hrecorded : ∀ id, c'.timesRecorded id = c.timesRecorded id := by
    intro id
    unfold timesRecorded
    rw [hlog]
  have hhanded : ∀ id, c'.timesHanded id = c.timesHanded id := by
    intro id
    unfold timesHanded
    rw [hlog]
  have honce : c'.RecordedOnce → c.RecordedOnce := fun hall id => (hrecorded id).symm.trans_le (hall id)
  rw [h.sameSettings] at hsettings hbounded
  refine ⟨hsettings, hbounded, fun id hzero => ?_, fun id hle => ?_, fun id hle hpos hid => ?_, fun id => ?_,
    fun hall id hpos => ?_, fun hall g hg => ?_⟩
  · rw [hrecorded] at hzero
    obtain ⟨hid, hhand⟩ := h.known id hzero
    rw [hhanded]
    refine ⟨fun hid' => ?_, hhand⟩
    rcases hmem id hid' with hold | hpos
    · exact hid hold
    · omega
  · rw [hrecorded] at hle
    rw [hhanded]
    exact ⟨hcount id (h.once id hle).1, (h.once id hle).2⟩
  · rw [hrecorded] at hle
    rw [hhanded] at hpos
    apply hmark id (h.once id hle).1 hid
    intro hold
    exact h.marked id hle hpos hold
  · rw [hhanded]
    exact (hrun id).trans (h.running_le id)
  · rw [hrecovering]
    exact h.recovering (honce hall) id (hpos.trans_le (hrun id))
  · rw [hlog] at hg
    rw [hhanded]
    obtain ⟨hhand, hold⟩ := h.exempt (honce hall) g hg
    refine ⟨hhand, fun hid => ?_⟩
    exact hmark g.id (h.once _ (honce hall _)).1 hid hold

theorem Intact.of_same_ledger (h : c.Intact settings) (hlog : c'.log = c.log)
    (hrun : ∀ id, c'.running id ≤ c.running id)
    (hrecovering : c'.router.recoveringIds = c.router.recoveringIds)
    (hsettings : c'.router.settings = c.router.settings)
    (hledger : c'.router.ledger = c.router.ledger) : c'.Intact settings := by
  apply h.of_ledger hlog hrun hrecovering hsettings
  · rw [hledger, h.sameSettings]
    exact h.bounded
  · intro id hid
    rw [hledger] at hid
    exact Or.inl hid
  · intro id hone
    rwa [hledger]
  · intro id _ hid hold
    rw [hledger] at hid ⊢
    exact hold hid

/-- `_replace` of a failure that was handed over. -/
theorem Intact.replace (h : c.Intact settings) (hpos : 0 < c.timesHanded f.id) : (c.replace f).Intact settings := by
  by_cases hmem : f.id ∈ c.router.ledger.ids
  · apply h.of_same_ledger
    · rfl
    · exact fun _ => le_rfl
    · exact FailureRouter.recoveringIds_replace
    · exact FailureRouter.settings_replace
    · exact FailureRouter.ledger_replace_of_mem hmem
  · have hrouter : (c.replace f).router
        = { c.router.record f with routedIds := insert f.id (c.router.record f).routedIds } :=
      FailureRouter.replace_of_notMem hmem
    have hids : (c.replace f).router.ledger.ids = (c.router.record f).ledger.ids := by
      rw [hrouter]
      rfl
    have hmarks : (c.replace f).router.ledger.marks = insert f.id (c.router.record f).ledger.marks := by
      rw [hrouter]
      rfl
    by_cases henabled : c.router.settings.enabled = true
    · have hledger := FailureRouter.ledger_record (f := f) henabled
      have hback : ∀ id, id ∈ (c.replace f).router.ledger.ids →
          id ∈ c.router.ledger.ids ∨ id = f.id := by
        intro id hid
        rw [hids, hledger] at hid
        exact MarkedLedger.mem_ids_of_mem_enter hid
      apply h.of_ledger
      · rfl
      · exact fun _ => le_rfl
      · exact FailureRouter.recoveringIds_replace
      · exact FailureRouter.settings_replace
      · rw [hids, hledger]
        exact MarkedLedger.length_ids_enter
      · intro id hid
        rcases hback id hid with hold | rfl
        · exact Or.inl hold
        · exact Or.inr hpos
      · intro id hone
        have hbound : (c.replace f).router.ledger.ids.count id
            ≤ c.router.ledger.ids.count id + if f.id = id then 1 else 0 := by
          rw [hids, hledger]
          exact MarkedLedger.count_ids_enter_le
        by_cases heq : f.id = id
        · have hzero := List.count_eq_zero.mpr (heq ▸ hmem)
          rw [if_pos heq] at hbound
          omega
        · rw [if_neg heq] at hbound
          omega
      · intro id hone hid hold
        rw [hmarks]
        by_cases heq : id = f.id
        · rw [heq]
          exact Finset.mem_insert_self _ _
        · apply Finset.mem_insert_of_mem
          have hstored := (hback id hid).resolve_right heq
          rw [hids] at hid
          rw [hledger] at hid ⊢
          apply MarkedLedger.mem_marks_enter ?_ hid (Or.inl (hold hstored))
          rw [List.count_append, List.count_singleton]
          simpa [Ne.symm heq] using hone
    · have hsame : c.router.record f = c.router := FailureRouter.record_of_disabled henabled
      rw [hsame] at hids hmarks
      apply h.of_ledger
      · rfl
      · exact fun _ => le_rfl
      · exact FailureRouter.recoveringIds_replace
      · exact FailureRouter.settings_replace
      · rw [hids, h.sameSettings]
        exact h.bounded
      · intro id hid
        exact Or.inl (hids ▸ hid)
      · intro id hone
        rwa [hids]
      · intro id _ hid hold
        rw [hmarks]
        exact Finset.mem_insert_of_mem (hold (hids ▸ hid))

theorem Intact.handOver (h : c.Intact settings) {b : RecoveryBinding} (next : Continuation)
    (hmem : f.id ∈ c.router.ledger.ids) (hnew : f.id ∉ c.router.routedIds) :
    (c.handOver f b next).Intact settings := by
  let c' := c.handOver f b next
  have hledger : c'.router.ledger = ⟨c.router.ledger.ids, insert f.id c.router.ledger.marks⟩ :=
    FailureRouter.ledger_replace_of_mem
      (r := { c.router with routedIds := insert f.id c.router.routedIds })
      (f := { f with status := .recovering, handledBy := some b.handler.name }) hmem
  have hrecovering : c'.router.recoveringIds = insert f.id c.router.recoveringIds :=
    congrArg (insert f.id) FailureRouter.recoveringIds_replace
  have hrecorded : ∀ id, c'.timesRecorded id = c.timesRecorded id := by
    intro id
    show (c.log ++ [_]).countP _ = c.log.countP _
    rw [List.countP_append, List.countP_singleton]
    simp [RouterEvent.isRecordOf]
  have hhanded : ∀ id, c'.timesHanded id = c.timesHanded id + if f.id = id then 1 else 0 := by
    intro id
    show (c.log ++ [_]).countP _ = c.log.countP _ + _
    rw [List.countP_append, List.countP_singleton]
    simp [RouterEvent.isHandOverOf]
  have hrunning : ∀ id, c'.running id = c.running id + if f.id = id then 1 else 0 := by
    intro id
    show (c.tasks ++ [_]).countP _ = c.tasks.countP _ + _
    rw [List.countP_append, List.countP_singleton]
    simp [RouterTask.recovers]
  have hlogged : ∀ g, RouterEvent.recorded g true ∈ c'.log → RouterEvent.recorded g true ∈ c.log := by
    intro g hg
    rcases List.mem_append.mp hg with hold | hlast
    · exact hold
    · simp at hlast
  refine ⟨?_, ?_, fun id hzero => ?_, fun id hle => ?_, fun id hle hpos hid => ?_, fun id => ?_,
    fun hall id hpos => ?_, fun hall g hg => ?_⟩
  · have hsettings : c'.router.settings = c.router.settings := FailureRouter.settings_replace
    exact hsettings.trans h.sameSettings
  · show c'.router.ledger.ids.length ≤ settings.maxHistory
    rw [hledger]
    exact h.bounded
  · have hne : f.id ≠ id := by
      rintro rfl
      exact (h.known _ ((hrecorded _).symm.trans hzero)).1 hmem
    show id ∉ c'.router.ledger.ids ∧ c'.timesHanded id = 0
    rw [hledger, hhanded, if_neg hne]
    exact h.known id ((hrecorded id).symm.trans hzero)
  · have hle' := (hrecorded id).symm.trans_le hle
    show c'.router.ledger.ids.count id ≤ 1 ∧ c'.timesHanded id ≤ 1
    rw [hledger, hhanded]
    obtain ⟨hcount, hhand⟩ := h.once id hle'
    refine ⟨hcount, ?_⟩
    by_cases heq : f.id = id
    · -- were it handed over before, its entry would be marked
      have hzero : c.timesHanded id = 0 := by
        by_contra hpos
        apply hnew
        rw [heq] at hmem ⊢
        exact h.marked id hle' (Nat.pos_of_ne_zero hpos) hmem
      rw [if_pos heq]
      omega
    · rw [if_neg heq]
      omega
  · have hle' := (hrecorded id).symm.trans_le hle
    show id ∈ c'.router.ledger.marks
    have hid' : id ∈ c'.router.ledger.ids := hid
    have hpos' : 0 < c'.timesHanded id := hpos
    rw [hledger] at hid' ⊢
    rw [hhanded] at hpos'
    by_cases heq : f.id = id
    · rw [← heq]
      exact Finset.mem_insert_self _ _
    · rw [if_neg heq] at hpos'
      exact Finset.mem_insert_of_mem (h.marked id hle' hpos' hid')
  · show c'.running id ≤ c'.timesHanded id
    rw [hrunning, hhanded]
    have := h.running_le id
    omega
  · have hall' : c.RecordedOnce := fun id => (hrecorded id).symm.trans_le (hall id)
    have hpos' : 0 < c'.running id := hpos
    show id ∈ c'.router.recoveringIds
    rw [hrecovering]
    rw [hrunning] at hpos'
    by_cases heq : f.id = id
    · rw [← heq]
      exact Finset.mem_insert_self _ _
    · rw [if_neg heq] at hpos'
      exact Finset.mem_insert_of_mem (h.recovering hall' id hpos')
  · have hall' : c.RecordedOnce := fun id => (hrecorded id).symm.trans_le (hall id)
    obtain ⟨hhand, hmark⟩ := h.exempt hall' g (hlogged g hg)
    have hne : f.id ≠ g.id := by
      intro heq
      apply hnew
      rw [heq] at hmem ⊢
      exact hmark hmem
    show c'.timesHanded g.id = 0 ∧ (g.id ∈ c'.router.ledger.ids → g.id ∈ c'.router.ledger.marks)
    rw [hledger, hhanded, if_neg hne]
    exact ⟨hhand, fun hid => Finset.mem_insert_of_mem (hmark hid)⟩

theorem Intact.endRecovery (h : c.Intact settings) {i : Nat} {b : RecoveryBinding} {next : Continuation}
    (hi : c.tasks[i]? = some (.recovery f b next)) :
    (c.endRecovery i f).Intact settings ∧ 0 < (c.endRecovery i f).timesHanded f.id := by
  let c' := c.endRecovery i f
  have hrunning : ∀ id, c.running id = c'.running id + if f.id = id then 1 else 0 := by
    intro id
    obtain ⟨hlt, htask⟩ := List.getElem?_eq_some_iff.mp hi
    have hperm : (c.tasks[i] :: c.tasks.eraseIdx i).Perm c.tasks := List.getElem_cons_eraseIdx_perm hlt
    have hcount := hperm.countP_eq (·.recovers id)
    rw [List.countP_cons, htask] at hcount
    show c.tasks.countP _ = (c.tasks.eraseIdx i).countP _ + _
    rw [← hcount]
    simp [RouterTask.recovers]
  have hpos : 0 < c.timesHanded f.id := by
    have hrun := hrunning f.id
    rw [if_pos rfl] at hrun
    have := h.running_le f.id
    omega
  refine ⟨⟨h.sameSettings, h.bounded, h.known, h.once, h.marked, fun id => ?_, fun hall id hrun => ?_, h.exempt⟩, hpos⟩
  · have hle : c.running id ≤ c.timesHanded id := h.running_le id
    show c'.running id ≤ c.timesHanded id
    have := hrunning id
    omega
  · -- no other handler runs for this id, as it was handed over once
    have hrun' : 0 < c'.running id := hrun
    have hone := (h.once id (hall id)).2
    have hle := h.running_le id
    have hadd := hrunning id
    have hne : f.id ≠ id := by
      intro heq
      rw [if_pos heq] at hadd
      omega
    show id ∈ c.router.recoveringIds.erase f.id
    apply Finset.mem_erase.mpr
    exact ⟨Ne.symm hne, h.recovering hall id (by omega)⟩

theorem Intact.withRouter (h : c.Intact settings) {r : FailureRouter} (hsettings : r.settings = c.router.settings)
    (hledger : r.ledger = c.router.ledger) (hrecovering : r.recoveringIds = c.router.recoveringIds) :
    ({ c with router := r } : RouterConfig).Intact settings :=
  h.of_same_ledger rfl (fun _ => le_rfl) hrecovering hsettings hledger

/-! ### The operations -/

theorem Intact.captureReply (h : c.Intact settings) (failures : List Failure) :
    (c.captureReply failures).Intact settings := by
  unfold RouterConfig.captureReply
  split
  · exact List.foldlRecOn (motive := fun c => c.Intact settings) failures RouterConfig.record h
      fun _ hc _ _ => hc.record
  · exact h

theorem Intact.captureException (h : c.Intact settings) (exc : RaisedException) :
    (c.captureException exc f).Intact settings := by
  unfold RouterConfig.captureException
  split
  · exact h
  · exact h.record

theorem Intact.evaluateRules (h : c.Intact settings) (rules : List FailureRule) :
    (c.evaluateRules rules).Intact settings := by
  cases rules with
  | nil => exact h
  | cons current rules =>
    refine h.of_same_ledger rfl (fun id => ?_) rfl rfl rfl
    show (c.tasks ++ [_]).countP _ ≤ c.tasks.countP _
    rw [List.countP_append, List.countP_singleton]
    simp [RouterTask.recovers]

theorem Intact.evaluate (h : c.Intact settings) (hook : MiddlewareHook) : (c.evaluate hook).Intact settings := by
  unfold RouterConfig.evaluate
  split
  · exact h.evaluateRules _
  · exact h

theorem Intact.routeSnapshot (h : c.Intact settings) (pending : List Failure) :
    (c.routeSnapshot (c.router.history.map (·.id)) pending).Intact settings := by
  induction pending with
  | nil => exact h
  | cons failure pending ih =>
    unfold RouterConfig.routeSnapshot
    split
    · next heligible =>
      obtain ⟨-, hnew, hlive⟩ := heligible
      split
      · exact h.handOver _ hlive hnew
      · exact ih
    · exact ih

theorem Intact.routePending (h : c.Intact settings) (pending : List Failure) :
    (c.routePending pending).Intact settings := by
  unfold RouterConfig.routePending
  split
  · exact h.routeSnapshot pending
  · exact h

theorem Intact.applyRule (h : c.Intact settings) (current : FailureRule) (rules : List FailureRule) :
    (c.applyRule current rules f).Intact settings := by
  unfold RouterConfig.applyRule
  simp only
  split
  · exact h
  · have hrec : (c.record (current.withRuleDisposition f)).Intact settings := h.record
    split
    · split
      · next b hb =>
        -- the record just made is in the ledger
        obtain ⟨henabled, hnew⟩ := FailureRouter.handlerFor_spec hb
        have henabled' : c.router.settings.enabled = true := by
          unfold RouterConfig.record at henabled
          split at henabled
          · next henabled' => exact henabled'
          · exact henabled
        apply hrec.handOver _ ?_ hnew
        unfold RouterConfig.record
        rw [if_pos henabled']
        show _ ∈ (c.router.record _).ledger.ids
        rw [FailureRouter.ledger_record henabled']
        exact MarkedLedger.self_mem_ids_enter c.router.settings.maxHistory_pos
      · exact hrec.evaluateRules rules
    · exact hrec
    · exact hrec
    · exact hrec.evaluateRules rules

theorem Intact.resumeRule (h : c.Intact settings) (current : FailureRule) (rules : List FailureRule)
    (newId : String) (outcome : RuleOutcome) :
    (c.resumeRule current rules newId outcome).Intact settings := by
  cases outcome with
  | returned failure =>
    cases failure with
    | none => exact h.evaluateRules rules
    | some failure => exact h.applyRule current rules
  | raised =>
    have hrec : (c.record (current.ruleError newId)).Intact settings := h.record
    unfold RouterConfig.resumeRule
    cases current.onError with
    | closed => exact hrec
    | «open» => exact hrec.evaluateRules rules
  | cancelled => exact h

theorem Intact.handleRecoveryError (h : c.Intact settings) (hpos : 0 < c.timesHanded f.id)
    (b : RecoveryBinding) (newId errorType : String) :
    (c.handleRecoveryError f b newId errorType).1.Intact settings := by
  unfold RouterConfig.handleRecoveryError
  apply Intact.replace
  · exact h.record.withRouter rfl rfl rfl
  · exact timesHanded_record.symm ▸ hpos

theorem Intact.finishRoute (h : c.Intact settings) (hpos : 0 < c.timesHanded f.id) (b : RecoveryBinding)
    (newId : String) (outcome : HandlerOutcome) : (c.finishRoute f b newId outcome).1.Intact settings := by
  cases outcome with
  | returned result =>
    unfold RouterConfig.finishRoute
    apply Intact.replace
    · exact h.withRouter rfl rfl rfl
    · exact hpos
  | returnedOther => exact h.handleRecoveryError hpos b newId "TypeError"
  | failureRaised => exact h.replace hpos
  | raised errorType => exact h.handleRecoveryError hpos b newId errorType
  | cancelled => exact h

theorem Intact.continueWith (h : c.Intact settings) (next : Continuation) : (c.continueWith next).Intact settings := by
  cases next with
  | evaluate rules => exact h.evaluateRules rules
  | routePending pending => exact h.routePending pending

/-! ### Steps and runs -/

theorem Intact.step (h : c.Intact settings) (action : Action) : (c.step action).Intact settings := by
  cases action with
  | captureReply failures => exact h.captureReply failures
  | captureException exc failure => exact h.captureException exc
  | emit failure => exact h.record
  | evaluate hook => exact h.evaluate hook
  | routePending => exact h.routePending _
  | addRule rule =>
    apply h.withRouter <;> (unfold FailureRouter.addRule; split <;> rfl)
  | removeRule callback => exact h.withRouter rfl rfl rfl
  | on code binding => exact h.withRouter rfl rfl rfl
  | ruleEnds i outcome newId =>
    simp only [RouterConfig.step]
    split
    · next current rules hi =>
      apply Intact.resumeRule
      refine h.of_same_ledger rfl (fun id => ?_) rfl rfl rfl
      exact (List.eraseIdx_sublist c.tasks i).countP_le
    · exact h
  | handlerEnds i outcome newId =>
    simp only [RouterConfig.step]
    split
    · next failure binding next hi =>
      obtain ⟨hend, hpos⟩ := h.endRecovery hi
      have hfinish := hend.finishRoute hpos binding newId outcome
      split
      · exact hfinish.continueWith next
      · exact hfinish
    · exact h

theorem intact_new (settings : FailureRouterSettings) :
    ({ router := { settings := settings } } : RouterConfig).Intact settings where
  sameSettings := rfl
  bounded := Nat.zero_le _
  known _ _ := ⟨List.not_mem_nil, rfl⟩
  once _ _ := ⟨Nat.zero_le 1, Nat.zero_le 1⟩
  marked _ _ hpos := absurd hpos (Nat.lt_irrefl 0)
  running_le _ := le_rfl
  recovering _ _ hpos := absurd hpos (Nat.lt_irrefl 0)
  exempt _ _ hf := absurd hf List.not_mem_nil

theorem intact_run (settings : FailureRouterSettings) (actions : List Action) :
    (run settings actions).Intact settings :=
  List.foldlRecOn (motive := fun c => c.Intact settings) actions RouterConfig.step
    (intact_new settings) fun _ hc action _ => hc.step action

end

end RouterConfig

/-! ### Main result -/

/-- At every moment of every run: an id that was recorded once is handed over at most once and has at
most one entry, and the ledger keeps its bound; and where no id was recorded twice, no failure recorded
while a handler ran is handed over. -/
theorem recovery_at_most_once (settings : FailureRouterSettings) (actions : List RouterConfig.Action) :
    let c := RouterConfig.run settings actions
    (∀ id, c.timesRecorded id ≤ 1 → c.timesHanded id ≤ 1) ∧
    (c.RecordedOnce → ∀ f, RouterEvent.recorded f true ∈ c.log → c.timesHanded f.id = 0) ∧
    c.router.history.length ≤ settings.maxHistory ∧
    ∀ id, c.timesRecorded id ≤ 1 → (c.router.history.map (·.id)).count id ≤ 1 := by
  intro c
  have h := RouterConfig.intact_run settings actions
  refine ⟨fun id hle => (h.once id hle).2, fun hall f hf => (h.exempt hall f hf).1, ?_,
    fun id hle => (h.once id hle).1⟩
  rw [FailureRouter.length_history]
  exact h.bounded

def keptFailure (status : FailureStatus) : Failure where
  code := .other "data.stale"
  source := "loader"
  id := "fl_1"
  status := status

/-- The kept failure is reported, another one goes to its handler, and meanwhile the kept failure is
reported again and the pending failures are routed. -/
def reportedAgainWhileRecovering : List RouterConfig.Action :=
  [.on (.other "data.stale") ⟨⟨"refresh", none⟩, false⟩,
    .on (.other "tool.timeout") ⟨⟨"retry", none⟩, false⟩,
    .captureReply [keptFailure .observed],
    .captureReply [{ code := .other "tool.timeout", source := "tool", id := "fl_2", status := .exhausted }],
    .routePending,
    .captureReply [keptFailure .exhausted],
    .routePending]

/-- What goes wrong with a failure id that is recorded twice, in a ledger of two. Both its entries may
stay. And where the second record, made while a handler runs, evicts the first, the mark of the id goes
with it, and the failure is handed over all the same. -/
theorem recorded_twice :
    ¬ ((RouterConfig.run ⟨2, by decide, true⟩
        [.captureReply [keptFailure .observed], .captureReply [keptFailure .observed]]).router.history.map
          (·.id)).Nodup ∧
    (RouterEvent.recorded (keptFailure .exhausted) true
        ∈ (RouterConfig.run ⟨2, by decide, true⟩ reportedAgainWhileRecovering).log ∧
      (RouterConfig.run ⟨2, by decide, true⟩ reportedAgainWhileRecovering).timesHanded "fl_1" = 1) := by
  decide

end VidbyteSdk.Sessions

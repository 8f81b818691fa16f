import VidbyteSdk.Sessions.Ingest

/-!
# Isolation of bundle imports

When does importing an untrusted bundle leave every other session alone? The import refuses a session
id that has metadata and mints fresh checkpoint ids when one of the bundle's ids is stored, so the rows
it writes are new rows. But it trusts the session id of each checkpoint, does not check that these ids
differ, and writes one record after the other. `import_isolated_iff` says exactly which bundles it
imports as promised.
-/

namespace VidbyteSdk.Sessions

open VidbyteSdk.Lib Prog

variable {J : Type}

/-! ### The promise -/

/-- Nothing a caller can read of the store differs. -/
structure SameContents (st st' : Store J) : Prop where
  history : ∀ sessionId, st'.history sessionId = st.history sessionId
  head : ∀ sessionId, st'.head sessionId = st.head sessionId
  metadata : ∀ sessionId, st'.readMeta sessionId = st.readMeta sessionId
  lookup : ∀ id, st'.readCheckpoint id = st.readCheckpoint id

/-- A checkpoint but for the fields that an import may rewrite. -/
def Checkpoint.record (c : Checkpoint J) : Checkpoint J :=
  { c with id := "", sessionId := "", parentId := none }

/-- The checkpoints `cs` of a bundle became the new session `r`, and nothing else changed. -/
structure ImportedAs (st st' : Store J) (cs : List (Checkpoint J)) (r : String) : Prop where
  unused : st.readMeta r = none ∧ st.history r = []
  others : ∀ sessionId, sessionId ≠ r → st'.history sessionId = st.history sessionId ∧
    st'.head sessionId = st.head sessionId ∧ st'.readMeta sessionId = st.readMeta sessionId
  readable : ∀ id c, st'.readCheckpoint id = some c → st.readCheckpoint id ≠ some c →
    c.sessionId = r
  complete : (cs.map Checkpoint.record).Subperm ((st'.history r).map Checkpoint.record)
  head : ∀ c, st'.head r = some c → c ∈ st'.history r

/-- The import raises and changes nothing a caller can read, or imports the bundle as a new session. -/
def Isolated (env : Environment) (h : Host J) (bundle : Bundle J) (newId : Option String) : Prop :=
  let o := StoreM.importBundle env bundle newId h
  match o.result with
  | .error _ => SameContents h.store o.final.store
  | .ok r => ∃ m cs, readBundle bundle = .ok (m, cs) ∧ ImportedAs h.store o.final.store cs r

/-- No reading of `uuid4` still to come gives an id that the store has, or that a head pointer names. -/
def UnusedIds (env : Environment) (h : Host J) : Prop :=
  ∀ k, h.clock ≤ k → h.store.readCheckpoint (mintedId env k) = none ∧
    ∀ sessionId m, h.store.readMeta sessionId = some m → m.headId ≠ some (mintedId env k)

/-- The records of a bundle land in one new session and nowhere else: each under the session id of the
metadata, each in a row of its own, in a session without checkpoints, under a head that is theirs or
nobody's; and no dangling head of another session names one of them. -/
structure Lands (h : Host J) (m : SessionMeta) (cs : List (Checkpoint J)) (newId : Option String) :
    Prop where
  own : ∀ c ∈ cs, newId.getD c.sessionId = newId.getD m.sessionId
  distinct : (cs.map fun c => h.store.backend.slot (rewriteCheckpoint newId c)).Nodup
  unused : h.store.history (newId.getD m.sessionId) = []
  head : ∀ id, m.headId = some id → (∃ c ∈ cs, c.id = id) ∨ h.store.readCheckpoint id = none
  dangling : anyCheckpointExists h.store cs = false → ∀ sessionId other,
    h.store.readMeta sessionId = some other → ∀ c ∈ cs, other.headId ≠ some c.id

section

variable {env : Environment} {h : Host J} {m : SessionMeta} {cs : List (Checkpoint J)}
  {newId : Option String}

/-! ### The rows are new -/

variable {st : Store J}

theorem readCheckpoint_eq_none {id : String} :
    st.readCheckpoint id = none ↔ ∀ c ∈ st.checkpoints, c.id ≠ id := by
  simp [Store.readCheckpoint, List.find?_eq_none]

theorem anyCheckpointExists_eq_false :
    anyCheckpointExists st cs = false ↔ ∀ c ∈ cs, st.readCheckpoint c.id = none := by
  simp [anyCheckpointExists]

theorem readCheckpoint_remap (hids : UnusedIds env h) (id : String) :
    h.store.readCheckpoint (remap (importFresh env h cs) id) = none
      ↔ (∃ c ∈ cs, c.id = id) ∨ h.store.readCheckpoint id = none := by
  unfold importFresh
  by_cases hmem : ∃ c ∈ cs, c.id = id
  · refine iff_of_true ?_ (Or.inl hmem)
    by_cases hcol : anyCheckpointExists h.store cs = true
    · obtain ⟨c, k, hck, -, hk⟩ := remap_freshIds_of_mem env h.clock hmem
      have hle : h.clock ≤ k := (List.mk_mem_zipIdx_iff_le_and_getElem?_sub.mp hck).1
      rw [if_pos hcol, hk]
      exact (hids k hle).1
    · obtain ⟨c, hc, rfl⟩ := hmem
      rw [if_neg hcol, remap_nil]
      exact anyCheckpointExists_eq_false.mp (Bool.eq_false_iff.mpr hcol) c hc
  · rw [or_iff_right hmem]
    by_cases hcol : anyCheckpointExists h.store cs = true
    · rw [if_pos hcol, remap_freshIds_of_not_mem fun c hc hid => hmem ⟨c, hc, hid⟩]
    · rw [if_neg hcol, remap_nil]

variable {w : Checkpoint J}

theorem mem_importRows :
    w ∈ importRows env h cs newId ↔ ∃ c ∈ cs, importImage env h cs newId c = w := by
  rw [importRows, List.mem_map]
  simp only [inSeqOrder_perm.mem_iff]

theorem readCheckpoint_importRows (hids : UnusedIds env h)
    (hw : w ∈ importRows env h cs newId) : h.store.readCheckpoint w.id = none := by
  obtain ⟨c, hc, rfl⟩ := mem_importRows.mp hw
  exact (readCheckpoint_remap hids c.id).mpr (Or.inl ⟨c, hc, rfl⟩)

theorem headId_ne_importRows (hids : UnusedIds env h)
    (hdangling : anyCheckpointExists h.store cs = false → ∀ sessionId other,
      h.store.readMeta sessionId = some other → ∀ c ∈ cs, other.headId ≠ some c.id)
    {sessionId : String} {other : SessionMeta} (hother : h.store.readMeta sessionId = some other)
    (hw : w ∈ importRows env h cs newId) : other.headId ≠ some w.id := by
  obtain ⟨c, hc, rfl⟩ := mem_importRows.mp hw
  have hid : (importImage env h cs newId c).id = remap (importFresh env h cs) c.id := rfl
  rw [hid]
  unfold importFresh
  by_cases hcol : anyCheckpointExists h.store cs = true
  · obtain ⟨d, k, hdk, -, hk⟩ := remap_freshIds_of_mem env h.clock ⟨c, hc, rfl⟩
    have hle : h.clock ≤ k := (List.mk_mem_zipIdx_iff_le_and_getElem?_sub.mp hdk).1
    rw [if_pos hcol, hk]
    exact (hids k hle).2 sessionId other hother
  · rw [if_neg hcol, remap_nil]
    exact hdangling (Bool.eq_false_iff.mpr hcol) sessionId other hother c hc

theorem slot_importImage_iff {backend : Backend} {c d : Checkpoint J} (hc : c ∈ cs) (hd : d ∈ cs) :
    backend.slot (importImage env h cs newId c) = backend.slot (importImage env h cs newId d)
      ↔ backend.slot (rewriteCheckpoint newId c) = backend.slot (rewriteCheckpoint newId d) := by
  have hid : remap (importFresh env h cs) c.id = remap (importFresh env h cs) d.id ↔ c.id = d.id := by
    refine ⟨fun heq => ?_, fun heq => by rw [heq]⟩
    unfold importFresh at heq
    by_cases hcol : anyCheckpointExists h.store cs = true
    · rw [if_pos hcol] at heq
      exact remap_freshIds_inj hc hd heq
    · rwa [if_neg hcol] at heq
  cases backend with
  | keyed => simpa [Backend.slot, importImage, remapCheckpoint, rewriteCheckpoint] using hid
  | file =>
    simp only [Backend.slot, importImage, remapCheckpoint, rewriteCheckpoint, Prod.mk.injEq, hid]

theorem nodup_slot_importRows {backend : Backend} :
    ((importRows env h cs newId).map backend.slot).Nodup
      ↔ (cs.map fun c => backend.slot (rewriteCheckpoint newId c)).Nodup := by
  have hperm : ((importRows env h cs newId).map backend.slot).Perm
      (cs.map fun c => backend.slot (importImage env h cs newId c)) := by
    rw [importRows, List.map_map]
    exact inSeqOrder_perm.map _
  rw [hperm.nodup_iff]
  unfold List.Nodup
  rw [List.pairwise_map, List.pairwise_map]
  exact List.Pairwise.iff_of_mem fun hc hd => not_congr (slot_importImage_iff hc hd)

theorem record_importRows :
    ((importRows env h cs newId).map Checkpoint.record).Perm (cs.map Checkpoint.record) := by
  have hfun : Checkpoint.record ∘ importImage env h cs newId = Checkpoint.record := rfl
  rw [importRows, List.map_map, hfun]
  exact inSeqOrder_perm.map _

/-! ### The store after an import -/

theorem readCheckpoint_withCheckpoints {ws : List (Checkpoint J)}
    (hnew : ∀ w ∈ ws, st.readCheckpoint w.id = none) (id : String) :
    (st.withCheckpoints ws).readCheckpoint id = (st.readCheckpoint id).or
      ((upsertAll st.backend.slot ws).find? (·.id = id)) := by
  unfold Store.readCheckpoint
  rw [Store.checkpoints_withCheckpoints fun w hw => readCheckpoint_eq_none.mp (hnew w hw),
    List.find?_append]

theorem isSome_readCheckpoint_withCheckpoints {ws : List (Checkpoint J)}
    (hnew : ∀ w ∈ ws, st.readCheckpoint w.id = none) (hw : w ∈ ws) :
    ((st.withCheckpoints ws).readCheckpoint w.id).isSome := by
  have hkey : st.backend.slot w ∈ (upsertAll st.backend.slot ws).map st.backend.slot :=
    key_mem_upsertAll hw
  obtain ⟨v, hv, hslot⟩ := List.mem_map.mp hkey
  rw [readCheckpoint_withCheckpoints hnew, hnew w hw, Option.none_or, List.find?_isSome]
  exact ⟨v, hv, by simpa using Store.id_eq_of_slot_eq hslot⟩

def imported (env : Environment) (h : Host J) (m : SessionMeta) (cs : List (Checkpoint J))
    (newId : Option String) : Store J :=
  (h.store.withCheckpoints (importRows env h cs newId)).withMeta (importMeta env h cs newId m)

theorem readMeta_imported (sessionId : String) :
    (imported env h m cs newId).readMeta sessionId
      = if newId.getD m.sessionId = sessionId then some (importMeta env h cs newId m)
        else h.store.readMeta sessionId := by
  unfold Store.readMeta imported Store.withMeta
  exact find?_upsert sessionId

theorem checkpoints_imported (hids : UnusedIds env h) :
    (imported env h m cs newId).checkpoints
      = h.store.checkpoints ++ upsertAll h.store.backend.slot (importRows env h cs newId) :=
  Store.checkpoints_withCheckpoints fun _ hw =>
    readCheckpoint_eq_none.mp (readCheckpoint_importRows hids hw)

variable (m cs newId) in
theorem readCheckpoint_imported (hids : UnusedIds env h) (id : String) :
    (imported env h m cs newId).readCheckpoint id = (h.store.readCheckpoint id).or
      ((upsertAll h.store.backend.slot (importRows env h cs newId)).find? (·.id = id)) :=
  readCheckpoint_withCheckpoints (fun _ hw => readCheckpoint_importRows hids hw) id

variable (m cs newId) in
theorem history_imported_perm (hids : UnusedIds env h) {sessionId : String}
    (hunused : h.store.history sessionId = []) :
    ((imported env h m cs newId).history sessionId).Perm
      ((upsertAll h.store.backend.slot (importRows env h cs newId)).filter
        (·.sessionId = sessionId)) := by
  have hold : h.store.checkpoints.filter (·.sessionId = sessionId) = [] := by
    rw [List.filter_eq_nil_iff]
    intro c hc hsession
    have hmem : c ∈ h.store.history sessionId :=
      mem_history.mpr ⟨hc, of_decide_eq_true hsession⟩
    rw [hunused] at hmem
    cases hmem
  unfold Store.history Store.readSessionCheckpoints
  rw [checkpoints_imported hids, List.filter_append, hold, List.nil_append]
  exact List.mergeSort_perm _ _

/-! ### When the promise is kept -/

theorem Lands.importedAs (hids : UnusedIds env h)
    (habsent : h.store.readMeta (newId.getD m.sessionId) = none) (hl : Lands h m cs newId) :
    ImportedAs h.store (imported env h m cs newId) cs (newId.getD m.sessionId) := by
  have hrows : upsertAll h.store.backend.slot (importRows env h cs newId)
      = importRows env h cs newId :=
    upsertAll_of_nodup (nodup_slot_importRows.mpr hl.distinct)
  have hown : ∀ w ∈ importRows env h cs newId, w.sessionId = newId.getD m.sessionId := by
    intro w hw
    obtain ⟨c, hc, rfl⟩ := mem_importRows.mp hw
    exact hl.own c hc
  have hread := readCheckpoint_imported m cs newId hids
  rw [hrows] at hread
  refine ⟨⟨habsent, hl.unused⟩, fun sessionId hne => ⟨?_, ?_, ?_⟩, fun id c hc hnew => ?_, ?_,
    fun c hc => ?_⟩
  · -- no row is of another session
    have hnone : (importRows env h cs newId).filter (·.sessionId = sessionId) = [] := by
      rw [List.filter_eq_nil_iff]
      intro w hw hsession
      exact hne ((of_decide_eq_true hsession).symm.trans (hown w hw))
    unfold Store.history Store.readSessionCheckpoints
    rw [checkpoints_imported hids, hrows, List.filter_append, hnone, List.append_nil]
  · unfold Store.head
    rw [readMeta_imported, if_neg (Ne.symm hne)]
    cases hother : h.store.readMeta sessionId with
    | none => rfl
    | some other =>
      cases hhead : other.headId with
      | none => simp only [hhead]
      | some id =>
        simp only [hhead]
        have hnone : (importRows env h cs newId).find? (·.id = id) = none := by
          rw [List.find?_eq_none]
          intro w hw hid
          refine headId_ne_importRows hids hl.dangling hother hw ?_
          rw [hhead, of_decide_eq_true hid]
        rw [hread, hnone, Option.or_none]
  · rw [readMeta_imported, if_neg (Ne.symm hne)]
  · rw [hread] at hc
    rcases Option.or_eq_some_iff.mp hc with hold | ⟨-, hrow⟩
    · exact absurd hold hnew
    · exact hown c (List.mem_of_find?_eq_some hrow)
  · have hall : (importRows env h cs newId).filter (·.sessionId = newId.getD m.sessionId)
        = importRows env h cs newId := by
      rw [List.filter_eq_self]
      exact fun w hw => decide_eq_true (hown w hw)
    have hperm := history_imported_perm m cs newId hids hl.unused
    rw [hrows, hall] at hperm
    exact (record_importRows.symm.trans (hperm.symm.map _)).subperm
  · unfold Store.head at hc
    rw [readMeta_imported, if_pos rfl] at hc
    have hheadId : (importMeta env h cs newId m).headId
        = m.headId.map (remap (importFresh env h cs)) := rfl
    cases hhead : m.headId with
    | none => simp [hheadId, hhead] at hc
    | some id =>
      simp only [hheadId, hhead, Option.map_some] at hc
      have hnone := (readCheckpoint_remap hids id).mpr (hl.head id hhead)
      rw [hread, hnone, Option.none_or] at hc
      have hrow := List.mem_of_find?_eq_some hc
      refine mem_history.mpr ⟨?_, hown c hrow⟩
      rw [checkpoints_imported hids, hrows]
      exact List.mem_append_right _ hrow

theorem ImportedAs.lands (hids : UnusedIds env h)
    (himp : ImportedAs h.store (imported env h m cs newId) cs (newId.getD m.sessionId)) :
    Lands h m cs newId := by
  have hunused := himp.unused.2
  have hperm := history_imported_perm m cs newId hids hunused
  -- no checkpoint is lost, so no row replaced another and none went elsewhere
  have hcount : cs.length ≤ ((upsertAll h.store.backend.slot (importRows env h cs newId)).filter
      (·.sessionId = newId.getD m.sessionId)).length := by
    have hlen := himp.complete.length_le
    rw [List.length_map, List.length_map, hperm.length_eq] at hlen
    exact hlen
  have hfilter := List.length_filter_le (fun c : Checkpoint J => c.sessionId = newId.getD m.sessionId)
    (upsertAll h.store.backend.slot (importRows env h cs newId))
  have hupsert : (upsertAll h.store.backend.slot (importRows env h cs newId)).length
      ≤ (importRows env h cs newId).length := length_upsertAll_le
  have hrowsLen : (importRows env h cs newId).length = cs.length := length_importRows
  have hnodup : ((importRows env h cs newId).map h.store.backend.slot).Nodup :=
    nodup_of_length_upsertAll (by omega)
  have hrows := upsertAll_of_nodup hnodup
  have hread := readCheckpoint_imported m cs newId hids
  rw [hrows] at hread hcount
  have hown : ∀ w ∈ importRows env h cs newId, w.sessionId = newId.getD m.sessionId := by
    have hall := List.length_filter_eq_length_iff.mp (Nat.le_antisymm
      (List.length_filter_le _ (importRows env h cs newId)) (hrowsLen.le.trans hcount))
    exact fun w hw => of_decide_eq_true (hall w hw)
  refine ⟨fun c hc => hown _ (mem_importRows.mpr ⟨c, hc, rfl⟩), nodup_slot_importRows.mp hnodup,
    hunused, fun id hid => ?_, fun hcol sessionId other hother c hc hid => ?_⟩
  · -- a stored head would be another session's checkpoint
    refine (readCheckpoint_remap hids id).mp ?_
    cases hc : h.store.readCheckpoint (remap (importFresh env h cs) id) with
    | none => rfl
    | some c =>
      have hhead : (imported env h m cs newId).head (newId.getD m.sessionId) = some c := by
        have hheadId : (importMeta env h cs newId m).headId
            = some (remap (importFresh env h cs) id) := by
          have : (importMeta env h cs newId m).headId
            = m.headId.map (remap (importFresh env h cs)) := rfl
          rw [this, hid, Option.map_some]
        unfold Store.head
        rw [readMeta_imported, if_pos rfl]
        simp only [hheadId, hread, hc, Option.some_or]
      have hsession := (mem_history.mp (himp.head c hhead)).2
      have hmem : c ∈ h.store.history (newId.getD m.sessionId) :=
        mem_history.mpr ⟨(mem_of_readCheckpoint hc).1, hsession⟩
      rw [hunused] at hmem
      cases hmem
  · -- the head that dangled before finds the new row
    have hne : sessionId ≠ newId.getD m.sessionId := by
      rintro rfl
      rw [himp.unused.1] at hother
      cases hother
    have hhead := (himp.others sessionId hne).2.1
    unfold Store.head at hhead
    rw [readMeta_imported, if_neg (Ne.symm hne), hother] at hhead
    simp only [hid] at hhead
    have hold := anyCheckpointExists_eq_false.mp hcol c hc
    have hrow : (importImage env h cs newId c).id = c.id := by
      have hfresh : importFresh env h cs = [] := by
        rw [importFresh, hcol]
        rfl
      simp only [importImage, hfresh, remapCheckpoint_nil]
      rfl
    rw [hread, hold, Option.none_or, List.find?_eq_none] at hhead
    exact hhead _ (mem_importRows.mpr ⟨c, hc, rfl⟩) (by simpa using hrow)

theorem not_sameContents_of_stopped (hids : UnusedIds env h) {k : Nat} (hk : 0 < k)
    (hle : k ≤ cs.length) :
    ¬ SameContents h.store (h.store.withCheckpoints ((importRows env h cs newId).take k)) := by
  intro hsame
  have hpos : 0 < ((importRows env h cs newId).take k).length := by
    rw [List.length_take, length_importRows]
    omega
  obtain ⟨w, hw⟩ := List.exists_mem_of_length_pos hpos
  have hnew : ∀ v ∈ (importRows env h cs newId).take k, h.store.readCheckpoint v.id = none :=
    fun v hv => readCheckpoint_importRows hids (List.mem_of_mem_take hv)
  have hread := isSome_readCheckpoint_withCheckpoints hnew hw
  rw [hsame.lookup, hnew w hw] at hread
  cases hread

theorem isolated_iff_of_readBundle {bundle : Bundle J} (hids : UnusedIds env h)
    (hread : readBundle bundle = .ok (m, cs))
    (habsent : h.store.readMeta (newId.getD m.sessionId) = none) :
    Isolated env h bundle newId ↔ importFails h m cs newId 0 = true ∨
      (∀ k ≤ cs.length, importFails h m cs newId k = false) ∧ Lands h m cs newId := by
  have hend := (importBundle_spec env h newId hread habsent).2
  unfold Isolated
  cases hresult : (StoreM.importBundle env bundle newId h).result with
  | error e =>
    rw [hresult] at hend
    obtain ⟨k, hk, hfail, hbefore, hstore⟩ := hend
    simp only [hresult, hstore]
    rcases Nat.eq_zero_or_pos k with rfl | hpos
    · refine iff_of_true ?_ (Or.inl hfail)
      exact ⟨fun _ => rfl, fun _ => rfl, fun _ => rfl, fun _ => rfl⟩
    · refine iff_of_false (not_sameContents_of_stopped hids hpos hk) ?_
      rintro (hfirst | ⟨hall, -⟩)
      · rw [hbefore 0 hpos] at hfirst
        cases hfirst
      · rw [hall k hk] at hfail
        cases hfail
  | ok r =>
    rw [hresult] at hend
    obtain ⟨rfl, hall, hstore⟩ := hend
    simp only [hresult, hstore]
    have hfirst : ¬ importFails h m cs newId 0 = true := by
      rw [hall 0 (Nat.zero_le _)]
      exact Bool.false_ne_true
    rw [or_iff_right hfirst, and_iff_right hall]
    constructor
    · rintro ⟨m', cs', hread', himp⟩
      rw [hread] at hread'
      cases hread'
      exact himp.lands hids
    · intro hl
      exact ⟨m, cs, hread, hl.importedAs hids habsent⟩

theorem isolated_of_refused {bundle : Bundle J}
    (hrefused : ∀ m cs, readBundle bundle = .ok (m, cs) →
      (h.store.readMeta (newId.getD m.sessionId)).isSome) :
    Isolated env h bundle newId := by
  have hspec : wp (fun _ => True) (StoreM.importBundle env bundle newId) (fun _ _ => False)
      (fun _ h' => h'.store = h.store) h := by
    unfold StoreM.importBundle StoreM.assertSessionAbsent
    rw [wp_bind, wp_ofExcept]
    refine ⟨fun a ha => ?_, fun _ _ => rfl⟩
    rw [wp_bind, wp_bind, wp_get, wp_throwIf]
    exact ⟨fun _ => rfl, fun hfree => absurd (hrefused a.1 a.2 ha) hfree⟩
  have hend := hspec.2
  unfold Isolated
  cases hresult : (StoreM.importBundle env bundle newId h).result with
  | error e =>
    rw [hresult] at hend
    simp only [hresult, hend]
    exact ⟨fun _ => rfl, fun _ => rfl, fun _ => rfl, fun _ => rfl⟩
  | ok r =>
    rw [hresult] at hend
    exact hend.elim

/-- An import keeps its promise exactly when the bundle is refused, or its first write fails, or every
write succeeds and the bundle lands. -/
theorem import_isolated_iff (env : Environment) (h : Host J) (bundle : Bundle J)
    (newId : Option String) (hids : UnusedIds env h) :
    Isolated env h bundle newId ↔ ∀ m cs, readBundle bundle = .ok (m, cs) →
      h.store.readMeta (newId.getD m.sessionId) = none →
      importFails h m cs newId 0 = true ∨
        (∀ k ≤ cs.length, importFails h m cs newId k = false) ∧ Lands h m cs newId := by
  constructor
  · intro hiso m cs hread habsent
    exact (isolated_iff_of_readBundle hids hread habsent).mp hiso
  · intro hland
    by_cases hfree : ∃ m cs, readBundle bundle = .ok (m, cs) ∧
        h.store.readMeta (newId.getD m.sessionId) = none
    · obtain ⟨m, cs, hread, habsent⟩ := hfree
      exact (isolated_iff_of_readBundle hids hread habsent).mpr (hland m cs hread habsent)
    · refine isolated_of_refused fun m cs hread => ?_
      rw [Option.isSome_iff_ne_none]
      exact fun habsent => hfree ⟨m, cs, hread, habsent⟩

end

/-! ### Two bundles -/

/-- An environment whose `uuid4` counts in unary. -/
def unaryEnvironment : Environment where
  hex n := String.ofList (List.replicate n '0')
  hex_injective n k h := by simpa using congrArg (fun s => s.toList.length) h
  hex_plain n c hc := by
    rw [String.toList_ofList] at hc
    obtain rfl := List.eq_of_mem_replicate hc
    decide
  now _ := ""

/-- A database store that holds the session `"b"` with one checkpoint. -/
def storeOfB : Host Unit where
  store :=
    { backend := .keyed
      checkpoints := [{ id := "kb", sessionId := "b", parentId := none, seq := 0, createdAt := ""
                        runState := ⟨"agent", [], ()⟩ }]
      metas := [{ sessionId := "b", headId := some "kb", parentSessionId := none
                  agentName := "agent", status := .active, createdAt := "", updatedAt := "" }] }

def metaOfA : SessionMeta where
  sessionId := "a"
  headId := some "ka"
  parentSessionId := none
  agentName := "agent"
  status := .active
  createdAt := ""
  updatedAt := ""

def checkpointOfA (owner : String) : Checkpoint Unit where
  id := "ka"
  sessionId := owner
  parentId := none
  seq := 0
  createdAt := ""
  runState := ⟨"agent", [], ()⟩

/-- A bundle of the session `"a"` with one checkpoint, which gives its session as `owner`. -/
def bundleOfA (owner : String) : Bundle Unit where
  manifest := .ok ⟨some (some 1), some "a", some (some 1)⟩
  sessionMeta := .ok metaOfA
  checkpoints := [.ok (checkpointOfA owner)]

theorem readBundle_bundleOfA (owner : String) :
    readBundle (bundleOfA owner) = .ok (metaOfA, [checkpointOfA owner]) := rfl

theorem readMeta_storeOfB {sessionId : String} {m : SessionMeta}
    (h : storeOfB.store.readMeta sessionId = some m) : m.headId = some "kb" := by
  have hmem := (mem_of_readMeta h).1
  obtain rfl := List.mem_singleton.mp hmem
  rfl

theorem unusedIds_storeOfB : UnusedIds unaryEnvironment storeOfB := by
  intro k _
  have hne : "kb" ≠ mintedId unaryEnvironment k := by
    intro heq
    have hchars := congrArg String.toList heq
    simp [mintedId] at hchars
  refine ⟨readCheckpoint_eq_none.mpr fun c hc => ?_, fun sessionId m hm hid => ?_⟩
  · obtain rfl := List.mem_singleton.mp hc
    exact hne
  · rw [readMeta_storeOfB hm] at hid
    exact hne (Option.some_inj.mp hid)

theorem importFails_bundleOfA (owner : String) (k : Nat) :
    importFails storeOfB metaOfA [checkpointOfA owner] none k = false := by
  unfold importFails
  cases (inSeqOrder [checkpointOfA owner])[k]? <;> rfl

/-- The bundle with its own session's checkpoint is imported as promised. -/
theorem import_isolated_own_session : Isolated unaryEnvironment storeOfB (bundleOfA "a") none := by
  refine (import_isolated_iff unaryEnvironment storeOfB (bundleOfA "a") none unusedIds_storeOfB).mpr ?_
  intro m cs hread _
  rw [readBundle_bundleOfA] at hread
  cases hread
  refine Or.inr ⟨fun k _ => importFails_bundleOfA "a" k, ⟨?_, by simp, ?_, ?_, ?_⟩⟩
  · intro c hc
    obtain rfl := List.mem_singleton.mp hc
    rfl
  · refine List.eq_nil_iff_forall_not_mem.mpr fun c hc => ?_
    obtain ⟨hmem, hsession⟩ := mem_history.mp hc
    obtain rfl := List.mem_singleton.mp hmem
    exact absurd hsession (by decide)
  · intro id hid
    exact Or.inl ⟨checkpointOfA "a", List.mem_singleton_self _, Option.some_inj.mp hid⟩
  · intro _ sessionId other hother c hc
    obtain rfl := List.mem_singleton.mp hc
    rw [readMeta_storeOfB hother]
    decide

/-- The bundle whose checkpoint names the stored session `"b"` is imported, and not as promised. -/
theorem import_not_isolated_foreign_session :
    ¬ Isolated unaryEnvironment storeOfB (bundleOfA "b") none := by
  rw [isolated_iff_of_readBundle unusedIds_storeOfB (readBundle_bundleOfA "b") (by decide)]
  rintro (hfail | ⟨-, hl⟩)
  · rw [importFails_bundleOfA] at hfail
    cases hfail
  · exact absurd (hl.own _ (List.mem_singleton_self _)) (by decide)

end VidbyteSdk.Sessions

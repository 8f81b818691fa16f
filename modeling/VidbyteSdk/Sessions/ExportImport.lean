import VidbyteSdk.Sessions.Export
import VidbyteSdk.Sessions.Isolation

/-!
# Export and import

Importing the bundle of a session under an unused id copies the session: its checkpoints along a renaming
of their ids, in the same order, with the links between them and the head along the renaming. The names in
the archive may sort in another order than the sequence numbers, and the ids are replaced all or none.
The copies hold the data of the originals in stored form, without secret keys.
-/

namespace VidbyteSdk.Sessions

open VidbyteSdk.Lib Prog

variable {J : Type}

/-! ### Copies along a renaming -/

/-- A checkpoint under a renaming of checkpoint ids, in the session `r`. -/
def moved (ρ : String → String) (r : String) (c : Checkpoint J) : Checkpoint J :=
  { c with id := ρ c.id, sessionId := r, parentId := c.parentId.map ρ }

def movedMeta (ρ : String → String) (r : String) (m : SessionMeta) : SessionMeta :=
  { m with sessionId := r, headId := m.headId.map ρ }

/-- The session of the metadata `m` and the checkpoints `cs` was added to a store as the session `r`, and
every checkpoint and session that was there is as it was. -/
structure CopiedAs (st st' : Store J) (m : SessionMeta) (cs : List (Checkpoint J)) (r : String)
    (ρ : String → String) : Prop where
  added : st'.checkpoints.length = st.checkpoints.length + cs.length
  history : st'.history r = cs.map (moved ρ r)
  metadata : st'.readMeta r = some (movedMeta ρ r m)
  checkpoint_kept : ∀ id c, st.readCheckpoint id = some c → st'.readCheckpoint id = some c
  session_kept : ∀ sessionId, sessionId ≠ r →
    st'.history sessionId = st.history sessionId ∧ st'.readMeta sessionId = st.readMeta sessionId
  head_kept : ∀ sessionId c, sessionId ≠ r → st.head sessionId = some c →
    st'.head sessionId = some c

/-! ### Histories -/

def SeqLe (c d : Checkpoint J) : Prop := c.seq ≤ d.seq

theorem pairwise_inSeqOrder (cs : List (Checkpoint J)) : (inSeqOrder cs).Pairwise SeqLe := by
  have htrans : ∀ a b c : Checkpoint J, decide (a.seq ≤ b.seq) = true → decide (b.seq ≤ c.seq) = true →
      decide (a.seq ≤ c.seq) = true := by
    intro a b c hab hbc
    simp only [decide_eq_true_eq] at *
    omega
  have htotal : ∀ a b : Checkpoint J,
      (decide (a.seq ≤ b.seq) || decide (b.seq ≤ a.seq)) = true := by
    intro a b
    simp only [Bool.or_eq_true, decide_eq_true_eq]
    omega
  exact (List.pairwise_mergeSort htrans htotal cs).imp fun hcd => of_decide_eq_true hcd

theorem inSeqOrder_of_pairwise {cs : List (Checkpoint J)} (h : cs.Pairwise SeqLe) :
    inSeqOrder cs = cs := by
  have hle : cs.Pairwise fun c d => decide (c.seq ≤ d.seq) = true := by
    refine h.imp fun {c d} hcd => ?_
    exact decide_eq_true (show c.seq ≤ d.seq from hcd)
  exact List.mergeSort_of_pairwise hle

theorem inSeqOrder_of_perm {cs back : List (Checkpoint J)} (hperm : cs.Perm back)
    (hsorted : back.Pairwise SeqLe) (hseq : (back.map (·.seq)).Nodup) : inSeqOrder cs = back := by
  have hback : (inSeqOrder cs).Perm back := inSeqOrder_perm.trans hperm
  refine hback.eq_of_pairwise (fun c d hc hd hcd hdc => ?_) (pairwise_inSeqOrder cs) hsorted
  exact List.inj_on_of_nodup_map hseq (hback.subset hc) hd (le_antisymm hcd hdc)

theorem history_eq_inSeqOrder (st : Store J) (sessionId : String) :
    st.history sessionId = inSeqOrder (st.readSessionCheckpoints sessionId) := rfl

namespace StoreIntact

variable {env : Environment} {n : Nat} {st : Store J}

theorem nodup_seq_history (h : StoreIntact env n st) (sessionId : String) :
    ((st.history sessionId).map (·.seq)).Nodup := by
  have hperm : (st.history sessionId).Perm (st.readSessionCheckpoints sessionId) :=
    List.mergeSort_perm _ _
  refine (hperm.map _).nodup_iff.mpr ?_
  unfold List.Nodup
  rw [List.pairwise_map]
  refine (h.seq_distinct.filter _).imp_of_mem fun hc hd hne => ?_
  have hcs := of_decide_eq_true (List.mem_filter.mp hc).2
  have hds := of_decide_eq_true (List.mem_filter.mp hd).2
  exact hne (hcs.trans hds.symm)

theorem nodup_id_history (h : StoreIntact env n st) (sessionId : String) :
    ((st.history sessionId).map (·.id)).Nodup := by
  have hperm : (st.history sessionId).Perm (st.readSessionCheckpoints sessionId) :=
    List.mergeSort_perm _ _
  exact (hperm.map _).nodup_iff.mpr (h.ids_nodup.sublist (List.filter_sublist.map _))

end StoreIntact

/-! ### The store after the import -/

section

variable {env : Environment} {h : Host J} {m : SessionMeta} {cs back : List (Checkpoint J)}
  {r : String}

theorem upsertAll_importRows (hnodup : (cs.map (·.id)).Nodup) :
    upsertAll h.store.backend.slot (importRows env h cs (some r)) = importRows env h cs (some r) := by
  refine upsertAll_of_nodup (nodup_slot_importRows.mpr ?_)
  unfold List.Nodup at hnodup ⊢
  rw [List.pairwise_map] at hnodup ⊢
  refine hnodup.imp fun {c d} hne hslot => hne ?_
  have hid : (rewriteCheckpoint (some r) c).id = (rewriteCheckpoint (some r) d).id :=
    Store.id_eq_of_slot_eq hslot
  exact hid

theorem copiedAs_imported (hids : UnusedIds env h) (hperm : cs.Perm back)
    (hsorted : back.Pairwise SeqLe) (hseq : (back.map (·.seq)).Nodup)
    (hnodup : (back.map (·.id)).Nodup) (hunused : h.store.history r = []) :
    CopiedAs h.store (imported env h m cs (some r)) m back r (remap (importFresh env h cs)) := by
  have hrows : importRows env h cs (some r) = back.map (moved (remap (importFresh env h cs)) r) := by
    rw [importRows, inSeqOrder_of_perm hperm hsorted hseq]
    rfl
  have hstored : (imported env h m cs (some r)).checkpoints = _ := checkpoints_imported hids
  rw [upsertAll_importRows ((hperm.map _).nodup_iff.mpr hnodup), hrows] at hstored
  have hread := readCheckpoint_imported m cs (some r) hids
  have hmeta : ∀ sessionId, (imported env h m cs (some r)).readMeta sessionId
      = if r = sessionId then some (importMeta env h cs (some r) m) else h.store.readMeta sessionId :=
    fun sessionId => readMeta_imported sessionId
  refine ⟨?_, ?_, ?_, fun id c hc => ?_, fun sessionId hne => ⟨?_, ?_⟩, fun sessionId c hne hc => ?_⟩
  · rw [hstored, List.length_append, List.length_map]
  · -- the session holds just the new rows, which are in order already
    have hold : h.store.readSessionCheckpoints r = [] := by
      rw [history_eq_inSeqOrder] at hunused
      exact List.perm_nil.mp (hunused ▸ inSeqOrder_perm.symm)
    have hnew : (imported env h m cs (some r)).readSessionCheckpoints r
        = back.map (moved (remap (importFresh env h cs)) r) := by
      unfold Store.readSessionCheckpoints at hold ⊢
      rw [hstored, List.filter_append, hold, List.nil_append, List.filter_eq_self]
      intro w hw
      obtain ⟨c, -, rfl⟩ := List.mem_map.mp hw
      exact decide_eq_true rfl
    rw [history_eq_inSeqOrder, hnew]
    exact inSeqOrder_of_pairwise (List.pairwise_map.mpr hsorted)
  · rw [hmeta, if_pos rfl]
    rfl
  · rw [hread, hc, Option.some_or]
  · have hnone : (back.map (moved (remap (importFresh env h cs)) r)).filter
        (·.sessionId = sessionId) = [] := by
      rw [List.filter_eq_nil_iff]
      intro w hw
      obtain ⟨c, -, rfl⟩ := List.mem_map.mp hw
      exact fun hsession => hne (of_decide_eq_true hsession).symm
    unfold Store.history Store.readSessionCheckpoints
    rw [hstored, List.filter_append, hnone, List.append_nil]
  · rw [hmeta, if_neg (Ne.symm hne)]
  · unfold Store.head at hc ⊢
    rw [hmeta, if_neg (Ne.symm hne)]
    cases hother : h.store.readMeta sessionId with
    | none => simp [hother] at hc
    | some other =>
      cases hhead : other.headId with
      | none => simp [hother, hhead] at hc
      | some id =>
        simp only [hother, hhead] at hc ⊢
        rw [hread, hc, Option.some_or]

theorem injOn_remap : Set.InjOn (remap (importFresh env h cs)) {id | Known env h.clock id} := by
  intro a ha b hb hab
  unfold importFresh at hab
  by_cases hcol : anyCheckpointExists h.store cs = true
  · rw [if_pos hcol] at hab
    have hfresh : ∀ id, (∃ c ∈ cs, c.id = id) →
        ¬ Known env h.clock (remap (freshIds env h.clock cs) id) := by
      intro id hid
      obtain ⟨c, k, hck, -, hk⟩ := remap_freshIds_of_mem env h.clock hid
      have hle : h.clock ≤ k := (List.mk_mem_zipIdx_iff_le_and_getElem?_sub.mp hck).1
      rw [hk]
      exact fun hknown => not_known_mintedId (hknown.mono hle)
    have hsame : ∀ id, (∀ c ∈ cs, c.id ≠ id) → remap (freshIds env h.clock cs) id = id :=
      fun id => remap_freshIds_of_not_mem
    by_cases hma : ∃ c ∈ cs, c.id = a <;> by_cases hmb : ∃ c ∈ cs, c.id = b
    · obtain ⟨c, hc, rfl⟩ := hma
      obtain ⟨d, hd, rfl⟩ := hmb
      exact remap_freshIds_inj hc hd hab
    · have hsb := hsame b fun c hc hid => hmb ⟨c, hc, hid⟩
      rw [hsb] at hab
      exact absurd (hab ▸ hb) (hfresh a hma)
    · have hsa := hsame a fun c hc hid => hma ⟨c, hc, hid⟩
      rw [hsa] at hab
      exact absurd (hab ▸ ha) (hfresh b hmb)
    · rwa [hsame a fun c hc hid => hma ⟨c, hc, hid⟩, hsame b fun c hc hid => hmb ⟨c, hc, hid⟩] at hab
  · rwa [if_neg hcol, remap_nil, remap_nil] at hab

theorem remap_importFresh_of_not_mem {id : String} (hid : ∀ c ∈ cs, c.id ≠ id) :
    remap (importFresh env h cs) id = id := by
  unfold importFresh
  split
  · exact remap_freshIds_of_not_mem hid
  · exact remap_nil id

end

/-! ### A whole copy -/

/-- `d` is what an archive gives back for the row `c`: the same node of the session, its free-form data in
stored form; a row in stored form itself. -/
structure ArchivedAs (rt : Runtime) (c d : Checkpoint Datum) : Prop where
  archived : archived rt c = some d
  node : d = { c with
    runState := d.runState
    traceArtifact := d.traceArtifact
    traceSummary := d.traceSummary
    traceEvents := d.traceEvents }
  same : RowStored rt c → d = c

variable {c d : Checkpoint Datum}

theorem archivedAs_of_archived {rt : Runtime} (h : archived rt c = some d) :
    ArchivedAs rt c d where
  archived := h
  node := archived_eq h
  same hc := by
    rw [archived_of_rowStored hc] at h
    exact (Option.some_inj.mp h).symm

section

variable {rt : Runtime} {env : Environment} {source : Store Datum} {h : Host Datum} {s r : String}
  {bundle : Bundle Datum}

theorem map_eq_of_archived {α : Type} {f : Checkpoint Datum → α} {cs back : List (Checkpoint Datum)}
    (hf : ∀ c d, ArchivedAs rt c d → f d = f c)
    (hback : List.Forall₂ (fun c d => archived rt c = some d) cs back) : back.map f = cs.map f := by
  induction hback with
  | nil => rfl
  | cons hcd _ ih =>
    rw [List.map_cons, List.map_cons, ih, hf _ _ (archivedAs_of_archived hcd)]

theorem seq_of_archivedAs (h : ArchivedAs rt c d) : d.seq = c.seq := by
  rw [h.node]

theorem id_of_archivedAs (h : ArchivedAs rt c d) : d.id = c.id := by
  rw [h.node]

theorem importExport_spec (hsource : StoreIntact env h.clock source) (hids : UnusedIds env h)
    (hexport : exportBundle rt source s = .ok bundle) (habsent : h.store.readMeta r = none)
    (hunused : h.store.history r = []) (hname : h.store.backend = .file → isPlainSegment r = true)
    (hfaults : ∀ fault ∈ h.faults, fault = false) :
    (StoreM.importBundle env bundle (some r) h).result = .ok r ∧ ∃ m back cs,
      source.readMeta s = some m ∧
      List.Forall₂ (fun c d => archived rt c = some d) (source.history s) back ∧ cs.Perm back ∧
      CopiedAs h.store (StoreM.importBundle env bundle (some r) h).final.store m back r
        (remap (importFresh env h cs)) := by
  obtain ⟨m, back, cs, hmeta, hback, hperm, hread⟩ := readBundle_exportBundle hexport
  have hseqs : back.map (·.seq) = (source.history s).map (·.seq) :=
    map_eq_of_archived (fun _ _ => seq_of_archivedAs) hback
  have hbackids : back.map (·.id) = (source.history s).map (·.id) :=
    map_eq_of_archived (fun _ _ => id_of_archivedAs) hback
  have hsorted : back.Pairwise SeqLe := by
    have hhistory : ((source.history s).map (·.seq)).Pairwise (· ≤ ·) :=
      List.pairwise_map.mpr (pairwise_inSeqOrder _)
    rw [← hseqs, List.pairwise_map] at hhistory
    exact hhistory
  -- the ids are minted, so every backend takes them
  have hplain : ∀ c ∈ cs, isPlainSegment c.id = true := by
    intro c hc
    have hid : c.id ∈ (source.history s).map (·.id) :=
      hbackids ▸ List.mem_map_of_mem (hperm.subset hc)
    obtain ⟨d, hd, hdc⟩ := List.mem_map.mp hid
    obtain ⟨k, -, hk⟩ := hsource.ids_known d (mem_history.mp hd).1
    rw [← hdc, hk]
    exact isPlainSegment_mintedId env k
  have hok : ∀ k, importFails h m cs (some r) k = false := by
    intro k
    have hfault : h.faults[k]?.getD false = false := by
      cases hk : h.faults[k]? with
      | none => rfl
      | some fault => exact hfaults fault (List.mem_of_getElem? hk)
    unfold importFails
    rw [hfault, Bool.or_false]
    by_cases hfile : h.store.backend = .file
    · cases hk : (inSeqOrder cs)[k]? with
      | none => simp [hname hfile]
      | some c =>
        have hc : c ∈ cs := inSeqOrder_perm.subset (List.mem_of_getElem? hk)
        simp [hname hfile, hplain c hc]
    · cases (inSeqOrder cs)[k]? <;> simp [hfile]
  have hspec := importBundle_spec env h (some r) hread habsent
  have hend := hspec.2
  cases hresult : (StoreM.importBundle env bundle (some r) h).result with
  | error e =>
    rw [hresult] at hend
    obtain ⟨k, -, hfail, -⟩ := hend
    rw [hok] at hfail
    cases hfail
  | ok r' =>
    rw [hresult] at hend
    obtain ⟨rfl, -, hstore⟩ := hend
    refine ⟨rfl, m, back, cs, hmeta, hback, hperm, ?_⟩
    rw [hstore]
    exact copiedAs_imported hids hperm hsorted (hseqs ▸ hsource.nodup_seq_history s)
      (hbackids ▸ hsource.nodup_id_history s) hunused

/-- Importing the bundle of a session under an unused id adds a copy of the session along an injective
renaming of checkpoint ids, its records in stored form, and changes nothing that was there. -/
theorem import_export_copies (hsource : StoreIntact env h.clock source) (hids : UnusedIds env h)
    (hexport : exportBundle rt source s = .ok bundle) (habsent : h.store.readMeta r = none)
    (hunused : h.store.history r = []) (hname : h.store.backend = .file → isPlainSegment r = true)
    (hfaults : ∀ fault ∈ h.faults, fault = false) :
    (StoreM.importBundle env bundle (some r) h).result = .ok r ∧ ∃ m back ρ,
      source.readMeta s = some m ∧ List.Forall₂ (ArchivedAs rt) (source.history s) back ∧
      Set.InjOn ρ {id | Known env h.clock id} ∧
      (∀ id, (∀ c ∈ source.history s, c.id ≠ id) → ρ id = id) ∧
      CopiedAs h.store (StoreM.importBundle env bundle (some r) h).final.store m back r ρ := by
  obtain ⟨hresult, m, back, cs, hmeta, hback, hperm, hcopied⟩ :=
    importExport_spec hsource hids hexport habsent hunused hname hfaults
  refine ⟨hresult, m, back, remap (importFresh env h cs), hmeta,
    hback.imp fun _ _ => archivedAs_of_archived, injOn_remap, fun id hid => ?_, hcopied⟩
  refine remap_importFresh_of_not_mem fun c hc hcid => ?_
  have hbackids : back.map (·.id) = (source.history s).map (·.id) :=
    map_eq_of_archived (fun _ _ => id_of_archivedAs) hback
  have hmem : c.id ∈ (source.history s).map (·.id) :=
    hbackids ▸ List.mem_map_of_mem (hperm.subset hc)
  obtain ⟨d, hd, hdc⟩ := List.mem_map.mp hmem
  exact hid d hd (hdc.trans hcid)

end

/-! ### A session with a credential -/

/-- The case mapping of ASCII letters, and `int` of integers. -/
def asciiRuntime : Runtime where
  toCasing := Util.asciiCasing
  int value := match value with
    | .int n => some n
    | .bool b => some (if b then 1 else 0)
    | _ => none
  int_int _ := rfl

def stateWithKey : RunStateRecord where
  schemaVersion := 1
  agentName := "agent"
  systemPrompt := ""
  description := ""
  capabilities := []
  provider := none
  modelName := none
  temperature := .null
  runtimeType := "linear"
  runtimeConfig := []
  algorithm := "default"
  metadata := [(key "api_key", .str "k")]
  agentMetadata := []
  toolNames := []
  history := []

def checkpointWithKey (id : String) (parentId : Option String) (seq : Int) : CheckpointRecord where
  id := id
  sessionId := "s"
  parentId := parentId
  seq := seq
  createdAt := ""
  runState := stateWithKey

def metaOfS : SessionMeta where
  sessionId := "s"
  headId := some "ck_0"
  parentSessionId := none
  agentName := "agent"
  status := .active
  createdAt := ""
  updatedAt := ""

/-- An in-memory store that holds the session `"s"` with two checkpoints. -/
def storeOfS : Store Datum where
  backend := .keyed
  checkpoints := [(checkpointWithKey "ck_" none 0).row, (checkpointWithKey "ck_0" (some "ck_") 1).row]
  metas := [metaOfS]

def hostOfS : Host Datum where
  store := storeOfS
  clock := 2

theorem mintedId_unary : mintedId unaryEnvironment 0 = "ck_" ∧ mintedId unaryEnvironment 1 = "ck_0" := by
  decide

theorem known_of_mem_storeOfS {c : Checkpoint Datum} (hc : c ∈ storeOfS.checkpoints) :
    Known unaryEnvironment hostOfS.clock c.id := by
  simp only [storeOfS, List.mem_cons, List.not_mem_nil, or_false] at hc
  rcases hc with rfl | rfl
  · exact ⟨0, by decide, mintedId_unary.1.symm⟩
  · exact ⟨1, by decide, mintedId_unary.2.symm⟩

theorem storeIntact_storeOfS : StoreIntact unaryEnvironment hostOfS.clock storeOfS where
  ids_nodup := by decide
  seq_distinct := by simp [storeOfS, CheckpointRecord.row, checkpointWithKey]
  parent_older c hc p hp hparent := by
    simp only [storeOfS, List.mem_cons, List.not_mem_nil, or_false] at hc hp
    rcases hc with rfl | rfl <;> rcases hp with rfl | rfl <;>
      simp [CheckpointRecord.row, checkpointWithKey] at hparent ⊢
  head_stored m hm id hid := by
    obtain rfl := List.mem_singleton.mp hm
    exact ⟨_, List.mem_cons_of_mem _ List.mem_cons_self, Option.some_inj.mp hid, rfl⟩
  ids_known _ hc := known_of_mem_storeOfS hc
  parents_known c hc id hid := by
    simp only [storeOfS, List.mem_cons, List.not_mem_nil, or_false] at hc
    rcases hc with rfl | rfl
    · cases hid
    · obtain rfl : "ck_" = id := Option.some_inj.mp hid
      exact ⟨0, by decide, mintedId_unary.1.symm⟩
  metas_nodup := by decide

theorem unusedIds_hostOfS : UnusedIds unaryEnvironment hostOfS := by
  intro k hk
  have hne : ∀ c ∈ storeOfS.checkpoints, c.id ≠ mintedId unaryEnvironment k := by
    intro c hc hid
    have hknown := known_of_mem_storeOfS hc
    rw [hid] at hknown
    exact not_known_mintedId (hknown.mono hk)
  refine ⟨readCheckpoint_eq_none.mpr hne, fun sessionId m hm hid => ?_⟩
  obtain rfl := List.mem_singleton.mp (mem_of_readMeta hm).1
  exact hne _ (List.mem_cons_of_mem _ List.mem_cons_self) (Option.some_inj.mp hid)

theorem archived_checkpointWithKey (id : String) (parentId : Option String) (seq : Int) :
    ∃ d, archived asciiRuntime (checkpointWithKey id parentId seq).row = some d := by
  rw [archived, record?_row]
  exact ⟨_, rfl⟩

theorem history_r_storeOfS : storeOfS.history "r" = [] := by
  have hnone : storeOfS.readSessionCheckpoints "r" = [] := rfl
  rw [history_eq_inSeqOrder, hnone]
  exact List.mergeSort_nil

theorem exists_bundleOfS : ∃ bundle, exportBundle asciiRuntime storeOfS "s" = .ok bundle := by
  refine exists_exportBundle (m := metaOfS) rfl fun c hc => ?_
  have hmem := (mem_history.mp hc).1
  simp only [storeOfS, List.mem_cons, List.not_mem_nil, or_false] at hmem
  rcases hmem with rfl | rfl
  · exact archived_checkpointWithKey _ _ _
  · exact archived_checkpointWithKey _ _ _

theorem import_export_copies_storeOfS : ∃ bundle, exportBundle asciiRuntime storeOfS "s" = .ok bundle ∧
    (StoreM.importBundle unaryEnvironment bundle (some "r") hostOfS).result = .ok "r" ∧
    ∃ m back ρ, storeOfS.readMeta "s" = some m ∧
      List.Forall₂ (ArchivedAs asciiRuntime) (storeOfS.history "s") back ∧
      Set.InjOn ρ {id | Known unaryEnvironment hostOfS.clock id} ∧
      (∀ id, (∀ c ∈ storeOfS.history "s", c.id ≠ id) → ρ id = id) ∧
      CopiedAs storeOfS (StoreM.importBundle unaryEnvironment bundle (some "r") hostOfS).final.store m
        back "r" ρ := by
  obtain ⟨bundle, hbundle⟩ := exists_bundleOfS
  refine ⟨bundle, hbundle, ?_⟩
  exact import_export_copies storeIntact_storeOfS unusedIds_hostOfS hbundle rfl history_r_storeOfS
    nofun nofun

/-- The copy is not the session itself: the archive drops the API key from the run states. -/
theorem import_export_not_identical : StoreIntact unaryEnvironment hostOfS.clock storeOfS ∧
    UnusedIds unaryEnvironment hostOfS ∧ ∃ bundle, exportBundle asciiRuntime storeOfS "s" = .ok bundle ∧
      ¬ ∃ m ρ, Set.InjOn ρ {id | ∃ c ∈ storeOfS.history "s", c.id = id} ∧
        CopiedAs storeOfS (StoreM.importBundle unaryEnvironment bundle (some "r") hostOfS).final.store m
          (storeOfS.history "s") "r" ρ := by
  obtain ⟨bundle, hbundle⟩ := exists_bundleOfS
  refine ⟨storeIntact_storeOfS, unusedIds_hostOfS, bundle, hbundle, ?_⟩
  rintro ⟨m, ρ, -, hcopy⟩
  obtain ⟨-, m', back, cs, -, hback, -, hcopied⟩ := importExport_spec storeIntact_storeOfS
    unusedIds_hostOfS hbundle (r := "r") rfl history_r_storeOfS nofun nofun
  have hstates : back.map (·.runState) = (storeOfS.history "s").map (·.runState) := by
    have hhistory := congrArg (List.map (·.runState)) (hcopied.history.symm.trans hcopy.history)
    rw [List.map_map, List.map_map] at hhistory
    exact hhistory
  have hfirst : (checkpointWithKey "ck_" none 0).row ∈ storeOfS.history "s" :=
    mem_history.mpr ⟨List.mem_cons_self, rfl⟩
  have hkept : ∀ c ∈ storeOfS.history "s", c.runState = stateWithKey.row := by
    intro c hc
    have hmem := (mem_history.mp hc).1
    simp only [storeOfS, List.mem_cons, List.not_mem_nil, or_false] at hmem
    rcases hmem with rfl | rfl <;> rfl
  -- an archived row holds no secret key
  have hlost : ∀ c d, archived asciiRuntime c = some d → d.runState ≠ stateWithKey.row := by
    intro c d hd hsame
    obtain ⟨r, -, hd⟩ := Option.bind_eq_some_iff.mp hd
    obtain ⟨a, ha, hd⟩ := Option.bind_eq_some_iff.mp hd
    cases hd
    have hfields : Datum.fields a.runState.toRunStateFields = .fields stateWithKey.toRunStateFields :=
      congrArg RunState.fields hsame
    have hmetadata : a.runState.metadata = [(key "api_key", .str "k")] :=
      congrArg RunStateFields.metadata (Datum.fields.inj hfields)
    have hplain := (CheckpointRecord.isStored_of_archived ha).runState.metadata
    rw [hmetadata] at hplain
    have hdrops := hplain.drops_eq_false .refl (List.mem_singleton_self _)
    have hsecret : (keyFilter asciiRuntime true false).drops "api_key" = true := by decide +kernel
    exact absurd (hdrops.symm.trans hsecret) Bool.false_ne_true
  generalize storeOfS.history "s" = history at hback hstates hfirst hkept
  cases hback with
  | nil => cases hfirst
  | cons hcd _ =>
    rw [List.map_cons, List.map_cons, List.cons.injEq] at hstates
    exact hlost _ _ hcd (hstates.1.trans (hkept _ List.mem_cons_self))

end VidbyteSdk.Sessions

import VidbyteSdk.Sessions.Portable

/-!
# What an import writes

The rows an import adds to a store: of each checkpoint of the bundle its image under the rewriting of
the session id and of the fresh ids, in `seq` order, then the metadata. `importBundle_spec` says how a
run ends and what the store then holds.
-/

namespace VidbyteSdk.Sessions

open VidbyteSdk.Lib Prog

variable {J : Type}

/-! ### Writing new rows -/

namespace Store

def withCheckpoints (st : Store J) (ws : List (Checkpoint J)) : Store J :=
  { st with checkpoints := ws.foldl (fun rows c => upsert st.backend.slot c rows) st.checkpoints }

variable {st : Store J} {backend : Backend} {ws : List (Checkpoint J)}

theorem id_eq_of_slot_eq {c d : Checkpoint J} (h : backend.slot c = backend.slot d) : c.id = d.id := by
  cases backend <;> simp only [Backend.slot, Prod.mk.injEq] at h <;> exact h.2

theorem checkpoints_withCheckpoints (hnew : ∀ w ∈ ws, ∀ c ∈ st.checkpoints, c.id ≠ w.id) :
    (st.withCheckpoints ws).checkpoints = st.checkpoints ++ upsertAll st.backend.slot ws := by
  refine foldl_upsert_of_disjoint fun w hw hmem => ?_
  obtain ⟨c, hc, hcw⟩ := List.mem_map.mp hmem
  exact hnew w hw c hc (id_eq_of_slot_eq hcw)

end Store

/-! ### The writes of an ingest -/

/-- Whether the `k`-th write of an ingest fails: of the checkpoints `ws` in order, then of `m`. -/
def ingestFails (h : Host J) (m : SessionMeta) (ws : List (Checkpoint J)) (k : Nat) : Bool :=
  (match ws[k]? with
    | some c => h.store.refusesCheckpoint c
    | none => h.store.refusesMeta m) || h.faults[k]?.getD false

namespace StoreM

variable {h : Host J}

theorem writeCheckpoint_spec (c : Checkpoint J) :
    wp (fun _ => True) (writeCheckpoint c)
      (fun _ h' => (h.store.refusesCheckpoint c || h.faults[0]?.getD false) = false ∧
        h' = { h with store := h.store.withCheckpoint c, faults := h.faults.tail })
      (fun _ h' => (h.store.refusesCheckpoint c || h.faults[0]?.getD false) = true ∧
        h'.store = h.store) h := by
  unfold writeCheckpoint
  rw [wp_bind, wp_get, wp_ite]
  refine ⟨fun hr => (wp_throw _).mpr ⟨by simp [hr], rfl⟩, fun hr => ?_⟩
  unfold write
  rw [wp_bind, wp_get]
  rcases hf : h.faults with _ | ⟨_ | _, faults⟩ <;> simp [hr, hf]

theorem writeMeta_spec (m : SessionMeta) :
    wp (fun _ => True) (writeMeta m)
      (fun _ h' => (h.store.refusesMeta m || h.faults[0]?.getD false) = false ∧
        h'.store = h.store.withMeta m)
      (fun _ h' => (h.store.refusesMeta m || h.faults[0]?.getD false) = true ∧
        h'.store = h.store) h := by
  unfold writeMeta
  rw [wp_bind, wp_get, wp_ite]
  refine ⟨fun hr => (wp_throw _).mpr ⟨by simp [hr], rfl⟩, fun hr => ?_⟩
  unfold write
  rw [wp_bind, wp_get]
  rcases h.faults with _ | ⟨_ | _, faults⟩ <;> simp [hr]

/-- An ingest either makes all its writes, or stops at the first that fails, with the earlier ones
made. -/
theorem forM_writeCheckpoint_spec (m : SessionMeta) (ws : List (Checkpoint J)) :
    wp (fun _ => True) (do forM ws writeCheckpoint; writeMeta m)
      (fun _ h' => (∀ k ≤ ws.length, ingestFails h m ws k = false) ∧
        h'.store = (h.store.withCheckpoints ws).withMeta m)
      (fun _ h' => ∃ k ≤ ws.length, ingestFails h m ws k = true ∧
        (∀ j < k, ingestFails h m ws j = false) ∧ h'.store = h.store.withCheckpoints (ws.take k))
      h := by
  induction ws generalizing h with
  | nil =>
    refine wp_post (writeMeta_spec m) (fun _ h' hh => ⟨fun k hk => ?_, hh.2⟩)
      fun _ h' hh => ⟨0, le_rfl, hh.1, by simp, hh.2⟩
    obtain rfl : k = 0 := by simpa using hk
    exact hh.1
  | cons c ws ih =>
    rw [List.forM_cons, wp_bind, wp_bind]
    refine wp_post (writeCheckpoint_spec c) (fun _ h' hh => ?_)
      fun _ h' hh => ⟨0, by simp, hh.1, by simp, hh.2⟩
    obtain ⟨hok, rfl⟩ := hh
    -- the rest of the ingest sees the remaining outcomes
    have hshift : ∀ k, ingestFails
        { h with store := h.store.withCheckpoint c, faults := h.faults.tail } m ws k
          = ingestFails h m (c :: ws) (k + 1) := by
      intro k
      simp only [ingestFails, List.getElem?_cons_succ, List.getElem?_tail]
      rfl
    have hrest := ih (h := { h with store := h.store.withCheckpoint c, faults := h.faults.tail })
    refine (wp_bind _ _).mp (wp_post hrest (fun _ h'' hh => ⟨fun k hk => ?_, hh.2⟩)
      fun _ h'' hh => ?_)
    · cases k with
      | zero => exact hok
      | succ k => exact (hshift k).symm.trans (hh.1 k (by simpa using hk))
    · obtain ⟨k, hk, hfail, hbefore, hstore⟩ := hh
      refine ⟨k + 1, by simpa using hk, (hshift k).symm.trans hfail, fun j hj => ?_, hstore⟩
      cases j with
      | zero => exact hok
      | succ j => exact (hshift j).symm.trans (hbefore j (by omega))

end StoreM

/-! ### Re-iding -/

section Remap

variable {env : Environment} {n : Nat} {cs : List (Checkpoint J)}

theorem isPlainSegment_mintedId (env : Environment) (k : Nat) :
    isPlainSegment (mintedId env k) = true := by
  have hchars : (mintedId env k).toList = 'c' :: 'k' :: '_' :: (env.hex k).toList := by
    simp [mintedId]
  have hne : mintedId env k ∉ ["", ".", ".."] := by
    intro hmem
    have hlist : (mintedId env k).toList ∈ ["", ".", ".."].map String.toList :=
      List.mem_map.mpr ⟨_, hmem, rfl⟩
    rw [hchars] at hlist
    simp at hlist
  have hall : (mintedId env k).toList.all (fun c => c ∉ ['/', '\\', '\x00']) = true := by
    rw [hchars, List.all_eq_true]
    intro c hc
    simp only [List.mem_cons] at hc
    rcases hc with rfl | rfl | rfl | hc
    · decide
    · decide
    · decide
    · exact decide_eq_true (env.hex_plain k c hc)
  unfold isPlainSegment
  rw [hall, hchars]
  simp [hne]

@[simp] theorem remap_nil (id : String) : remap [] id = id := rfl

@[simp] theorem remapCheckpoint_nil (c : Checkpoint J) : remapCheckpoint [] c = c := by
  have hparent : c.parentId.map (remap []) = c.parentId := by
    cases c.parentId <;> rfl
  rw [remapCheckpoint, hparent, remap_nil]

/-- The minted id of a bundle id comes from one of the bundle's own readings of `uuid4`. -/
theorem remap_freshIds_of_mem (env : Environment) (n : Nat) {id : String} (hid : ∃ c ∈ cs, c.id = id) :
    ∃ c k, (c, k) ∈ cs.zipIdx n ∧ c.id = id ∧ remap (freshIds env n cs) id = mintedId env k := by
  have hsome : ((freshIds env n cs).reverse.find? (·.1 = id)).isSome := by
    rw [List.find?_isSome]
    obtain ⟨c, hc, rfl⟩ := hid
    obtain ⟨i, hi, rfl⟩ := List.getElem_of_mem hc
    refine ⟨(cs[i].id, mintedId env (n + i)), ?_, by simp⟩
    rw [List.mem_reverse, freshIds, List.mem_map]
    exact ⟨(cs[i], n + i), List.mk_add_mem_zipIdx_iff_getElem?.mpr (by simp), rfl⟩
  obtain ⟨entry, hentry⟩ := Option.isSome_iff_exists.mp hsome
  have hmem := List.mem_of_find?_eq_some hentry
  have hkey : entry.1 = id := by simpa using List.find?_some hentry
  rw [List.mem_reverse, freshIds, List.mem_map] at hmem
  obtain ⟨⟨c, k⟩, hck, rfl⟩ := hmem
  refine ⟨c, k, hck, hkey, ?_⟩
  rw [remap, hentry]
  rfl

theorem remap_freshIds_of_not_mem {id : String} (hid : ∀ c ∈ cs, c.id ≠ id) :
    remap (freshIds env n cs) id = id := by
  have hnone : (freshIds env n cs).reverse.find? (·.1 = id) = none := by
    rw [List.find?_eq_none]
    intro entry hentry hkey
    rw [List.mem_reverse, freshIds, List.mem_map] at hentry
    obtain ⟨⟨c, k⟩, hck, rfl⟩ := hentry
    exact hid c (List.fst_mem_of_mem_zipIdx hck) (by simpa using hkey)
  rw [remap, hnone]
  rfl

theorem remap_freshIds_inj {c d : Checkpoint J} (hc : c ∈ cs) (hd : d ∈ cs)
    (h : remap (freshIds env n cs) c.id = remap (freshIds env n cs) d.id) : c.id = d.id := by
  obtain ⟨c', k, hck, hc', hk⟩ := remap_freshIds_of_mem env n ⟨c, hc, rfl⟩
  obtain ⟨d', l, hdl, hd', hl⟩ := remap_freshIds_of_mem env n ⟨d, hd, rfl⟩
  have hkl : k = l := mintedId_injective env (hk.symm.trans (h.trans hl))
  subst hkl
  have hget := (List.mk_mem_zipIdx_iff_le_and_getElem?_sub.mp hck).2
  have hget' := (List.mk_mem_zipIdx_iff_le_and_getElem?_sub.mp hdl).2
  rw [hget', Option.some_inj] at hget
  rw [← hc', ← hd', hget]

end Remap

/-! ### A whole import -/

def inSeqOrder (cs : List (Checkpoint J)) : List (Checkpoint J) :=
  cs.mergeSort fun c d => decide (c.seq ≤ d.seq)

/-- The dictionary of fresh ids an import works with: empty where no id of the bundle is stored. -/
def importFresh (env : Environment) (h : Host J) (cs : List (Checkpoint J)) : List (String × String) :=
  if anyCheckpointExists h.store cs then freshIds env h.clock cs else []

def importImage (env : Environment) (h : Host J) (cs : List (Checkpoint J)) (newId : Option String)
    (c : Checkpoint J) : Checkpoint J :=
  remapCheckpoint (importFresh env h cs) (rewriteCheckpoint newId c)

def importRows (env : Environment) (h : Host J) (cs : List (Checkpoint J)) (newId : Option String) :
    List (Checkpoint J) :=
  (inSeqOrder cs).map (importImage env h cs newId)

def importMeta (env : Environment) (h : Host J) (cs : List (Checkpoint J)) (newId : Option String)
    (m : SessionMeta) : SessionMeta :=
  remapMeta (importFresh env h cs) (rewriteMeta newId m)

/-- Whether the `k`-th write of an import fails: the store refuses a name that is not plain, or the
write itself fails. -/
def importFails (h : Host J) (m : SessionMeta) (cs : List (Checkpoint J)) (newId : Option String)
    (k : Nat) : Bool :=
  (match (inSeqOrder cs)[k]? with
    | some c => h.store.backend = .file && !(isPlainSegment (newId.getD c.sessionId) &&
        (anyCheckpointExists h.store cs || isPlainSegment c.id))
    | none => h.store.backend = .file && !isPlainSegment (newId.getD m.sessionId)) ||
    h.faults[k]?.getD false

section Import

variable {env : Environment} {h : Host J} {m : SessionMeta} {cs : List (Checkpoint J)}
  {newId : Option String}

theorem inSeqOrder_perm : (inSeqOrder cs).Perm cs := List.mergeSort_perm _ _

@[simp] theorem length_importRows : (importRows env h cs newId).length = cs.length := by
  rw [importRows, List.length_map, inSeqOrder_perm.length_eq]

@[simp] theorem anyCheckpointExists_rewrite (st : Store J) :
    anyCheckpointExists st (cs.map (rewriteCheckpoint newId)) = anyCheckpointExists st cs := by
  simp only [anyCheckpointExists, List.any_map]
  rfl

@[simp] theorem freshIds_rewrite (n : Nat) :
    freshIds env n (cs.map (rewriteCheckpoint newId)) = freshIds env n cs := by
  simp only [freshIds, List.zipIdx_map, List.map_map]
  rfl

/-- The rows are the re-ided records in `seq` order. -/
theorem mergeSort_image :
    ((cs.map (rewriteCheckpoint newId)).map (remapCheckpoint (importFresh env h cs))).mergeSort
      (fun c d => decide (c.seq ≤ d.seq)) = importRows env h cs newId := by
  rw [List.map_map, importRows, inSeqOrder, List.map_mergeSort fun _ _ _ _ => ?_]
  · rfl
  · rfl

theorem isPlainSegment_importImage {c : Checkpoint J} (hc : c ∈ cs) :
    isPlainSegment (importImage env h cs newId c).id
      = (anyCheckpointExists h.store cs || isPlainSegment c.id) := by
  have hid : (importImage env h cs newId c).id = remap (importFresh env h cs) c.id := rfl
  rw [hid, importFresh]
  by_cases hcol : anyCheckpointExists h.store cs = true
  · obtain ⟨d, k, -, -, hk⟩ := remap_freshIds_of_mem env h.clock ⟨c, hc, rfl⟩
    rw [if_pos hcol, hcol, hk, isPlainSegment_mintedId, Bool.true_or]
  · rw [if_neg hcol, remap_nil, Bool.eq_false_iff.mpr hcol, Bool.false_or]

theorem ingestFails_importRows (k : Nat) {h' : Host J} (hstore : h'.store = h.store)
    (hfaults : h'.faults = h.faults) :
    ingestFails h' (importMeta env h cs newId m) (importRows env h cs newId) k
      = importFails h m cs newId k := by
  unfold ingestFails importFails
  rw [hstore, hfaults, importRows, List.getElem?_map]
  cases hk : (inSeqOrder cs)[k]? with
  | none => rfl
  | some c =>
    have hc : c ∈ cs := inSeqOrder_perm.mem_iff.mp (List.mem_of_getElem? hk)
    simp only [Option.map_some, Store.refusesCheckpoint, isPlainSegment_importImage hc]
    rfl

theorem reIdOnCollision_spec :
    wp (fun _ => True) (StoreM.reIdOnCollision env m cs)
      (fun a h' => a = (remapMeta (importFresh env h cs) m, cs.map (remapCheckpoint (importFresh env h cs)))
        ∧ h'.store = h.store ∧ h'.faults = h.faults)
      (fun _ _ => False) h := by
  unfold StoreM.reIdOnCollision StoreM.mintCheckpointIds importFresh
  rw [wp_bind, wp_get, wp_ite]
  refine ⟨fun hcol => ?_, fun hcol => ?_⟩
  · simp [hcol]
  · have hid : cs.map (remapCheckpoint []) = cs := by
      rw [funext remapCheckpoint_nil, List.map_id']
    have hmeta : remapMeta [] m = m := by
      have hhead : m.headId.map (remap []) = m.headId := by
        cases m.headId <;> rfl
      rw [remapMeta, hhead]
    simp [hcol, hid, hmeta]

end Import

theorem importBundle_spec (env : Environment) (h : Host J) {bundle : Bundle J}
    (newId : Option String) {m : SessionMeta} {cs : List (Checkpoint J)}
    (hread : readBundle bundle = .ok (m, cs)) (hunused : h.store.readMeta (newId.getD m.sessionId) = none) :
    wp (fun _ => True) (StoreM.importBundle env bundle newId)
      (fun r h' => r = newId.getD m.sessionId ∧ (∀ k ≤ cs.length, importFails h m cs newId k = false) ∧
        h'.store = (h.store.withCheckpoints (importRows env h cs newId)).withMeta
          (importMeta env h cs newId m))
      (fun _ h' => ∃ k ≤ cs.length, importFails h m cs newId k = true ∧
        (∀ j < k, importFails h m cs newId j = false) ∧
        h'.store = h.store.withCheckpoints ((importRows env h cs newId).take k)) h := by
  unfold StoreM.importBundle StoreM.assertSessionAbsent
  rw [hread]
  simp only [wp_bind, wp_ofExcept_ok, wp_get, wp_throwIf, hunused, Option.isSome_none,
    Bool.false_eq_true, false_implies, not_false_eq_true, true_implies, true_and]
  refine wp_post reIdOnCollision_spec (fun a h' hh => ?_) (fun _ _ => False.elim)
  obtain ⟨rfl, hstore, hfaults⟩ := hh
  have hfresh : importFresh env h (cs.map (rewriteCheckpoint newId)) = importFresh env h cs := by
    simp only [importFresh, anyCheckpointExists_rewrite, freshIds_rewrite]
  rw [hfresh, StoreM.ingest, mergeSort_image]
  have hfails : ∀ k, ingestFails h' (importMeta env h cs newId m) (importRows env h cs newId) k
      = importFails h m cs newId k :=
    fun k => ingestFails_importRows k hstore hfaults
  have hspec := StoreM.forM_writeCheckpoint_spec (h := h') (importMeta env h cs newId m)
    (importRows env h cs newId)
  simp only [hfails, hstore, length_importRows] at hspec
  refine (wp_bind _ _).mp ((wp_bind _ _).mpr (wp_post hspec (fun _ h'' hh => ?_) fun _ _ hh => hh))
  exact (wp_pure _).mpr ⟨rfl, hh⟩

end VidbyteSdk.Sessions

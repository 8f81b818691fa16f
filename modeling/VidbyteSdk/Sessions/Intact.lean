import VidbyteSdk.Sessions.Session

/-!
# The store invariant

What the writes of the sessions keep of a store, at every moment: sequence numbers are distinct in a
session, a stored parent is an older checkpoint of the same session, and a head names a stored
checkpoint of its session.

The argument needs to know which ids were ever given out. `Known n id` says that `id` is one of the
first `n` readings of `uuid4`; an id minted now is not known yet, so no stored checkpoint, no parent
link and no stale head in any live `Session` object can name it.
-/

namespace VidbyteSdk.Sessions

open VidbyteSdk.Lib

variable {J : Type} {env : Environment} {n n' : Nat} {st : Store J}

/-- The checkpoint id minted by the `n`-th reading of the clock. -/
def mintedId (env : Environment) (n : Nat) : String := "ck_" ++ env.hex n

theorem mintedId_injective (env : Environment) : Function.Injective (mintedId env) := by
  intro n m h
  exact env.hex_injective ((String.append_right_inj "ck_").mp h)

/-- The checkpoint ids minted before the `n`-th reading of the clock. -/
def Known (env : Environment) (n : Nat) (id : String) : Prop := ∃ m < n, id = mintedId env m

theorem Known.mono {id : String} (h : Known env n id) (hn : n ≤ n') : Known env n' id := by
  obtain ⟨m, hm, rfl⟩ := h
  exact ⟨m, by omega, rfl⟩

theorem not_known_mintedId : ¬ Known env n (mintedId env n) := by
  rintro ⟨m, hm, h⟩
  have := mintedId_injective env h
  omega

/-- The invariant of a store's rows, `n` readings of the clock into the run. -/
structure StoreIntact (env : Environment) (n : Nat) (st : Store J) : Prop where
  ids_nodup : (st.checkpoints.map (·.id)).Nodup
  seq_distinct : st.checkpoints.Pairwise fun c d => c.sessionId = d.sessionId → c.seq ≠ d.seq
  parent_older : ∀ c ∈ st.checkpoints, ∀ p ∈ st.checkpoints, c.parentId = some p.id →
    p.sessionId = c.sessionId ∧ p.seq < c.seq
  head_stored : ∀ m ∈ st.metas, ∀ id, m.headId = some id →
    ∃ c ∈ st.checkpoints, c.id = id ∧ c.sessionId = m.sessionId
  ids_known : ∀ c ∈ st.checkpoints, Known env n c.id
  parents_known : ∀ c ∈ st.checkpoints, ∀ id, c.parentId = some id → Known env n id
  metas_nodup : (st.metas.map (·.sessionId)).Nodup

/-- A head pointer a `Session` object may hold, stale or not: a known id that no other session
stores. -/
def HeadIntact (env : Environment) (n : Nat) (st : Store J) (sessionId : String)
    (headId : Option String) : Prop :=
  ∀ id, headId = some id → Known env n id ∧ ∀ c ∈ st.checkpoints, c.id = id → c.sessionId = sessionId

theorem HeadIntact.none {sessionId : String} : HeadIntact env n st sessionId none := by
  intro id h
  cases h

/-! ### Reading -/

variable {c : Checkpoint J}

theorem mem_of_readCheckpoint {id : String} (h : st.readCheckpoint id = some c) :
    c ∈ st.checkpoints ∧ c.id = id :=
  ⟨List.mem_of_find?_eq_some h, by simpa using List.find?_some h⟩

theorem mem_of_readMeta {sessionId : String} {m : SessionMeta} (h : st.readMeta sessionId = some m) :
    m ∈ st.metas ∧ m.sessionId = sessionId :=
  ⟨List.mem_of_find?_eq_some h, by simpa using List.find?_some h⟩

@[simp] theorem headId_advancedMeta (c : Checkpoint J) (now : String) :
    (st.advancedMeta c now).headId = some c.id := by
  unfold Store.advancedMeta
  split <;> rfl

@[simp] theorem sessionId_advancedMeta (c : Checkpoint J) (now : String) :
    (st.advancedMeta c now).sessionId = c.sessionId := by
  unfold Store.advancedMeta
  split
  · rfl
  · next m hm => exact (mem_of_readMeta hm).2

theorem mem_history {sessionId : String} :
    c ∈ st.history sessionId ↔ c ∈ st.checkpoints ∧ c.sessionId = sessionId := by
  simp [Store.history, Store.readSessionCheckpoints]

theorem seq_lt_nextSeq (hc : c ∈ st.checkpoints) :
    c.seq < st.nextSeq c.sessionId := by
  have hmem : c.seq ∈ (st.readSessionCheckpoints c.sessionId).map (·.seq) := by
    refine List.mem_map.mpr ⟨c, ?_, rfl⟩
    simpa [Store.readSessionCheckpoints] using hc
  unfold Store.nextSeq
  cases hmax : ((st.readSessionCheckpoints c.sessionId).map (·.seq)).max? with
  | none =>
    rw [List.max?_eq_none_iff] at hmax
    rw [hmax] at hmem
    cases hmem
  | some top =>
    have := (List.max?_eq_some_iff.mp hmax).2 _ hmem
    simp only [Option.getD_some]
    omega

namespace StoreIntact

theorem mono (h : StoreIntact env n st) (hn : n ≤ n') : StoreIntact env n' st where
  ids_nodup := h.ids_nodup
  seq_distinct := h.seq_distinct
  parent_older := h.parent_older
  head_stored := h.head_stored
  ids_known c hc := (h.ids_known c hc).mono hn
  parents_known c hc id hid := (h.parents_known c hc id hid).mono hn
  metas_nodup := h.metas_nodup

theorem id_inj (h : StoreIntact env n st) {c d : Checkpoint J} (hc : c ∈ st.checkpoints)
    (hd : d ∈ st.checkpoints) (hid : c.id = d.id) : c = d :=
  List.inj_on_of_nodup_map h.ids_nodup hc hd hid

theorem headIntact_of_mem (h : StoreIntact env n st) (hc : c ∈ st.checkpoints) :
    HeadIntact env n st c.sessionId (some c.id) := by
  intro id hid
  cases hid
  refine ⟨h.ids_known c hc, fun d hd hdc => ?_⟩
  rw [h.id_inj hd hc hdc]

theorem head_mem (h : StoreIntact env n st) {sessionId : String}
    (hc : st.head sessionId = some c) : c ∈ st.checkpoints ∧ c.sessionId = sessionId := by
  unfold Store.head at hc
  cases hm : st.readMeta sessionId with
  | none => simp [hm] at hc
  | some m =>
    obtain ⟨hmem, rfl⟩ := mem_of_readMeta hm
    cases hh : m.headId with
    | none => simp [hm, hh] at hc
    | some id =>
      simp only [hm, hh] at hc
      obtain ⟨hcm, rfl⟩ := mem_of_readCheckpoint hc
      obtain ⟨d, hd, hdid, hds⟩ := h.head_stored m hmem _ hh
      rw [h.id_inj hd hcm hdid] at hds
      exact ⟨hcm, hds⟩

/-! ### Writing -/

theorem notMem_slot (h : StoreIntact env n st) (hfresh : ¬ Known env n c.id) :
    st.backend.slot c ∉ st.checkpoints.map st.backend.slot := by
  intro hmem
  obtain ⟨d, hd, hslot⟩ := List.mem_map.mp hmem
  have hid : d.id = c.id := by
    cases hb : st.backend <;> simp only [hb, Backend.slot, Prod.mk.injEq] at hslot <;>
      exact hslot.2
  exact hfresh (hid ▸ h.ids_known d hd)

theorem checkpoints_withCheckpoint (h : StoreIntact env n st)
    (hfresh : ¬ Known env n c.id) :
    (st.withCheckpoint c).checkpoints = st.checkpoints ++ [c] :=
  upsert_of_notMem (h.notMem_slot hfresh)

/-- Writing a freshly minted checkpoint under the next sequence number, with a parent link its session
may hold, keeps the invariant. -/
theorem withCheckpoint (h : StoreIntact env n st) (hn : n ≤ n')
    (hfresh : ¬ Known env n c.id) (hknown : Known env n' c.id)
    (hseq : c.seq = st.nextSeq c.sessionId) (hparent : HeadIntact env n st c.sessionId c.parentId) :
    StoreIntact env n' (st.withCheckpoint c) := by
  have hrows := h.checkpoints_withCheckpoint hfresh
  have hmem : ∀ d, d ∈ (st.withCheckpoint c).checkpoints ↔ d ∈ st.checkpoints ∨ d = c := by
    intro d
    rw [hrows, List.mem_append, List.mem_singleton]
  have hne : ∀ d ∈ st.checkpoints, d.id ≠ c.id := fun d hd hid => hfresh (hid ▸ h.ids_known d hd)
  constructor
  · rw [hrows, List.map_append, List.nodup_append]
    refine ⟨h.ids_nodup, by simp, ?_⟩
    simpa using hne
  · rw [hrows, List.pairwise_append]
    refine ⟨h.seq_distinct, by simp, fun d hd e he hs => ?_⟩
    rw [List.mem_singleton] at he
    subst he
    have := seq_lt_nextSeq hd
    rw [hs, ← hseq] at this
    omega
  · intro d hd p hp hdp
    rcases (hmem d).mp hd with hold | rfl <;> rcases (hmem p).mp hp with hpold | rfl
    · exact h.parent_older d hold p hpold hdp
    · exact absurd (h.parents_known d hold _ hdp) hfresh
    · have hps := (hparent p.id hdp).2 p hpold rfl
      refine ⟨hps, ?_⟩
      have := seq_lt_nextSeq hpold
      rw [hps, ← hseq] at this
      exact this
    · exact absurd (hparent _ hdp).1 hfresh
  · intro m hm id hid
    obtain ⟨d, hd, hd'⟩ := h.head_stored m hm id hid
    exact ⟨d, (hmem d).mpr (Or.inl hd), hd'⟩
  · intro d hd
    rcases (hmem d).mp hd with hd | rfl
    · exact (h.ids_known d hd).mono hn
    · exact hknown
  · intro d hd id hid
    rcases (hmem d).mp hd with hd | rfl
    · exact (h.parents_known d hd id hid).mono hn
    · exact (hparent id hid).1.mono hn
  · exact h.metas_nodup

theorem withMeta (h : StoreIntact env n st) {m : SessionMeta}
    (hm : ∀ id, m.headId = some id → ∃ c ∈ st.checkpoints, c.id = id ∧ c.sessionId = m.sessionId) :
    StoreIntact env n (st.withMeta m) where
  ids_nodup := h.ids_nodup
  seq_distinct := h.seq_distinct
  parent_older := h.parent_older
  head_stored k hk id hid := by
    rcases mem_upsert.mp hk with rfl | ⟨hk, -⟩
    · exact hm id hid
    · exact h.head_stored k hk id hid
  ids_known := h.ids_known
  parents_known := h.parents_known
  metas_nodup := nodup_map_key_upsert h.metas_nodup

theorem without (h : StoreIntact env n st) {id : String} (hhead : ∀ m ∈ st.metas, m.headId ≠ some id) :
    StoreIntact env n (st.without id) := by
  have hsub : (st.without id).checkpoints.Sublist st.checkpoints := List.filter_sublist
  constructor
  · exact h.ids_nodup.sublist (hsub.map _)
  · exact h.seq_distinct.sublist hsub
  · exact fun c hc p hp => h.parent_older c (hsub.subset hc) p (hsub.subset hp)
  · intro m hm i hi
    obtain ⟨c, hc, rfl, hcs⟩ := h.head_stored m hm i hi
    refine ⟨c, List.mem_filter.mpr ⟨hc, ?_⟩, rfl, hcs⟩
    have := hhead m hm
    rw [hi] at this
    simpa using fun heq => this (congrArg some heq)
  · exact fun c hc => h.ids_known c (hsub.subset hc)
  · exact fun c hc => h.parents_known c (hsub.subset hc)
  · exact h.metas_nodup

/-- No session's head is among the checkpoints `prune` deletes. -/
theorem pruned_not_head (h : StoreIntact env n st) {sessionId : String} {keep : Int}
    (hc : c ∈ st.pruned sessionId keep) :
    ∀ m ∈ st.metas, m.headId ≠ some c.id := by
  have hcand := List.mem_of_mem_take hc
  simp only [Store.removable, List.mem_mergeSort, List.mem_filter, decide_eq_true_eq] at hcand
  obtain ⟨hhist, hhead⟩ := hcand
  obtain ⟨hmem, hs⟩ := mem_history.mp hhist
  intro m hm hid
  obtain ⟨d, hd, hdid, hds⟩ := h.head_stored m hm _ hid
  rw [h.id_inj hd hmem hdid, hs] at hds
  -- the head belongs to the pruned session, whose metadata the source has just read
  have hread : st.readMeta sessionId = some m := by
    obtain ⟨k, hk⟩ : ∃ k, st.readMeta sessionId = some k := by
      refine Option.isSome_iff_exists.mp (List.find?_isSome.mpr ⟨m, hm, ?_⟩)
      simp [hds]
    obtain ⟨hkm, hks⟩ := mem_of_readMeta hk
    rw [hk, List.inj_on_of_nodup_map h.metas_nodup hkm hm (hks.trans hds)]
  exact hhead (by rw [hread, Option.bind_some, hid])

end StoreIntact

namespace HeadIntact

variable {sessionId : String} {headId : Option String}

theorem mono (h : HeadIntact env n st sessionId headId) (hn : n ≤ n') :
    HeadIntact env n' st sessionId headId :=
  fun id hid => ⟨(h id hid).1.mono hn, (h id hid).2⟩

theorem withCheckpoint (h : HeadIntact env n st sessionId headId) (hn : n ≤ n')
    (hfresh : ¬ Known env n c.id) : HeadIntact env n' (st.withCheckpoint c) sessionId headId := by
  intro id hid
  obtain ⟨hknown, hs⟩ := h id hid
  refine ⟨hknown.mono hn, fun d hd hdid => ?_⟩
  rcases mem_upsert.mp hd with rfl | ⟨hd, -⟩
  · exact absurd (hdid ▸ hknown) hfresh
  · exact hs d hd hdid

theorem without (h : HeadIntact env n st sessionId headId) (id : String) :
    HeadIntact env n (st.without id) sessionId headId :=
  fun i hi => ⟨(h i hi).1, fun c hc => (h i hi).2 c (List.mem_of_mem_filter hc)⟩

end HeadIntact

end VidbyteSdk.Sessions

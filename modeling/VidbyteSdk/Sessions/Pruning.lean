import VidbyteSdk.Lib.Lineage
import VidbyteSdk.Sessions.Intact

/-!
# What pruning keeps

`BaseSessionStore.prune` deletes a front of the removable checkpoints: those off the head's chain first, then the
oldest ancestors. The walk along the parents is a `Walk`, which ends for every parent relation. Of a session whose
parents are older than their children, what survives of the chain runs up to the head without a gap.
-/

namespace VidbyteSdk.Sessions

open VidbyteSdk.Lib Prog Relation

variable {J : Type}

/-! ### The walk to the oldest ancestor -/

/-- What the loop of `prune` knows of an id: the parent of its last row. -/
def nextParent (checkpoints : List (Checkpoint J)) (id : String) : Option (Option String) :=
  (checkpoints.reverse.find? (·.id = id)).map (·.parentId)

theorem nextParent_isSome {checkpoints : List (Checkpoint J)} {id : String} :
    (nextParent checkpoints id).isSome ↔ id ∈ checkpoints.map (·.id) := by
  rw [nextParent, Option.isSome_map, List.find?_isSome, List.mem_map]
  simp only [List.mem_reverse, decide_eq_true_eq]

theorem nextParent_of_mem {checkpoints : List (Checkpoint J)} (hids : (checkpoints.map (·.id)).Nodup)
    {c : Checkpoint J} (hc : c ∈ checkpoints) : nextParent checkpoints c.id = some c.parentId := by
  obtain ⟨found, hfound⟩ : ∃ d, checkpoints.reverse.find? (·.id = c.id) = some d := by
    refine Option.isSome_iff_exists.mp (List.find?_isSome.mpr ⟨c, List.mem_reverse.mpr hc, ?_⟩)
    simp
  have hid : found.id = c.id := by simpa using List.find?_some hfound
  have hmem : found ∈ checkpoints := List.mem_reverse.mp (List.mem_of_find?_eq_some hfound)
  rw [nextParent, hfound, List.inj_on_of_nodup_map hids hmem hc hid]
  rfl

theorem walk_headChain_of_fuel (checkpoints : List (Checkpoint J)) (fuel : Nat) (cursor : Option String)
    (chain : List String) (hfuel : checkpoints.length ≤ fuel + chain.length) (hnodup : chain.Nodup)
    (hsub : chain ⊆ checkpoints.map (·.id)) :
    Walk (nextParent checkpoints) cursor chain (Store.headChain checkpoints fuel cursor chain) := by
  induction fuel generalizing cursor chain with
  | zero =>
    cases cursor with
    | none => exact .root _
    | some id =>
      by_cases hseen : id ∈ chain
      · exact .again hseen
      · refine .dangling (Option.not_isSome_iff_eq_none.mp fun hstored => ?_)
        rw [nextParent_isSome] at hstored
        have hle : (id :: chain).length ≤ (checkpoints.map (·.id)).length :=
          (List.subperm_of_subset (List.nodup_cons.mpr ⟨hseen, hnodup⟩)
            (List.cons_subset.mpr ⟨hstored, hsub⟩)).length_le
        simp only [List.length_cons, List.length_map] at hle
        omega
  | succ fuel ih =>
    cases cursor with
    | none => exact .root _
    | some id =>
      rw [Store.headChain]
      split
      · next hseen => exact .again hseen
      · next hnew =>
        split
        · next hnone => exact .dangling (by rw [nextParent, hnone]; rfl)
        · next c hfound =>
          have hnext : nextParent checkpoints id = some c.parentId := by rw [nextParent, hfound]; rfl
          refine .step hnew hnext (ih _ _ ?_ (List.nodup_cons.mpr ⟨hnew, hnodup⟩) ?_)
          · rw [List.length_cons]
            omega
          · exact List.cons_subset.mpr ⟨nextParent_isSome.mp (by rw [hnext]; rfl), hsub⟩

theorem walk_headChain (checkpoints : List (Checkpoint J)) (headId : Option String) :
    Walk (nextParent checkpoints) headId [] (Store.headChain checkpoints checkpoints.length headId []) :=
  walk_headChain_of_fuel _ _ _ _ (Nat.le_refl _) List.nodup_nil (List.nil_subset _)

/-! ### Ancestors -/

def IsParent (checkpoints : List (Checkpoint J)) (c p : Checkpoint J) : Prop :=
  c ∈ checkpoints ∧ p ∈ checkpoints ∧ c.parentId = some p.id

abbrev IsAncestor (checkpoints : List (Checkpoint J)) : Checkpoint J → Checkpoint J → Prop :=
  ReflTransGen (IsParent checkpoints)

section Ancestors

variable {checkpoints : List (Checkpoint J)} {head c d : Checkpoint J}

theorem mem_of_isAncestor (h : IsAncestor checkpoints c d) (hc : c ∈ checkpoints) : d ∈ checkpoints := by
  rcases ReflTransGen.cases_tail h with rfl | ⟨_, -, hlast⟩
  · exact hc
  · exact hlast.2.1

theorem isAncestor_congr {checkpoints' : List (Checkpoint J)} (h : ∀ c, c ∈ checkpoints ↔ c ∈ checkpoints') :
    IsAncestor checkpoints = IsAncestor checkpoints' := by
  have hparent : IsParent checkpoints = IsParent checkpoints' := by
    funext c p
    rw [IsParent, IsParent, h c, h p]
  rw [IsAncestor, hparent]

theorem seq_le_of_isAncestor (hseq : ∀ c ∈ checkpoints, ∀ p ∈ checkpoints, c.parentId = some p.id → p.seq < c.seq)
    (h : IsAncestor checkpoints c d) : d = c ∨ d.seq < c.seq := by
  induction h with
  | refl => exact Or.inl rfl
  | @tail b d _ hparent ih =>
    have hlt := hseq b hparent.1 d hparent.2.1 hparent.2.2
    rcases ih with rfl | hlt'
    · exact Or.inr hlt
    · exact Or.inr (hlt.trans hlt')

theorem reach_iff_isAncestor (hids : (checkpoints.map (·.id)).Nodup) (hc : c ∈ checkpoints)
    (hd : d ∈ checkpoints) :
    ReflTransGen (Links (nextParent checkpoints)) c.id d.id ↔ IsAncestor checkpoints c d := by
  constructor
  · intro h
    suffices hmain : ∀ {id}, ReflTransGen (Links (nextParent checkpoints)) c.id id →
        ∀ e ∈ checkpoints, e.id = id → IsAncestor checkpoints c e from hmain h d hd rfl
    intro id h
    induction h with
    | refl =>
      intro e he hid
      rw [List.inj_on_of_nodup_map hids he hc hid]
    | @tail i j _ hlink ih =>
      intro e he hid
      have hstored : i ∈ checkpoints.map (·.id) :=
        nextParent_isSome.mp (by rw [show nextParent checkpoints i = some (some j) from hlink]; rfl)
      obtain ⟨b, hb, rfl⟩ := List.mem_map.mp hstored
      have hparent : some b.parentId = some (some j) := (nextParent_of_mem hids hb).symm.trans hlink
      exact (ih b hb rfl).tail ⟨hb, he, (Option.some.inj hparent).trans (congrArg some hid.symm)⟩
  · intro h
    induction h with
    | refl => exact .refl
    | @tail b d _ hparent ih =>
      refine (ih hparent.1).tail ?_
      rw [Links, nextParent_of_mem hids hparent.1, hparent.2.2]

theorem mem_headChain (hids : (checkpoints.map (·.id)).Nodup) (hhead : head ∈ checkpoints)
    (hc : c ∈ checkpoints) :
    c.id ∈ Store.headChain checkpoints checkpoints.length (some head.id) []
      ↔ IsAncestor checkpoints head c := by
  have hstored : ∀ {e}, e ∈ checkpoints → (nextParent checkpoints e.id).isSome := fun he =>
    nextParent_isSome.mpr (List.mem_map_of_mem he)
  rw [(walk_headChain checkpoints (some head.id)).mem_iff, reach_iff_isAncestor hids hhead hc]
  exact ⟨fun h => h.2.2, fun h => ⟨hstored hhead, hstored hc, h⟩⟩

end Ancestors

/-! ### What is deleted -/

/-- What `prune` leaves of a session, `before` its checkpoints and `after` those that remain. -/
structure PruneKeeps (before after : List (Checkpoint J)) (head : Checkpoint J) (keep : Int) : Prop where
  survivors : after.Sublist before
  count : (after.length : Int) = max 1 (min (before.length : Int) keep)
  head_mem : head ∈ after
  ancestors_last : ∀ a ∈ before, IsAncestor before head a → a ∉ after → ∀ c ∈ after, IsAncestor before head c
  contiguous : ∀ a ∈ after, ∀ c, IsAncestor before head c → IsAncestor before c a → c ∈ after

/-- A run of `prune` that ends without an exception has deleted the rows of the chosen ids. -/
theorem prune_ok {h : Host J} {sessionId : String} {keep : Int}
    (hok : (StoreM.prune sessionId (some keep) h).result = .ok ()) :
    (StoreM.prune sessionId (some keep) h).final.store.checkpoints
      = h.store.checkpoints.filter fun c => c.id ∉ (h.store.pruned sessionId keep).map (·.id) := by
  have hloop : ∀ (gone : List (Checkpoint J)) (h : Host J),
      wp (fun _ => True) (forM gone fun c => StoreM.deleteCheckpoint c.id)
        (fun _ h' => h'.store.checkpoints = h.store.checkpoints.filter fun c => c.id ∉ gone.map (·.id))
        (fun _ _ => True) h := by
    intro gone
    induction gone with
    | nil => intro h; simp
    | cons d gone ih =>
      intro h
      rw [List.forM_cons, wp_bind]
      have hwrite : wp (fun _ => True) (StoreM.deleteCheckpoint d.id)
          (fun _ h' => h'.store = h.store.without d.id) (fun _ _ => True) h := by
        unfold StoreM.deleteCheckpoint StoreM.write
        rw [wp_bind, wp_get]
        rcases h.faults with _ | ⟨_ | _, faults⟩ <;> simp
      refine wp_post hwrite (fun _ h₁ h₁store => ?_) fun _ _ => id
      refine wp_post (ih h₁) (fun _ h₂ h₂store => ?_) fun _ _ => id
      rw [h₂store, h₁store, Store.without, List.filter_filter]
      refine List.filter_congr fun c _ => ?_
      simp only [List.map_cons, List.mem_cons, not_or, ne_eq, Bool.decide_and, Bool.and_comm]
  have hrun : wp (fun _ => True) (StoreM.prune sessionId (some keep))
      (fun _ h' => h'.store.checkpoints
        = h.store.checkpoints.filter fun c => c.id ∉ (h.store.pruned sessionId keep).map (·.id))
      (fun _ _ => True) h := by
    unfold StoreM.prune
    rw [wp_bind, wp_get]
    exact hloop _ _
  exact (wp_ends hrun).1 () hok

/-- `prune` raises only where a deletion fails. -/
theorem prune_result {h : Host J} (hfaults : h.faults = []) (sessionId : String) (keep : Option Int) :
    (StoreM.prune sessionId keep h).result = .ok () := by
  have hrun : wp (fun _ => True) (StoreM.prune sessionId keep) (fun _ h' => h'.faults = [])
      (fun _ _ => False) h := by
    unfold StoreM.prune
    cases keep with
    | none => exact (wp_pure _).mpr hfaults
    | some keep =>
      dsimp only
      rw [wp_bind, wp_get]
      refine wp_post (wp_forM _ _ (fun c _ h' h'faults => ?_) hfaults) (fun _ _ => id) fun _ _ => id
      unfold StoreM.deleteCheckpoint StoreM.write
      rw [wp_bind, wp_get, h'faults]
      simp [h'faults]
  cases hresult : (StoreM.prune sessionId keep h).result with
  | ok _ => rfl
  | error e => exact ((wp_ends hrun).2 e hresult).elim

section Deleted

variable {st : Store J} {sessionId : String} {keep : Int} {m : SessionMeta} {head : Checkpoint J}

/-- The order in which `prune` deletes: off the chain first, then by `seq`. -/
def DeletedBefore (chain : List String) (c d : Checkpoint J) : Prop :=
  if c.id ∈ chain ↔ d.id ∈ chain then c.seq ≤ d.seq else d.id ∈ chain

theorem pairwise_removable (checkpoints : List (Checkpoint J)) (headId : Option String) (chain : List String) :
    (Store.removable checkpoints headId chain).Pairwise (DeletedBefore chain) := by
  refine (List.pairwise_mergeSort ?_ ?_ _).imp fun {c d} h => ?_
  · intro a b c hab hbc
    grind
  · intro a b
    grind
  · unfold DeletedBefore
    grind

variable {chain : List String}

theorem mem_removable_history (hids : ((st.readSessionCheckpoints sessionId).map (·.id)).Nodup)
    (hhead : head ∈ st.readSessionCheckpoints sessionId) {c : Checkpoint J} :
    c ∈ Store.removable (st.history sessionId) (some head.id) chain
      ↔ c ∈ st.readSessionCheckpoints sessionId ∧ c ≠ head := by
  simp only [Store.removable, Store.history, List.mem_mergeSort, List.mem_filter, decide_eq_true_eq, ne_eq,
    Option.some.injEq]
  refine and_congr_right fun hc => not_congr ⟨fun hid => List.inj_on_of_nodup_map hids hc hhead hid, ?_⟩
  rintro rfl
  rfl

theorem nodup_removable_history {headId : Option String}
    (hids : ((st.readSessionCheckpoints sessionId).map (·.id)).Nodup) :
    (Store.removable (st.history sessionId) headId chain).Nodup := by
  have hhist : (st.history sessionId).Nodup :=
    (List.mergeSort_perm _ _).nodup_iff.mpr (List.Nodup.of_map _ hids)
  exact (List.mergeSort_perm _ _).nodup_iff.mpr (hhist.filter _)

theorem length_removable_history (hids : ((st.readSessionCheckpoints sessionId).map (·.id)).Nodup)
    (hhead : head ∈ st.readSessionCheckpoints sessionId) :
    (Store.removable (st.history sessionId) (some head.id) chain).length + 1
      = (st.readSessionCheckpoints sessionId).length := by
  have hperm : (head :: Store.removable (st.history sessionId) (some head.id) chain).Perm
      (st.readSessionCheckpoints sessionId) := by
    refine (List.perm_ext_iff_of_nodup ?_ (List.Nodup.of_map _ hids)).mpr fun c => ?_
    · refine List.nodup_cons.mpr ⟨fun hmem => ?_, nodup_removable_history hids⟩
      exact ((mem_removable_history hids hhead).mp hmem).2 rfl
    · rw [List.mem_cons, mem_removable_history hids hhead]
      constructor
      · rintro (rfl | ⟨hc, -⟩)
        · exact hhead
        · exact hc
      · intro hc
        by_cases h : c = head
        · exact Or.inl h
        · exact Or.inr ⟨hc, h⟩
  exact hperm.length_eq

/-- Deleting a front of the candidates keeps what `PruneKeeps` says. -/
theorem pruneKeeps_of_take {before candidates : List (Checkpoint J)} {excess : Nat}
    (hids : (before.map (·.id)).Nodup) (hhead : head ∈ before)
    (hseq : ∀ c ∈ before, ∀ p ∈ before, c.parentId = some p.id → p.seq < c.seq)
    (hmem : ∀ c, c ∈ candidates ↔ c ∈ before ∧ c ≠ head) (hnodup : candidates.Nodup)
    (hlength : candidates.length + 1 = before.length)
    (hchain : ∀ c ∈ before, (c.id ∈ chain ↔ IsAncestor before head c))
    (hsorted : candidates.Pairwise (DeletedBefore chain))
    (hexcess : (excess : Int) = max 0 (candidates.length - max (keep - 1) 0)) :
    PruneKeeps before (before.filter fun c => c.id ∉ (candidates.take excess).map (·.id)) head keep := by
  have hgone : ∀ c ∈ before, (c.id ∈ (candidates.take excess).map (·.id) ↔ c ∈ candidates.take excess) := by
    intro c hc
    refine ⟨fun h => ?_, fun h => List.mem_map_of_mem h⟩
    obtain ⟨d, hd, hid⟩ := List.mem_map.mp h
    have hd' := ((hmem d).mp (List.mem_of_mem_take hd)).1
    rwa [← List.inj_on_of_nodup_map hids hd' hc hid]
  have hafter : ∀ c, c ∈ before.filter (fun c => c.id ∉ (candidates.take excess).map (·.id))
      ↔ c ∈ before ∧ c ∉ candidates.take excess := by
    intro c
    rw [List.mem_filter, decide_eq_true_eq]
    exact and_congr_right fun hc => not_congr (hgone c hc)
  -- what is deleted comes before what stays
  have horder : ∀ c ∈ candidates.take excess, ∀ d ∈ candidates, d ∉ candidates.take excess →
      DeletedBefore chain c d := by
    intro c hc d hd hnot
    rw [← List.take_append_drop excess candidates] at hsorted hd
    exact (List.pairwise_append.mp hsorted).2.2 c hc d ((List.mem_append.mp hd).resolve_left hnot)
  refine ⟨List.filter_sublist, ?_, ?_, ?_, ?_⟩
  · have hperm : (candidates.take excess ++ before.filter fun c => c.id ∉ (candidates.take excess).map (·.id)).Perm
        before := by
      refine (List.perm_ext_iff_of_nodup ?_ (List.Nodup.of_map _ hids)).mpr fun c => ?_
      · refine List.nodup_append'.mpr ⟨hnodup.sublist (List.take_sublist _ _),
          (List.Nodup.of_map _ hids).filter _, fun c hc hc' => ?_⟩
        exact ((hafter c).mp hc').2 hc
      · rw [List.mem_append, hafter]
        constructor
        · rintro (hc | ⟨hc, -⟩)
          · exact ((hmem c).mp (List.mem_of_mem_take hc)).1
          · exact hc
        · intro hc
          by_cases h : c ∈ candidates.take excess
          · exact Or.inl h
          · exact Or.inr ⟨hc, h⟩
    have hlen := hperm.length_eq
    rw [List.length_append, List.length_take] at hlen
    omega
  · exact (hafter head).mpr ⟨hhead, fun h => ((hmem head).mp (List.mem_of_mem_take h)).2 rfl⟩
  · intro a ha hanc hnot c hc
    obtain ⟨hc, hkept⟩ := (hafter c).mp hc
    have hdeleted : a ∈ candidates.take excess := by
      by_contra h
      exact hnot ((hafter a).mpr ⟨ha, h⟩)
    by_cases hch : c = head
    · rw [hch]
    · have hbefore := horder a hdeleted c ((hmem c).mpr ⟨hc, hch⟩) hkept
      rw [DeletedBefore] at hbefore
      split at hbefore
      · next hboth => exact (hchain c hc).mp (hboth.mp ((hchain a ha).mpr hanc))
      · exact (hchain c hc).mp hbefore
  · intro a ha c hanc hlast
    obtain ⟨ha, hkept⟩ := (hafter a).mp ha
    have hc := mem_of_isAncestor hanc hhead
    refine (hafter c).mpr ⟨hc, fun hdeleted => ?_⟩
    have hage := seq_le_of_isAncestor hseq hlast
    have hne : c ≠ head := ((hmem c).mp (List.mem_of_mem_take hdeleted)).2
    by_cases hah : a = head
    · -- the head would be an ancestor of an older checkpoint
      have hage' := seq_le_of_isAncestor hseq hanc
      rw [hah] at hage
      rcases hage with h | h
      · exact hne h.symm
      · exact hage'.elim hne fun h' => absurd (h.trans h') (lt_irrefl _)
    · have hbefore := horder c hdeleted a ((hmem a).mpr ⟨ha, hah⟩) hkept
      have hboth : c.id ∈ chain ↔ a.id ∈ chain :=
        iff_of_true ((hchain c hc).mpr hanc) ((hchain a ha).mpr (hanc.trans hlast))
      rw [DeletedBefore, if_pos hboth] at hbefore
      rcases hage with rfl | h
      · exact hkept hdeleted
      · exact absurd (h.trans_le hbefore) (lt_irrefl _)

end Deleted

/-- For every session whose head is stored and whose parents are older than their children, `prune` leaves
`max 1 (min n keep)` checkpoints, the head among them. It deletes no ancestor of the head before the others are
gone, and the ancestors it leaves run up to the head without a gap. The walk it takes ends for every relation of
parents. -/
theorem prune_keeps (h : Host J) (sessionId : String) (keep : Int) (m : SessionMeta) (head : Checkpoint J)
    (hok : (StoreM.prune sessionId (some keep) h).result = .ok ())
    (hmeta : h.store.readMeta sessionId = some m) (hhead : m.headId = some head.id)
    (hstored : head ∈ h.store.readSessionCheckpoints sessionId) (hnamed : head.id ≠ "")
    (hids : ((h.store.readSessionCheckpoints sessionId).map (·.id)).Nodup)
    (hseq : ∀ c ∈ h.store.readSessionCheckpoints sessionId, ∀ p ∈ h.store.readSessionCheckpoints sessionId,
      c.parentId = some p.id → p.seq < c.seq) :
    PruneKeeps (h.store.readSessionCheckpoints sessionId)
        ((StoreM.prune sessionId (some keep) h).final.store.readSessionCheckpoints sessionId) head keep ∧
      ∀ (checkpoints : List (Checkpoint J)) (headId : Option String), Walk (nextParent checkpoints) headId []
        (Store.headChain checkpoints checkpoints.length headId []) := by
  refine ⟨?_, walk_headChain⟩
  have hsame : ∀ c, c ∈ h.store.history sessionId ↔ c ∈ h.store.readSessionCheckpoints sessionId := fun c => by
    rw [Store.history, List.mem_mergeSort]
  have hids' : ((h.store.history sessionId).map (·.id)).Nodup :=
    ((List.mergeSort_perm _ _).map _).nodup_iff.mpr hids
  have hafter : (StoreM.prune sessionId (some keep) h).final.store.readSessionCheckpoints sessionId
      = (h.store.readSessionCheckpoints sessionId).filter
        fun c => c.id ∉ (h.store.pruned sessionId keep).map (·.id) := by
    rw [Store.readSessionCheckpoints, prune_ok hok, Store.readSessionCheckpoints, List.filter_filter,
      List.filter_filter]
    exact List.filter_congr fun c _ => Bool.and_comm _ _
  have hpruned : h.store.pruned sessionId keep
      = (Store.removable (h.store.history sessionId) (some head.id)
          (Store.headChain (h.store.history sessionId) (h.store.history sessionId).length (some head.id) [])).take
        ((((Store.removable (h.store.history sessionId) (some head.id)
          (Store.headChain (h.store.history sessionId) (h.store.history sessionId).length (some head.id)
            [])).length : Int) - max (keep - 1) 0).toNat) := by
    rw [Store.pruned, hmeta, Option.bind_some, hhead]
    simp [hnamed]
  rw [hafter, hpruned]
  refine pruneKeeps_of_take hids hstored hseq (fun c => mem_removable_history hids hstored)
    (nodup_removable_history hids) (length_removable_history hids hstored) (fun c hc => ?_)
    (pairwise_removable _ _ _) (by omega)
  rw [mem_headChain hids' ((hsame head).mpr hstored) ((hsame c).mpr hc), isAncestor_congr hsame]

/-- A session of a root, its child and a branch of the root, with the child as head. -/
def branchedSession : Host Unit :=
  let row (id : String) (parentId : Option String) (seq : Int) : Checkpoint Unit :=
    { id, sessionId := "se", parentId, seq, createdAt := "", runState := ⟨"agent", [], ()⟩ }
  { store :=
      { backend := .keyed
        checkpoints := [row "root" none 0, row "child" (some "root") 1, row "branch" (some "root") 2]
        metas := [⟨"se", some "child", none, "agent", .active, "", "", []⟩] } }

theorem prune_keeps_branchedSession :
    (branchedSession.store.readSessionCheckpoints "se").length = 3 ∧
      ∃ head ∈ branchedSession.store.readSessionCheckpoints "se",
        PruneKeeps (branchedSession.store.readSessionCheckpoints "se")
          ((StoreM.prune "se" (some 2) branchedSession).final.store.readSessionCheckpoints "se") head 2 :=
  ⟨by decide, { id := "child", sessionId := "se", parentId := some "root", seq := 1, createdAt := ""
                runState := ⟨"agent", [], ()⟩ }, by decide,
    (prune_keeps branchedSession "se" 2 _ _ (prune_result rfl _ _) rfl rfl (by decide) (by decide) (by decide)
      (by decide)).1⟩

end VidbyteSdk.Sessions

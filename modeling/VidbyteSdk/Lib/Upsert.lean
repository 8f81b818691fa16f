import Mathlib.Algebra.GroupWithZero.Nat
import Mathlib.Algebra.BigOperators.Group.List.Basic
import Mathlib.Data.List.Induction
import Mathlib.Data.List.Nodup

/-!
# Keyed lists

A dictionary, a table or a directory as the list of its rows: `upsert` replaces the row of a key in
place, or appends one. Row order is insertion order, as in the source's dictionaries.
-/

namespace VidbyteSdk.Lib

variable {α κ : Type*} [DecidableEq κ] {key : α → κ} {a b : α} {l : List α}

variable {β : Type*}

theorem forall_mem_of_all {p : β → Prop} [DecidablePred p] {rows : List β}
    (h : (rows.all fun b => decide (p b)) = true) : ∀ b ∈ rows, p b := by
  intro b hb
  exact of_decide_eq_true (List.all_eq_true.mp h b hb)

/-- Writes the row `a` under its key. -/
def upsert (key : α → κ) (a : α) (l : List α) : List α :=
  if key a ∈ l.map key then l.map fun b => if key b = key a then a else b else l ++ [a]

theorem upsert_of_notMem (h : key a ∉ l.map key) : upsert key a l = l ++ [a] :=
  if_neg h

theorem upsert_of_mem (h : key a ∈ l.map key) :
    upsert key a l = l.map fun b => if key b = key a then a else b :=
  if_pos h

theorem mem_upsert : b ∈ upsert key a l ↔ b = a ∨ b ∈ l ∧ key b ≠ key a := by
  by_cases h : key a ∈ l.map key
  · rw [upsert_of_mem h, List.mem_map]
    constructor
    · rintro ⟨c, hc, rfl⟩
      by_cases hk : key c = key a
      · simp [hk]
      · simp [hk, hc]
    · rintro (rfl | ⟨hb, hk⟩)
      · obtain ⟨c, hc, hkc⟩ := List.mem_map.mp h
        exact ⟨c, hc, if_pos hkc⟩
      · exact ⟨b, hb, if_neg hk⟩
  · rw [upsert_of_notMem h, List.mem_append, List.mem_singleton, or_comm]
    refine or_congr_right ⟨fun hb => ⟨hb, fun hk => h ?_⟩, fun hb => hb.1⟩
    exact hk ▸ List.mem_map_of_mem hb

theorem mem_upsert_self : a ∈ upsert key a l := mem_upsert.mpr (Or.inl rfl)

theorem map_key_upsert_of_mem (h : key a ∈ l.map key) : (upsert key a l).map key = l.map key := by
  rw [upsert_of_mem h, List.map_map]
  refine List.map_congr_left fun b _ => ?_
  by_cases hk : key b = key a <;> simp [hk]

theorem nodup_map_key_upsert (h : (l.map key).Nodup) : ((upsert key a l).map key).Nodup := by
  by_cases ha : key a ∈ l.map key
  · rwa [map_key_upsert_of_mem ha]
  · rw [upsert_of_notMem ha, List.map_append]
    exact List.nodup_append_comm.mp (by simpa using ⟨by simpa using ha, h⟩)

theorem lookup_eq_find? [BEq κ] [LawfulBEq κ] (entries : List (κ × β)) (k : κ) :
    entries.lookup k = (entries.find? fun entry => entry.1 = k).map Prod.snd := by
  induction entries with
  | nil => rfl
  | cons entry entries ih =>
    rw [List.lookup_cons, List.find?_cons]
    by_cases hk : entry.1 = k
    · rw [hk, beq_self_eq_true, decide_eq_true rfl]
      rfl
    · rw [beq_eq_false_iff_ne.mpr (Ne.symm hk), decide_eq_false hk]
      exact ih

theorem lookup_filter_ne [BEq κ] [LawfulBEq κ] (entries : List (κ × β)) (k k' : κ) :
    (entries.filter fun entry => entry.1 ≠ k).lookup k' =
      if k' = k then none else entries.lookup k' := by
  induction entries with
  | nil => simp
  | cons entry entries ih =>
    by_cases hentry : entry.1 = k
    · rw [List.filter_cons_of_neg (by simpa using hentry), ih, List.lookup_cons]
      by_cases hk : k' = k
      · rw [if_pos hk, if_pos hk]
      · have hne : k' ≠ entry.1 := fun h => hk (h.trans hentry)
        rw [if_neg hk, if_neg hk, beq_eq_false_iff_ne.mpr hne]
    · rw [List.filter_cons_of_pos (by simpa using hentry), List.lookup_cons, List.lookup_cons, ih]
      by_cases hk : k' = k
      · have hne : k' ≠ entry.1 := fun h => hentry (h.symm.trans hk)
        rw [if_pos hk, if_pos hk, beq_eq_false_iff_ne.mpr hne]
      · rw [if_neg hk, if_neg hk]

theorem lookup_filterMap_keys [BEq κ] [LawfulBEq κ] {f : κ → Option β} {keys : List κ}
    {k : κ} (h : k ∈ keys) :
    (keys.filterMap fun k => (f k).map fun b => (k, b)).lookup k = f k := by
  induction keys with
  | nil => cases h
  | cons other keys ih =>
    rw [List.filterMap_cons]
    cases hother : f other with
    | none =>
      by_cases hk : k ∈ keys
      · exact ih hk
      · obtain rfl := (List.mem_cons.mp h).resolve_right hk
        rw [hother, Option.map_none, List.lookup_eq_none_iff]
        intro entry hentry
        obtain ⟨found, hfound, hentry⟩ := List.mem_filterMap.mp hentry
        obtain ⟨b, -, rfl⟩ := Option.map_eq_some_iff.mp hentry
        rw [bne_iff_ne]
        rintro rfl
        exact hk hfound
    | some b =>
      rw [Option.map_some]
      by_cases hk : k = other
      · rw [hk, hother, List.lookup_cons_self]
      · rw [List.lookup_cons, beq_eq_false_iff_ne.mpr hk]
        exact ih ((List.mem_cons.mp h).resolve_left hk)

theorem mem_of_lookup {ι β : Type*} [BEq ι] [LawfulBEq ι] {entries : List (ι × β)} {k : ι} {b : β}
    (h : entries.lookup k = some b) : (k, b) ∈ entries := by
  obtain ⟨before, after, rfl, -⟩ := List.lookup_eq_some_iff.mp h
  exact List.mem_append_right _ List.mem_cons_self

theorem lookup_eq_none {ι β : Type*} [BEq ι] [LawfulBEq ι] {entries : List (ι × β)} {k : ι} :
    entries.lookup k = none ↔ k ∉ entries.map Prod.fst := by
  rw [List.lookup_eq_none_iff]
  constructor
  · intro h hmem
    obtain ⟨entry, hentry, rfl⟩ := List.mem_map.mp hmem
    simpa using h entry hentry
  · intro h entry hentry
    rw [bne_iff_ne]
    exact fun hsame => h (hsame ▸ List.mem_map_of_mem hentry)

theorem lookup_of_mem {ι β : Type*} [BEq ι] [LawfulBEq ι] {entries : List (ι × β)}
    (hnodup : (entries.map Prod.fst).Nodup) {entry : ι × β} (h : entry ∈ entries) :
    entries.lookup entry.1 = some entry.2 := by
  induction entries with
  | nil => cases h
  | cons first entries ih =>
    rw [List.map_cons, List.nodup_cons] at hnodup
    rw [List.lookup_cons]
    rcases List.mem_cons.mp h with rfl | h
    · rw [beq_self_eq_true]
    · have hne : entry.1 ≠ first.1 := fun hsame => hnodup.1 (hsame ▸ List.mem_map_of_mem h)
      rw [beq_eq_false_iff_ne.mpr hne]
      exact ih hnodup.2 h

/-- A lookup finds the written row under its key and what was there before under any other. -/
theorem find?_upsert (k : κ) :
    (upsert key a l).find? (fun b => key b = k)
      = if key a = k then some a else l.find? fun b => key b = k := by
  by_cases h : key a ∈ l.map key
  · have hkey : ∀ b, key (if key b = key a then a else b) = key b := by
      intro b
      split
      · next hk => exact hk.symm
      · rfl
    rw [upsert_of_mem h, List.find?_map]
    have hfun : ((fun b => decide (key b = k)) ∘ fun b => if key b = key a then a else b)
        = fun b => decide (key b = k) := by
      funext b
      simp only [Function.comp_apply, hkey]
    rw [hfun]
    by_cases hk : key a = k
    · obtain ⟨c, hc, hkc⟩ := List.mem_map.mp h
      have hsome : (l.find? fun b => key b = k).isSome := by
        rw [List.find?_isSome]
        exact ⟨c, hc, by simp [hkc, hk]⟩
      obtain ⟨d, hd⟩ := Option.isSome_iff_exists.mp hsome
      have hkd : key d = k := by simpa using List.find?_some hd
      simp [hd, hk, hkd]
    · cases hf : l.find? fun b => decide (key b = k) with
      | none => simp [hk]
      | some c =>
        have hkc : key c = k := by simpa using List.find?_some hf
        have hca : key c ≠ key a := fun hca => hk (hca.symm.trans hkc)
        simp [hk, hca]
  · rw [upsert_of_notMem h, List.find?_append]
    by_cases hk : key a = k
    · have hnone : l.find? (fun b => key b = k) = none := by
        rw [List.find?_eq_none]
        intro b hb hkb
        have hka : key b = key a := (of_decide_eq_true hkb).trans hk.symm
        exact h (hka ▸ List.mem_map_of_mem hb)
      simp [hnone, hk]
    · simp [hk]

theorem sum_map_eq_add_filter (w : α → ℕ) (hnodup : (l.map key).Nodup) (k : κ) :
    (l.map w).sum = ((l.find? fun b => key b = k).map w).getD 0
      + ((l.filter fun b => key b ≠ k).map w).sum := by
  induction l with
  | nil => rfl
  | cons c l ih =>
    rw [List.map_cons, List.nodup_cons] at hnodup
    rw [List.map_cons, List.sum_cons, List.find?_cons, List.filter_cons]
    by_cases hk : key c = k
    · have hrest : (l.filter fun b => key b ≠ k) = l := by
        rw [List.filter_eq_self]
        intro b hb
        refine decide_eq_true fun hbk => hnodup.1 ?_
        rw [hk, ← hbk]
        exact List.mem_map_of_mem hb
      rw [if_neg (by simp [hk]), hrest]
      simp [hk]
    · simp only [hk, decide_false, not_false_eq_true, decide_true, if_true, ih hnodup.2,
        List.map_cons, List.sum_cons, ne_eq]
      omega

theorem filter_upsert : (upsert key a l).filter (fun b => key b ≠ key a)
    = l.filter fun b => key b ≠ key a := by
  by_cases h : key a ∈ l.map key
  · rw [upsert_of_mem h]
    clear h
    induction l with
    | nil => rfl
    | cons c l ih =>
      rw [List.map_cons, List.filter_cons, List.filter_cons, ih]
      by_cases hc : key c = key a <;> simp [hc]
  · rw [upsert_of_notMem h, List.filter_append]
    simp

theorem sum_map_upsert (w : α → ℕ) (hnodup : (l.map key).Nodup) :
    ((upsert key a l).map w).sum + ((l.find? fun b => key b = key a).map w).getD 0
      = (l.map w).sum + w a := by
  rw [sum_map_eq_add_filter w (nodup_map_key_upsert (a := a) hnodup) (key a),
    sum_map_eq_add_filter w hnodup (key a), filter_upsert, find?_upsert, if_pos rfl]
  simp only [Option.map_some, Option.getD_some]
  omega

theorem countP_upsert (p : α → Bool) (hnodup : (l.map key).Nodup) :
    (upsert key a l).countP p
        + ((l.find? fun b => key b = key a).map fun b => if p b then 1 else 0).getD 0
      = l.countP p + if p a then 1 else 0 := by
  have hcount : ∀ rows : List α, rows.countP p = (rows.map fun b => if p b then 1 else 0).sum := by
    intro rows
    induction rows with
    | nil => rfl
    | cons b rows ih => rw [List.countP_cons, List.map_cons, List.sum_cons, ih, Nat.add_comm]
  rw [hcount, hcount]
  exact sum_map_upsert (fun b => if p b then 1 else 0) hnodup

theorem map_upsert {κ' : Type*} [DecidableEq κ'] {key' : β → κ'} {f : α → β}
    (hkey : ∀ b ∈ l, key' (f b) = key' (f a) ↔ key b = key a) :
    (upsert key a l).map f = upsert key' (f a) (l.map f) := by
  have hmem : key a ∈ l.map key ↔ key' (f a) ∈ (l.map f).map key' := by
    rw [List.map_map, List.mem_map, List.mem_map]
    exact exists_congr fun b => and_congr_right fun hb => (hkey b hb).symm
  by_cases h : key a ∈ l.map key
  · rw [upsert_of_mem h, upsert_of_mem (hmem.mp h), List.map_map, List.map_map]
    refine List.map_congr_left fun b hb => ?_
    simp only [Function.comp_apply, hkey b hb]
    split <;> rfl
  · rw [upsert_of_notMem h, upsert_of_notMem (mt hmem.mpr h), List.map_append]
    rfl

/-! ### Writing many rows -/

/-- The rows that writing `ws` one after the other makes: of rows under one key, the last. -/
def upsertAll (key : α → κ) (ws : List α) : List α :=
  ws.foldl (fun rows a => upsert key a rows) []

variable {ws : List α}

theorem upsertAll_concat : upsertAll key (ws ++ [a]) = upsert key a (upsertAll key ws) :=
  List.foldl_append

theorem mem_of_mem_upsertAll (h : b ∈ upsertAll key ws) : b ∈ ws := by
  induction ws using List.reverseRecOn with
  | nil => exact h
  | append_singleton ws c ih =>
    rw [upsertAll_concat] at h
    rcases mem_upsert.mp h with rfl | ⟨h, -⟩
    · simp
    · exact List.mem_append_left _ (ih h)

theorem key_mem_upsertAll (h : b ∈ ws) : key b ∈ (upsertAll key ws).map key := by
  induction ws using List.reverseRecOn with
  | nil => cases h
  | append_singleton ws c ih =>
    rw [upsertAll_concat]
    rcases List.mem_append.mp h with h | h
    · by_cases hc : key b = key c
      · exact List.mem_map.mpr ⟨c, mem_upsert_self, hc.symm⟩
      · obtain ⟨d, hd, hdb⟩ := List.mem_map.mp (ih h)
        exact List.mem_map.mpr ⟨d, mem_upsert.mpr (Or.inr ⟨hd, hdb ▸ hc⟩), hdb⟩
    · rw [List.mem_singleton] at h
      exact List.mem_map.mpr ⟨c, mem_upsert_self, by rw [h]⟩

theorem upsertAll_of_nodup (h : (ws.map key).Nodup) : upsertAll key ws = ws := by
  induction ws using List.reverseRecOn with
  | nil => rfl
  | append_singleton ws c ih =>
    rw [List.map_append, List.nodup_append] at h
    rw [upsertAll_concat, ih h.1, upsert_of_notMem]
    intro hmem
    exact h.2.2 _ hmem (key c) (by simp) rfl

theorem nodup_map_key_upsertAll : ((upsertAll key ws).map key).Nodup := by
  induction ws using List.reverseRecOn with
  | nil => exact List.nodup_nil
  | append_singleton ws c ih =>
    rw [upsertAll_concat]
    exact nodup_map_key_upsert ih

theorem find?_upsertAll (k : κ) :
    (upsertAll key ws).find? (fun b => key b = k) = ws.reverse.find? fun b => key b = k := by
  induction ws using List.reverseRecOn with
  | nil => rfl
  | append_singleton ws c ih =>
    rw [upsertAll_concat, find?_upsert, ih, List.reverse_append, List.reverse_singleton,
      List.singleton_append, List.find?_cons]
    by_cases hc : key c = k <;> simp [hc]

theorem find?_reverse_of_nodup (h : (l.map key).Nodup) (k : κ) :
    l.reverse.find? (fun b => key b = k) = l.find? fun b => key b = k := by
  rw [← find?_upsertAll, upsertAll_of_nodup h]

theorem length_upsertAll_le : (upsertAll key ws).length ≤ ws.length := by
  induction ws using List.reverseRecOn with
  | nil => exact Nat.le_refl 0
  | append_singleton ws c ih =>
    rw [upsertAll_concat, List.length_append, List.length_singleton]
    by_cases h : key c ∈ (upsertAll key ws).map key
    · rw [upsert_of_mem h, List.length_map]
      omega
    · rw [upsert_of_notMem h, List.length_append, List.length_singleton]
      omega

theorem nodup_of_length_upsertAll (h : (upsertAll key ws).length = ws.length) :
    (ws.map key).Nodup := by
  induction ws using List.reverseRecOn with
  | nil => exact List.nodup_nil
  | append_singleton ws c ih =>
    rw [upsertAll_concat, List.length_append, List.length_singleton] at h
    have hle : (upsertAll key ws).length ≤ ws.length := length_upsertAll_le
    by_cases hc : key c ∈ (upsertAll key ws).map key
    · rw [upsert_of_mem hc, List.length_map] at h
      omega
    · rw [upsert_of_notMem hc, List.length_append, List.length_singleton] at h
      have hws := ih (by omega)
      rw [upsertAll_of_nodup hws] at hc
      rw [List.map_append, List.nodup_append]
      refine ⟨hws, by simp, fun s hs t ht hst => ?_⟩
      simp only [List.map_cons, List.map_nil, List.mem_singleton] at ht
      exact hc (ht ▸ hst ▸ hs)

theorem foldl_upsert_of_disjoint (hnew : ∀ w ∈ ws, key w ∉ l.map key) :
    ws.foldl (fun rows a => upsert key a rows) l = l ++ upsertAll key ws := by
  induction ws using List.reverseRecOn with
  | nil => simp [upsertAll]
  | append_singleton ws w ih =>
    have hws := ih fun v hv => hnew v (List.mem_append_left _ hv)
    have hold : key w ∉ l.map key := hnew w (by simp)
    rw [List.foldl_append, hws, upsertAll_concat, List.foldl_cons, List.foldl_nil]
    by_cases hmem : key w ∈ (upsertAll key ws).map key
    · rw [upsert_of_mem hmem, upsert_of_mem (by simp [hmem]), List.map_append]
      congr 1
      refine (List.map_congr_left fun c hc => if_neg fun hcw => hold ?_).trans (List.map_id _)
      exact hcw ▸ List.mem_map_of_mem hc
    · rw [upsert_of_notMem hmem, upsert_of_notMem, List.append_assoc]
      rw [List.map_append, List.mem_append, not_or]
      exact ⟨hold, hmem⟩

end VidbyteSdk.Lib

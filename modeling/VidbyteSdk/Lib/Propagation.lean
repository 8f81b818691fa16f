import Mathlib.Data.List.Nodup
import Mathlib.Logic.Relation

/-!
# Failures passed on in one scan

One scan of a list marks the items that fail on their own or need an item that is marked already. Where
every need names an earlier item, the marks are those of the needs relation: an unmarked item has no
marked item among all that it needs, directly or through others.
-/

namespace VidbyteSdk.Lib

section Propagation

variable {α κ : Type*} [DecidableEq κ] (key : α → κ) (needs : α → List κ) (fails : α → Bool)
  (start : List κ)

def propagateStep (marked : List κ) (a : α) : List κ :=
  if key a ∈ start then marked
  else if fails a || (needs a).any fun k => decide (k ∈ start ∨ k ∈ marked) then marked ++ [key a]
  else marked

def propagate (items : List α) : List κ := items.foldl (propagateStep key needs fails start) []

/-- The items stand in an order in which every need comes first. -/
def NeedsEarlier [BEq κ] (items : List α) : Prop :=
  ∀ a ∈ items, ∀ k ∈ needs a, (items.map key).idxOf k < (items.map key).idxOf (key a)

def Needs (items : List α) (k k' : κ) : Prop := ∃ a ∈ items, key a = k ∧ k' ∈ needs a

end Propagation

variable {α κ : Type*} [DecidableEq κ] {key : α → κ} {needs : α → List κ} {fails : α → Bool}
  {start : List κ}

theorem mem_propagateStep {marked : List κ} {a : α} {k : κ} :
    k ∈ propagateStep key needs fails start marked a ↔
      k ∈ marked ∨ k = key a ∧ key a ∉ start ∧
        (fails a = true ∨ ∃ need ∈ needs a, need ∈ start ∨ need ∈ marked) := by
  unfold propagateStep
  split
  · next hstart => simp [hstart]
  · next hstart =>
    split
    · next hfails =>
      rw [Bool.or_eq_true, List.any_eq_true] at hfails
      simp only [decide_eq_true_eq] at hfails
      simp [hstart, hfails]
    · next hfails =>
      rw [Bool.or_eq_true, List.any_eq_true] at hfails
      simp only [decide_eq_true_eq] at hfails
      simp [hfails]

variable {items : List α}

theorem mem_foldl_propagateStep {marked : List κ} {k : κ}
    (h : k ∉ items.map key) :
    k ∈ items.foldl (propagateStep key needs fails start) marked ↔ k ∈ marked := by
  induction items generalizing marked with
  | nil => rfl
  | cons a items ih =>
    rw [List.map_cons, List.mem_cons, not_or] at h
    rw [List.foldl_cons, ih h.2, mem_propagateStep]
    exact or_iff_left fun hk => h.1 hk.1

omit [DecidableEq κ] in
theorem NeedsEarlier.mem_before [BEq κ] [LawfulBEq κ] {before after : List α} {a : α} {k : κ}
    (h : NeedsEarlier key needs (before ++ a :: after))
    (hnodup : ((before ++ a :: after).map key).Nodup) (hk : k ∈ needs a) : k ∈ before.map key := by
  have hlt := h a (by simp) k hk
  rw [List.map_append, List.map_cons] at hlt hnodup
  have hfresh : key a ∉ before.map key := by
    intro hmem
    exact (List.nodup_append.mp hnodup).2.2 _ hmem _ List.mem_cons_self rfl
  rw [List.idxOf_append_of_notMem hfresh, List.idxOf_cons_self, Nat.add_zero] at hlt
  by_contra hmem
  rw [List.idxOf_append_of_notMem hmem] at hlt
  exact absurd hlt (Nat.not_lt.mpr (Nat.le_add_right _ _))

theorem mem_propagate_iff [BEq κ] [LawfulBEq κ] (hnodup : (items.map key).Nodup)
    (horder : NeedsEarlier key needs items) {a : α} (ha : a ∈ items) (hstart : key a ∉ start) :
    key a ∈ propagate key needs fails start items ↔
      fails a = true ∨
        ∃ need ∈ needs a, need ∈ start ∨ need ∈ propagate key needs fails start items := by
  obtain ⟨before, after, rfl⟩ := List.append_of_mem ha
  have hsplit : propagate key needs fails start (before ++ a :: after)
      = after.foldl (propagateStep key needs fails start)
        (propagateStep key needs fails start (propagate key needs fails start before) a) := by
    rw [propagate, List.foldl_append, List.foldl_cons]
    rfl
  have hkeys := hnodup
  rw [List.map_append, List.map_cons, List.nodup_append, List.nodup_cons] at hkeys
  obtain ⟨-, ⟨hafter, -⟩, hdisjoint⟩ := hkeys
  have hfresh : key a ∉ propagate key needs fails start before := by
    intro hmem
    have hbefore : key a ∉ before.map key := fun h => hdisjoint _ h _ List.mem_cons_self rfl
    exact List.not_mem_nil ((mem_foldl_propagateStep hbefore).mp hmem)
  -- What is said of a need was settled before the scan came to the item.
  have hneed : ∀ need ∈ needs a, (need ∈ propagate key needs fails start (before ++ a :: after) ↔
      need ∈ propagate key needs fails start before) := by
    intro need hmem
    have hbefore := horder.mem_before hnodup hmem
    have hlater : need ∉ after.map key := fun h =>
      hdisjoint _ hbefore _ (List.mem_cons_of_mem _ h) rfl
    rw [hsplit, mem_foldl_propagateStep hlater, mem_propagateStep]
    exact or_iff_left fun h => hdisjoint _ hbefore _ List.mem_cons_self h.1
  calc key a ∈ propagate key needs fails start (before ++ a :: after)
      ↔ fails a = true ∨
          ∃ need ∈ needs a, need ∈ start ∨ need ∈ propagate key needs fails start before := by
        rw [hsplit, mem_foldl_propagateStep hafter, mem_propagateStep]
        simp [hfresh, hstart]
    _ ↔ _ := by
        refine or_congr_right ⟨?_, ?_⟩
        · rintro ⟨need, hmem, hmarked⟩
          exact ⟨need, hmem, hmarked.imp_right (hneed need hmem).mpr⟩
        · rintro ⟨need, hmem, hmarked⟩
          exact ⟨need, hmem, hmarked.imp_right (hneed need hmem).mp⟩

theorem unmarked_of_transGen [BEq κ] [LawfulBEq κ] {below : κ → κ → Prop}
    (htrans : ∀ k l m, below k l → below l m → below k m) (hnodup : (items.map key).Nodup)
    (horder : NeedsEarlier key needs items)
    (hbelow : ∀ a ∈ items, key a ∉ start → fails a = false → ∀ k ∈ needs a, below k (key a))
    {k k' : κ} (h : Relation.TransGen (Needs key needs items) k k') (hstart : k ∉ start)
    (hk : k ∉ propagate key needs fails start items) :
    (k' ∉ start ∧ k' ∉ propagate key needs fails start items) ∧ below k' k := by
  have step : ∀ l l', Needs key needs items l l' → l ∉ start →
      l ∉ propagate key needs fails start items →
      (l' ∉ start ∧ l' ∉ propagate key needs fails start items) ∧ below l' l := by
    rintro l l' ⟨a, ha, rfl, hneed⟩ hl hmarked
    rw [mem_propagate_iff hnodup horder ha hl, not_or] at hmarked
    have hclear : l' ∉ start ∧ l' ∉ propagate key needs fails start items := by
      rw [← not_or]
      exact fun h => hmarked.2 ⟨l', hneed, h⟩
    exact ⟨hclear, hbelow a ha hl (Bool.not_eq_true _ ▸ hmarked.1) l' hneed⟩
  induction h with
  | single hneed => exact step _ _ hneed hstart hk
  | tail _ hneed ih =>
    obtain ⟨hclear, hlow⟩ := step _ _ hneed ih.1.1 ih.1.2
    exact ⟨hclear, htrans _ _ _ hlow ih.2⟩

end VidbyteSdk.Lib

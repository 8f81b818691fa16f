import VidbyteSdk.Lib.Upsert
import Mathlib.Data.List.Dedup

/-!
# Tables by recency

A dictionary in the order in which its keys were last written, oldest first, that drops its oldest rows above a
capacity. Within the capacity it is a map from keys to the value that each was last written with.
-/

namespace VidbyteSdk.Lib.Recency

variable {κ ν : Type*} [DecidableEq κ] {table : List (κ × ν)} {keys seen : List κ} {k key : κ} {value : ν}
  {capacity : ℕ}

def put (table : List (κ × ν)) (key : κ) (value : ν) : List (κ × ν) :=
  table.filter (fun row => row.1 ≠ key) ++ [(key, value)]

def trim (capacity : ℕ) (table : List (κ × ν)) : List (κ × ν) := table.drop (table.length - capacity)

def store (capacity : ℕ) (keys : List κ) (value : ν) (table : List (κ × ν)) : List (κ × ν) :=
  trim capacity (keys.foldl (fun table key => put table key value) table)

theorem lookup_put : (put table key value).lookup k = if k = key then some value else table.lookup k := by
  unfold put
  rw [List.lookup_append, lookup_filter_ne]
  by_cases hk : k = key
  · simp [hk]
  · have hrow : [(key, value)].lookup k = none := by
      rw [List.lookup_cons, beq_eq_false_iff_ne.mpr hk]
      rfl
    rw [if_neg hk, if_neg hk, hrow, Option.or_none]

theorem lookup_foldl_put : (keys.foldl (fun table key => put table key value) table).lookup k =
    if k ∈ keys then some value else table.lookup k := by
  induction keys generalizing table with
  | nil => rfl
  | cons key keys ih =>
    rw [List.foldl_cons, ih, lookup_put]
    by_cases hmem : k ∈ keys
    · rw [if_pos hmem, if_pos (List.mem_cons_of_mem _ hmem)]
    · by_cases hk : k = key
      · simp [hk]
      · simp [hmem, hk]

/-- The table has one row a key, and only keys that were seen. -/
structure Holds (seen : List κ) (table : List (κ × ν)) : Prop where
  nodup : (table.map Prod.fst).Nodup
  subset : ∀ k ∈ table.map Prod.fst, k ∈ seen

omit [DecidableEq κ] in
theorem Holds.nil (seen : List κ) : Holds seen ([] : List (κ × ν)) :=
  ⟨List.nodup_nil, fun _ h => absurd h List.not_mem_nil⟩

theorem Holds.length_le (h : Holds seen table) : table.length ≤ seen.dedup.length := by
  have hsubset : table.map Prod.fst ⊆ seen.dedup := fun k hk => List.mem_dedup.mpr (h.subset k hk)
  have hlength := (List.subperm_of_subset h.nodup hsubset).length_le
  rwa [List.length_map] at hlength

theorem Holds.put (h : Holds seen table) (hkey : key ∈ seen) : Holds seen (put table key value) := by
  have hmap : (Recency.put table key value).map Prod.fst =
      (table.map Prod.fst).filter (fun k => k ≠ key) ++ [key] := by
    unfold Recency.put
    rw [List.map_append, List.filter_map]
    rfl
  refine ⟨?_, ?_⟩
  · rw [hmap]
    refine List.Nodup.append (h.nodup.filter _) (List.nodup_singleton key) ?_
    intro k hk hsame
    rw [List.mem_singleton.mp hsame, List.mem_filter] at hk
    exact absurd rfl (of_decide_eq_true hk.2)
  · intro k hk
    rw [hmap] at hk
    obtain hk | hk := List.mem_append.mp hk
    · exact h.subset k (List.mem_filter.mp hk).1
    · rw [List.mem_singleton.mp hk]
      exact hkey

theorem Holds.foldl_put (h : Holds seen table) (hkeys : ∀ key ∈ keys, key ∈ seen) :
    Holds seen (keys.foldl (fun table key => Recency.put table key value) table) := by
  induction keys generalizing table with
  | nil => exact h
  | cons key keys ih =>
    exact ih (h.put (hkeys key List.mem_cons_self)) fun k hk => hkeys k (List.mem_cons_of_mem _ hk)

theorem Holds.store_eq (h : Holds seen table) (hkeys : ∀ key ∈ keys, key ∈ seen)
    (hfit : seen.dedup.length ≤ capacity) :
    store capacity keys value table = keys.foldl (fun table key => Recency.put table key value) table := by
  have hholds : Holds seen (keys.foldl (fun table key => Recency.put table key value) table) := h.foldl_put hkeys
  have hle := hholds.length_le
  unfold store trim
  rw [Nat.sub_eq_zero_of_le (Nat.le_trans hle hfit), List.drop_zero]

theorem Holds.store (h : Holds seen table) (hkeys : ∀ key ∈ keys, key ∈ seen)
    (hfit : seen.dedup.length ≤ capacity) : Holds seen (Recency.store capacity keys value table) := by
  rw [h.store_eq hkeys hfit]
  exact h.foldl_put hkeys

theorem Holds.lookup_store (h : Holds seen table) (hkeys : ∀ key ∈ keys, key ∈ seen)
    (hfit : seen.dedup.length ≤ capacity) :
    (Recency.store capacity keys value table).lookup k = if k ∈ keys then some value else table.lookup k := by
  rw [h.store_eq hkeys hfit]
  exact lookup_foldl_put

end VidbyteSdk.Lib.Recency

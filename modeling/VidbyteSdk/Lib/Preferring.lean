import VidbyteSdk.Lib.Upsert

/-!
# One row for each key

The rows that are left when of the rows under one key the first stands, in its place, until one that is preferred
comes. Where at most one row is preferred, it is left (`countP_onePerKey`).
-/

namespace VidbyteSdk.Lib

variable {α κ : Type} [DecidableEq κ] (key : α → κ) (preferred : α → Bool)

/-- Adds a row, or puts it in the place of the row of its key where only it is preferred. -/
def keepOne (rows : List α) (row : α) : List α :=
  match rows.find? fun kept => key kept = key row with
  | none => rows ++ [row]
  | some kept => if !preferred kept && preferred row then upsert key row rows else rows

def onePerKey (rows : List α) : List α := rows.foldl (keepOne key preferred) []

variable {key preferred} {rows : List α} {row : α}

theorem nodup_keepOne (h : (rows.map key).Nodup) : ((keepOne key preferred rows row).map key).Nodup := by
  unfold keepOne
  split
  · next hnone =>
    have hnew : key row ∉ rows.map key := by
      intro hmem
      obtain ⟨kept, hkept, heq⟩ := List.mem_map.mp hmem
      exact List.find?_eq_none.mp hnone kept hkept (decide_eq_true heq)
    have hupsert := nodup_map_key_upsert (a := row) h
    rwa [upsert_of_notMem hnew] at hupsert
  · split
    · exact nodup_map_key_upsert h
    · exact h

theorem countP_keepOne (h : (rows.map key).Nodup) (hfirst : preferred row = true → rows.countP preferred = 0) :
    (keepOne key preferred rows row).countP preferred
      = rows.countP preferred + if preferred row then 1 else 0 := by
  unfold keepOne
  split
  · rw [List.countP_append, List.countP_singleton]
  · next kept hfind =>
    have hkept := List.mem_of_find?_eq_some hfind
    have hcount := countP_upsert (a := row) preferred h
    rw [hfind, Option.map_some, Option.getD_some] at hcount
    cases hrow : preferred row with
    | false => rw [Bool.and_false, if_neg Bool.false_ne_true, if_neg Bool.false_ne_true, Nat.add_zero]
    | true =>
      have hnot : preferred kept = false :=
        Bool.eq_false_iff.mpr (List.countP_eq_zero.mp (hfirst hrow) kept hkept)
      rw [hnot, hrow, if_neg Bool.false_ne_true, Nat.add_zero] at hcount
      rw [hnot, Bool.not_false, Bool.true_and, if_pos rfl, hcount]

theorem onePerKey_concat (rows : List α) (row : α) :
    onePerKey key preferred (rows ++ [row]) = keepOne key preferred (onePerKey key preferred rows) row :=
  List.foldl_concat ..

theorem nodup_onePerKey (rows : List α) : ((onePerKey key preferred rows).map key).Nodup := by
  induction rows using List.reverseRecOn with
  | nil => exact List.nodup_nil
  | append_singleton rows row ih =>
    rw [onePerKey_concat]
    exact nodup_keepOne ih

theorem countP_onePerKey (h : rows.countP preferred ≤ 1) :
    (onePerKey key preferred rows).countP preferred = rows.countP preferred := by
  induction rows using List.reverseRecOn with
  | nil => rfl
  | append_singleton rows row ih =>
    rw [List.countP_append, List.countP_singleton] at h ⊢
    have hbefore := ih (Nat.le_trans (Nat.le_add_right _ _) h)
    have hfirst : preferred row = true → (onePerKey key preferred rows).countP preferred = 0 := by
      intro hrow
      rw [if_pos hrow] at h
      omega
    rw [onePerKey_concat, countP_keepOne (nodup_onePerKey rows) hfirst, hbefore]

end VidbyteSdk.Lib

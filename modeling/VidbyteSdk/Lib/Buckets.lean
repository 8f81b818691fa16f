import Mathlib.Data.List.Basic
import Mathlib.Order.Defs.LinearOrder
import Mathlib.Data.Int.Notation

/-!
# Items in buckets

A list put into one bucket for each key, in the order of the keys: the items of a key keep their order
(`filter_bucketed`), and no item is lost or doubled (`bucketed_perm`). A flat map over a range goes no further
than its images are not empty (`flatMap_range_of_empty`).
-/

namespace VidbyteSdk.Lib

section Ranges

variable {α : Type} {f : ℕ → List α} {m n : ℕ}

theorem flatMap_range_of_empty (h : m ≤ n) (hempty : ∀ i, m ≤ i → f i = []) :
    (List.range n).flatMap f = (List.range m).flatMap f := by
  obtain ⟨k, rfl⟩ := Nat.exists_eq_add_of_le h
  have hlater : ((List.range k).flatMap fun i => f (m + i)) = [] :=
    List.flatMap_eq_nil_iff.mpr fun i _ => hempty _ (Nat.le_add_right m i)
  rw [List.range_add, List.flatMap_append, List.flatMap_map, hlater, List.append_nil]

end Ranges

section Buckets

variable {α : Type} (key : α → ℤ) (items : List α)

def bucket (k : ℕ) : List α := items.filter fun item => key item = k

/-- The buckets of the keys below `n`, one after the other. -/
def bucketed (n : ℕ) : List α := (List.range n).flatMap (bucket key items)

theorem bucketed_succ (n : ℕ) : bucketed key items (n + 1) = bucketed key items n ++ bucket key items n := by
  rw [bucketed, List.range_succ, List.flatMap_append, List.flatMap_singleton, bucketed]

theorem filter_bucket (j k : ℕ) :
    (bucket key items j).filter (fun item => key item = k) = if j = k then bucket key items k else [] := by
  rw [bucket, List.filter_filter]
  split
  · next h =>
    subst h
    exact List.filter_congr fun item _ => Bool.and_self _
  · next h =>
    refine List.filter_eq_nil_iff.mpr fun item _ => ?_
    rw [Bool.and_eq_true, decide_eq_true_eq, decide_eq_true_eq]
    omega

theorem filter_bucketed (n k : ℕ) :
    (bucketed key items n).filter (fun item => key item = k) = if k < n then bucket key items k else [] := by
  induction n with
  | zero => rfl
  | succ n ih =>
    rw [bucketed_succ, List.filter_append, ih, filter_bucket]
    rcases Nat.lt_trichotomy k n with h | h | h
    · rw [if_pos h, if_neg (by omega), if_pos (by omega), List.append_nil]
    · rw [if_neg (by omega), if_pos h.symm, if_pos (by omega), List.nil_append]
    · rw [if_neg (by omega), if_neg (by omega), if_neg (by omega), List.append_nil]

theorem bucketed_perm_filter (h : ∀ item ∈ items, 0 ≤ key item) (n : ℕ) :
    (bucketed key items n).Perm (items.filter fun item => key item < n) := by
  induction n with
  | zero =>
    have hnone : (items.filter fun item => key item < ((0 : ℕ) : ℤ)) = [] := by
      refine List.filter_eq_nil_iff.mpr fun item hitem => ?_
      have hnonneg := h item hitem
      rw [decide_eq_true_eq]
      omega
    rw [hnone]
    exact List.Perm.refl _
  | succ n ih =>
    have hbelow : (items.filter fun item => key item < ((n + 1 : ℕ) : ℤ)).filter
        (fun item => decide (key item < n)) = items.filter fun item => key item < n := by
      rw [List.filter_filter]
      refine List.filter_congr fun item _ => ?_
      rw [← Bool.decide_and, decide_eq_decide]
      omega
    have hat : (items.filter fun item => key item < ((n + 1 : ℕ) : ℤ)).filter
        (fun item => !decide (key item < n)) = bucket key items n := by
      rw [List.filter_filter, bucket]
      refine List.filter_congr fun item _ => ?_
      rw [← decide_not, ← Bool.decide_and, decide_eq_decide]
      omega
    have hsplit := List.filter_append_perm (fun item => decide (key item < n))
      (items.filter fun item => key item < ((n + 1 : ℕ) : ℤ))
    rw [hbelow, hat] at hsplit
    rw [bucketed_succ]
    exact (ih.append_right _).trans hsplit

theorem bucketed_perm {n : ℕ} (h : ∀ item ∈ items, 0 ≤ key item) (hlt : ∀ item ∈ items, key item < n) :
    (bucketed key items n).Perm items := by
  have hperm := bucketed_perm_filter key items h n
  rwa [List.filter_eq_self.mpr fun item hitem => decide_eq_true (hlt item hitem)] at hperm

end Buckets

end VidbyteSdk.Lib

import Mathlib.Data.List.Nodup
import Mathlib.Data.List.TakeWhile

/-!
# Picking items by their places

The items of a list that a test of the item and its place accepts, in order.
-/

namespace VidbyteSdk.Lib

variable {α β : Type*} {l : List α} {p q : α × ℕ → Bool} {f : α → Bool}

def pick (p : α × ℕ → Bool) (l : List α) : List α := (l.zipIdx.filter p).map Prod.fst

theorem pick_sublist (p : α × ℕ → Bool) (l : List α) : (pick p l).Sublist l := by
  have h := (List.filter_sublist (p := p) (l := l.zipIdx)).map Prod.fst
  rwa [List.zipIdx_map_fst] at h

theorem pick_congr (h : ∀ x i, l[i]? = some x → p (x, i) = q (x, i)) : pick p l = pick q l := by
  unfold pick
  rw [List.filter_congr fun pair hpair => ?_]
  exact h pair.1 pair.2 (List.mem_zipIdx_iff_getElem?.mp hpair)

theorem pick_cons (p : α × ℕ → Bool) (x : α) (l : List α) :
    pick p (x :: l) = (if p (x, 0) then [x] else []) ++ pick (fun pair => p (pair.1, pair.2 + 1)) l := by
  unfold pick
  rw [List.zipIdx_cons', List.filter_cons, List.filter_map]
  split <;> simp only [List.map_cons, List.map_map, List.singleton_append, List.nil_append] <;> rfl

theorem filter_eq_pick (f : α → Bool) (l : List α) : l.filter f = pick (fun pair => f pair.1) l := by
  unfold pick
  conv_lhs => rw [← List.zipIdx_map_fst 0 l, List.filter_map]
  rfl

theorem filter_pick : (pick p l).filter f = pick (fun pair => f pair.1 && p pair) l := by
  unfold pick
  rw [List.filter_map, List.filter_filter]
  rfl

theorem filter_pick_of_forall (h : ∀ x i, l[i]? = some x → f x = true → p (x, i) = true) :
    (pick p l).filter f = l.filter f := by
  rw [filter_pick, filter_eq_pick f]
  refine pick_congr fun x i hx => ?_
  cases hf : f x with
  | true => exact h x i hx hf
  | false => rfl

theorem pick_eq_self (h : ∀ x i, l[i]? = some x → p (x, i) = true) : pick p l = l := by
  have hall : l.zipIdx.filter p = l.zipIdx :=
    List.filter_eq_self.mpr fun pair hpair => h pair.1 pair.2 (List.mem_zipIdx_iff_getElem?.mp hpair)
  unfold pick
  rw [hall, List.zipIdx_map_fst]

theorem zipIdx_map_zipIdx (g : α × ℕ → β) (l : List α) (n : ℕ) :
    ((l.zipIdx n).map g).zipIdx n = (l.zipIdx n).map fun pair => (g pair, pair.2) := by
  induction l generalizing n with
  | nil => rfl
  | cons x l ih => rw [List.zipIdx_cons, List.map_cons, List.zipIdx_cons, ih, List.map_cons]

theorem pick_map {γ : Type*} (g : γ → α) (l : List γ) :
    pick p (l.map g) = (pick (fun pair => p (g pair.1, pair.2)) l).map g := by
  unfold pick
  rw [List.zipIdx_map, List.filter_map, List.map_map, List.map_map]
  rfl

theorem pick_lt (n : ℕ) (l : List α) : pick (fun pair => pair.2 < n) l = l.take n := by
  unfold pick
  induction l generalizing n with
  | nil => simp
  | cons x l ih =>
    rw [List.zipIdx_cons, List.zipIdx_eq_map_add]
    cases n with
    | zero => simp
    | succ n =>
      rw [List.filter_cons_of_pos (by simp), List.map_cons, List.filter_map, List.map_map]
      rw [List.take_succ_cons, ← ih n]
      congr 2
      refine List.filter_congr fun pair _ => ?_
      simp [Nat.add_comm]

theorem pick_before (n : ℕ) (f : α → Bool) (l : List α) :
    pick (fun pair => f pair.1 && decide (pair.2 < n)) l = (l.take n).filter f := by
  rw [← pick_lt, filter_pick]

theorem mem_pick_from {x : α} (n : ℕ) (f : α → Bool) (l : List α) :
    x ∈ pick (fun pair => decide (n ≤ pair.2) || f pair.1) l ↔ x ∈ (l.take n).filter f ∨ x ∈ l.drop n := by
  have hpick : x ∈ pick (fun pair => decide (n ≤ pair.2) || f pair.1) l ↔
      ∃ i, l[i]? = some x ∧ (n ≤ i ∨ f x = true) := by
    unfold pick
    rw [List.mem_map]
    constructor
    · rintro ⟨⟨y, i⟩, hy, rfl⟩
      obtain ⟨hmem, htest⟩ := List.mem_filter.mp hy
      refine ⟨i, List.mem_zipIdx_iff_getElem?.mp hmem, ?_⟩
      simpa using htest
    · rintro ⟨i, hi, htest⟩
      exact ⟨(x, i), List.mem_filter.mpr ⟨List.mem_zipIdx_iff_getElem?.mpr hi, by simpa using htest⟩, rfl⟩
  rw [hpick, List.mem_filter, List.mem_iff_getElem?, List.mem_iff_getElem?]
  constructor
  · rintro ⟨i, hi, htest⟩
    by_cases hle : n ≤ i
    · refine .inr ⟨i - n, ?_⟩
      rw [List.getElem?_drop, Nat.add_sub_cancel' hle, hi]
    · refine .inl ⟨⟨i, ?_⟩, htest.resolve_left hle⟩
      rw [List.getElem?_take_of_lt (Nat.not_le.mp hle), hi]
  · rintro (⟨⟨i, hi⟩, htest⟩ | ⟨i, hi⟩)
    · rw [List.getElem?_take] at hi
      split at hi
      · exact ⟨i, hi, .inr htest⟩
      · cases hi
    · rw [List.getElem?_drop] at hi
      exact ⟨n + i, hi, .inl (Nat.le_add_right _ _)⟩

theorem filter_not_picked {place : α → β} [DecidableEq β] (hplace : (l.map place).Nodup) (q : α × ℕ → Bool) :
    l.filter (fun x => place x ∉ (pick q l).map place) = pick (fun pair => !q pair) l := by
  rw [filter_eq_pick]
  refine pick_congr fun x i hx => ?_
  have hpicked : place x ∈ (pick q l).map place ↔ q (x, i) = true := by
    unfold pick
    rw [List.map_map, List.mem_map]
    constructor
    · rintro ⟨⟨y, j⟩, hy, hsame⟩
      obtain ⟨hmem, hq⟩ := List.mem_filter.mp hy
      have hj : l[j]? = some y := List.mem_zipIdx_iff_getElem?.mp hmem
      have hi : (l.map place)[i]? = (l.map place)[j]? := by
        rw [List.getElem?_map, List.getElem?_map, hx, hj]
        exact congrArg some hsame.symm
      have hlt : i < (l.map place).length := by
        rw [List.length_map]
        exact (List.getElem?_eq_some_iff.mp hx).1
      obtain rfl := (List.getElem?_inj hlt hplace).mp hi
      rw [hx] at hj
      obtain rfl := Option.some.inj hj
      exact hq
    · intro hq
      exact ⟨(x, i), List.mem_filter.mpr ⟨List.mem_zipIdx_iff_getElem?.mpr hx, hq⟩, rfl⟩
  cases hqx : q (x, i) with
  | true => simp [hpicked, hqx]
  | false => simp [hpicked, hqx]

theorem pairwise_zipIdx (items : List α) (n : ℕ) :
    (items.zipIdx n).Pairwise fun a b => a.2 < b.2 := by
  induction items generalizing n with
  | nil => exact List.Pairwise.nil
  | cons item items ih =>
    rw [List.zipIdx_cons]
    refine List.pairwise_cons.mpr ⟨fun entry hentry => ?_, ih (n + 1)⟩
    exact List.le_snd_of_mem_zipIdx hentry

end VidbyteSdk.Lib

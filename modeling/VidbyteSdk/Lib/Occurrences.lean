import Mathlib.Data.List.Infix

/-!
# Occurrences of a list in a list

How many positions of a list another one starts at, overlaps included, and the replacement of the first of
them. A list that occurs once cuts the other in one way only (`split_unique`).
-/

namespace VidbyteSdk.Lib

variable {α : Type*} [BEq α]

/-- The positions that `search` starts at. -/
def occurrences (search : List α) : List α → Nat
  | [] => 0
  | c :: rest => (if search.isPrefixOf (c :: rest) then 1 else 0) + occurrences search rest

/-- The list with the first occurrence of `old` replaced. -/
def substituteFirst (old new : List α) : List α → List α
  | [] => []
  | c :: rest =>
    if old.isPrefixOf (c :: rest) then new ++ (c :: rest).drop old.length
    else c :: substituteFirst old new rest

variable [LawfulBEq α] {search : List α}

theorem occurrences_append_of_notMem {c : α} {p : List α} (h : c ∉ p) (l : List α) :
    occurrences (c :: search) (p ++ l) = occurrences (c :: search) l := by
  induction p with
  | nil => rfl
  | cons d p ih =>
    rw [List.mem_cons, not_or] at h
    show (if (c :: search).isPrefixOf (d :: (p ++ l)) then 1 else 0)
      + occurrences (c :: search) (p ++ l) = _
    rw [ih h.2, List.isPrefixOf_cons_cons, beq_false_of_ne h.1, Bool.false_and, if_neg Bool.false_ne_true,
      Nat.zero_add]

theorem substituteFirst_append_of_notMem {c : α} {p : List α} (h : c ∉ p) (new l : List α) :
    substituteFirst (c :: search) new (p ++ l) = p ++ substituteFirst (c :: search) new l := by
  induction p with
  | nil => rfl
  | cons d p ih =>
    rw [List.mem_cons, not_or] at h
    show (if (c :: search).isPrefixOf (d :: (p ++ l)) then new ++ (d :: (p ++ l)).drop (c :: search).length
      else d :: substituteFirst (c :: search) new (p ++ l)) = _
    rw [ih h.2, List.isPrefixOf_cons_cons, beq_false_of_ne h.1, Bool.false_and, if_neg Bool.false_ne_true,
      List.cons_append]

theorem substituteFirst_append (hsearch : search ≠ []) (new q : List α) :
    substituteFirst search new (search ++ q) = new ++ q := by
  obtain ⟨c, search, rfl⟩ := List.exists_cons_of_ne_nil hsearch
  have hstarts : (c :: search).isPrefixOf (c :: (search ++ q)) = true :=
    List.isPrefixOf_iff_prefix.mpr (List.prefix_append (c :: search) q)
  have hrest : (c :: (search ++ q)).drop (c :: search).length = q := List.drop_left
  rw [List.cons_append, substituteFirst, if_pos hstarts, hrest]

theorem occurrences_append_pos (hsearch : search ≠ []) (p q : List α) :
    0 < occurrences search (p ++ search ++ q) := by
  induction p with
  | nil =>
    cases search with
    | nil => exact absurd rfl hsearch
    | cons c search =>
      have hprefix : (c :: search).isPrefixOf (c :: (search ++ q)) = true :=
        List.isPrefixOf_iff_prefix.mpr (List.prefix_append (c :: search) q)
      show 0 < occurrences (c :: search) (c :: (search ++ q))
      rw [occurrences, if_pos hprefix]
      omega
  | cons c p ih =>
    show 0 < occurrences search (c :: (p ++ search ++ q))
    rw [occurrences]
    omega

theorem exists_split_of_occurrences_pos {l : List α} (h : 0 < occurrences search l) (new : List α) :
    ∃ p q, l = p ++ search ++ q ∧ substituteFirst search new l = p ++ new ++ q := by
  induction l with
  | nil => exact absurd h (Nat.lt_irrefl 0)
  | cons c rest ih =>
    rw [occurrences] at h
    unfold substituteFirst
    by_cases hprefix : search.isPrefixOf (c :: rest) = true
    · obtain ⟨q, hq⟩ := List.isPrefixOf_iff_prefix.mp hprefix
      refine ⟨[], q, hq.symm, ?_⟩
      rw [if_pos hprefix, ← hq, List.drop_left, List.nil_append]
    · rw [if_neg hprefix, Nat.zero_add] at h
      obtain ⟨p, q, hsplit, hreplaced⟩ := ih h
      refine ⟨c :: p, q, ?_, ?_⟩
      · rw [hsplit]
        rfl
      · rw [if_neg hprefix, hreplaced]
        rfl

theorem split_unique (hsearch : search ≠ []) {p p' q q' : List α}
    (hsame : p ++ search ++ q = p' ++ search ++ q')
    (hone : occurrences search (p ++ search ++ q) ≤ 1) : p = p' ∧ q = q' := by
  induction p generalizing p' with
  | nil =>
    cases p' with
    | nil =>
      exact ⟨rfl, List.append_cancel_left hsame⟩
    | cons c p' =>
      have hprefix : search.isPrefixOf (c :: (p' ++ search ++ q')) = true := by
        rw [List.isPrefixOf_iff_prefix]
        exact ⟨q, hsame⟩
      have hlater := occurrences_append_pos hsearch p' q'
      rw [hsame] at hone
      change occurrences search (c :: (p' ++ search ++ q')) ≤ 1 at hone
      rw [occurrences, if_pos hprefix] at hone
      omega
  | cons c p ih =>
    have hlater := occurrences_append_pos hsearch p q
    change occurrences search (c :: (p ++ search ++ q)) ≤ 1 at hone
    cases p' with
    | nil =>
      have hprefix : search.isPrefixOf (c :: (p ++ search ++ q)) = true := by
        rw [List.isPrefixOf_iff_prefix]
        exact ⟨q', hsame.symm⟩
      rw [occurrences, if_pos hprefix] at hone
      omega
    | cons c' p' =>
      obtain ⟨hc, hrest⟩ := List.cons.inj hsame
      rw [occurrences] at hone
      obtain ⟨hp, hq⟩ := ih hrest (by omega)
      exact ⟨by rw [hc, hp], hq⟩

end VidbyteSdk.Lib

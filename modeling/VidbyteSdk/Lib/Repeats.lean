import Mathlib.Data.List.Perm.Basic

/-!
# Limited repeats

A scan that keeps of each item so many copies, the first ones, and a list that is found again among the images of its
items.
-/

namespace VidbyteSdk.Lib

variable {α : Type} [DecidableEq α]

/-- The items that come up at most `limit` times up to where they stand; `counts` are those of the items before. -/
def limitRepeats (limit : ℕ) : (α → ℕ) → List α → List α
  | _, [] => []
  | counts, item :: items =>
    let counts := Function.update counts item (counts item + 1)
    if counts item ≤ limit then item :: limitRepeats limit counts items else limitRepeats limit counts items

variable {limit : ℕ} {counts : α → ℕ} {item : α}

theorem limitRepeats_sublist (limit : ℕ) (counts : α → ℕ) (items : List α) :
    (limitRepeats limit counts items).Sublist items := by
  induction items generalizing counts with
  | nil => exact List.nil_sublist []
  | cons item items ih =>
    rw [limitRepeats]
    split
    · exact (ih _).cons_cons item
    · exact (ih _).cons item

section

variable [BEq α] [LawfulBEq α]

theorem count_limitRepeats (limit : ℕ) (counts : α → ℕ) (items : List α) (item : α) :
    (limitRepeats limit counts items).count item = min (items.count item) (limit - counts item) := by
  induction items generalizing counts with
  | nil => simp [limitRepeats]
  | cons first items ih =>
    simp only [limitRepeats, Function.update_self]
    by_cases hitem : first = item
    · subst hitem
      have hlater := ih (Function.update counts first (counts first + 1))
      rw [Function.update_self] at hlater
      split
      · rw [List.count_cons_self, List.count_cons_self, hlater]
        omega
      · rw [List.count_cons_self, hlater]
        omega
    · have hlater := ih (Function.update counts first (counts first + 1))
      rw [Function.update_of_ne (Ne.symm hitem)] at hlater
      rw [List.count_cons_of_ne hitem, ← hlater]
      split
      · exact List.count_cons_of_ne hitem
      · rfl

theorem limitRepeats_eq_self {items : List α} (h : ∀ item, items.count item ≤ limit - counts item) :
    limitRepeats limit counts items = items := by
  refine (limitRepeats_sublist limit counts items).eq_of_length (List.perm_iff_count.mpr fun item => ?_).length_eq
  rw [count_limitRepeats, Nat.min_eq_left (h item)]

theorem mem_limitRepeats {items : List α} (h : counts item < limit) :
    item ∈ limitRepeats limit counts items ↔ item ∈ items := by
  rw [← List.count_pos_iff, ← List.count_pos_iff, count_limitRepeats]
  omega

end

theorem limitRepeats_zero (counts : α → ℕ) (items : List α) : limitRepeats 0 counts items = [] := by
  refine List.eq_nil_iff_forall_not_mem.mpr fun item hitem => ?_
  have := List.count_pos_iff.mpr hitem
  rw [count_limitRepeats] at this
  omega

omit [DecidableEq α]

/-! ### A list among the images of its items -/

variable {image : α → List α} {items : List α}

theorem sublist_of_notMem {first : α} {skipped rest : List α} (h : (first :: items).Sublist (skipped ++ rest))
    (hfirst : first ∉ skipped) : (first :: items).Sublist rest := by
  induction skipped with
  | nil => exact h
  | cons other skipped ih =>
    rw [List.mem_cons, not_or] at hfirst
    exact ih ((List.sublist_cons_iff.mp h).resolve_right fun ⟨_, heq, _⟩ => hfirst.1 (List.cons.inj heq).1) hfirst.2

theorem not_sublist_flatMap (h : ∀ item ∈ items, item ∈ image item → image item = [item]) (first : α) :
    ¬(first :: items).Sublist (items.flatMap image) := by
  induction items generalizing first with
  | nil => exact fun hsublist => nomatch hsublist
  | cons item items ih =>
    intro hsublist
    obtain ⟨hitem, hitems⟩ := List.forall_mem_cons.mp h
    rw [List.flatMap_cons] at hsublist
    refine ih hitems item ?_
    by_cases hmem : item ∈ image item
    · rw [hitem hmem] at hsublist
      exact hsublist.tail
    · exact sublist_of_notMem ((List.sublist_cons_self first _).trans hsublist) hmem

theorem forall_image_eq (h : ∀ item ∈ items, item ∈ image item → image item = [item])
    (hsublist : items.Sublist (items.flatMap image)) : ∀ item ∈ items, image item = [item] := by
  induction items with
  | nil => exact List.forall_mem_nil _
  | cons item items ih =>
    obtain ⟨hitem, hitems⟩ := List.forall_mem_cons.mp h
    rw [List.flatMap_cons] at hsublist
    by_cases hmem : item ∈ image item
    · rw [hitem hmem] at hsublist
      exact List.forall_mem_cons.mpr ⟨hitem hmem, ih hitems hsublist.tail⟩
    · exact absurd (sublist_of_notMem hsublist hmem) (not_sublist_flatMap hitems item)

end VidbyteSdk.Lib

import Mathlib.Algebra.GroupWithZero.Nat
import Mathlib.Data.Int.Order.Basic
import Mathlib.Order.MinMax
import Mathlib.Algebra.Order.BigOperators.Group.List
import Mathlib.Algebra.Order.Group.Nat

/-!
# Selections under a budget

From the end of a list, each item is kept that what is left of a budget pays for, and an exempt item is kept anyway. The
exempt items are charged first. What is selected costs no more than the budget and the exempt items alone, and it is
selected again as it is.
-/

namespace VidbyteSdk.Lib

section

variable {α : Type} (exempt : α → Bool) (cost : α → ℕ)

/-- The first items first: what still fits is kept, and what is exempt is kept anyway. -/
def fitting : ℤ → List α → List α
  | _, [] => []
  | remaining, item :: items =>
    if exempt item then item :: fitting remaining items
    else if cost item ≤ remaining then item :: fitting (remaining - cost item) items
    else fitting remaining items

attribute [local grind =] fitting

def totalCost (items : List α) : ℕ := (items.map cost).sum

@[simp]
theorem totalCost_nil : totalCost cost [] = 0 := rfl

@[simp]
theorem totalCost_cons (item : α) (items : List α) :
    totalCost cost (item :: items) = cost item + totalCost cost items := rfl

theorem totalCost_append (xs ys : List α) : totalCost cost (xs ++ ys) = totalCost cost xs + totalCost cost ys := by
  rw [totalCost, totalCost, totalCost, List.map_append, List.sum_append]

theorem totalCost_reverse (items : List α) : totalCost cost items.reverse = totalCost cost items := by
  rw [totalCost, totalCost, List.map_reverse, List.sum_reverse]

theorem totalCost_perm {xs ys : List α} (h : xs.Perm ys) : totalCost cost xs = totalCost cost ys :=
  (h.map cost).sum_eq

theorem totalCost_filter_add (items : List α) :
    totalCost cost (items.filter exempt) + totalCost cost (items.filter fun item => !exempt item) =
      totalCost cost items := by
  induction items with
  | nil => rfl
  | cons item items ih =>
    cases h : exempt item with
    | true =>
      simp only [List.filter_cons, h, if_true, Bool.not_true, Bool.false_eq_true, if_false, totalCost_cons]
      omega
    | false =>
      simp only [List.filter_cons, h, if_true, Bool.not_false, Bool.false_eq_true, if_false, totalCost_cons]
      omega

theorem fitting_sublist (remaining : ℤ) (items : List α) : (fitting exempt cost remaining items).Sublist items := by
  induction items generalizing remaining with
  | nil => exact List.Sublist.slnil
  | cons item items ih =>
    rw [fitting]
    split
    · exact (ih _).cons_cons item
    · split
      · exact (ih _).cons_cons item
      · exact (ih _).cons item

theorem filter_fitting (remaining : ℤ) (items : List α) :
    (fitting exempt cost remaining items).filter exempt = items.filter exempt := by
  induction items generalizing remaining with
  | nil => rfl
  | cons item items ih =>
    rw [fitting]
    split
    case isTrue h => rw [List.filter_cons_of_pos h, List.filter_cons_of_pos h, ih]
    case isFalse h =>
      rw [List.filter_cons_of_neg h]
      split
      · rw [List.filter_cons_of_neg h, ih]
      · exact ih _

theorem totalCost_fitting_le {remaining : ℤ} (h : 0 ≤ remaining) (items : List α) :
    (totalCost cost ((fitting exempt cost remaining items).filter fun item => !exempt item) : ℤ) ≤ remaining := by
  induction items generalizing remaining with
  | nil => exact h
  | cons item items ih =>
    rw [fitting]
    split
    case isTrue hexempt =>
      rw [List.filter_cons_of_neg (by simp [hexempt])]
      exact ih h
    case isFalse hexempt =>
      split
      case isTrue hfits =>
        rw [List.filter_cons_of_pos (by simp [hexempt]), totalCost_cons]
        have := ih (Int.sub_nonneg.mpr hfits)
        push_cast
        omega
      case isFalse => exact ih h

variable {items : List α}

theorem fitting_eq_self {remaining : ℤ}
    (h : (totalCost cost (items.filter fun item => !exempt item) : ℤ) ≤ remaining) :
    fitting exempt cost remaining items = items := by
  induction items generalizing remaining with
  | nil => rfl
  | cons item items ih =>
    rw [fitting]
    split
    case isTrue hexempt =>
      rw [List.filter_cons_of_neg (by simp [hexempt])] at h
      rw [ih h]
    case isFalse hexempt =>
      rw [List.filter_cons_of_pos (by simp [hexempt]), totalCost_cons] at h
      push_cast at h
      rw [if_pos (by omega), ih (by omega)]

/-- The items that fit from the end, once the exempt ones are charged; only these where they are too much. -/
def trimToBudget (budget : ℕ) (items : List α) : List α :=
  let remaining : ℤ := budget - totalCost cost (items.filter exempt)
  if remaining < 0 then items.filter exempt else (fitting exempt cost remaining items.reverse).reverse

theorem trimToBudget_sublist (budget : ℕ) (items : List α) : (trimToBudget exempt cost budget items).Sublist items := by
  rw [trimToBudget]
  split
  · exact List.filter_sublist
  · exact List.reverse_sublist.mp (by rw [List.reverse_reverse]; exact fitting_sublist exempt cost _ _)

theorem filter_trimToBudget (budget : ℕ) (items : List α) :
    (trimToBudget exempt cost budget items).filter exempt = items.filter exempt := by
  rw [trimToBudget]
  split
  · rw [List.filter_filter]
    simp only [Bool.and_self]
  · rw [List.filter_reverse, filter_fitting, ← List.filter_reverse, List.reverse_reverse]

def Affordable (budget : ℕ) (items : List α) : Prop :=
  totalCost cost items ≤ budget ∨ ∀ item ∈ items, exempt item = true

theorem affordable_trimToBudget (budget : ℕ) (items : List α) :
    Affordable exempt cost budget (trimToBudget exempt cost budget items) := by
  have hkept := filter_trimToBudget exempt cost budget items
  rw [trimToBudget] at hkept ⊢
  split
  case isTrue => exact Or.inr fun item hitem => (List.mem_filter.mp hitem).2
  case isFalse h =>
    left
    have hfits := totalCost_fitting_le exempt cost (not_lt.mp h) items.reverse
    rw [if_neg h, List.filter_reverse] at hkept
    rw [totalCost_reverse, ← totalCost_filter_add exempt, ← totalCost_reverse, hkept]
    omega

theorem trimToBudget_eq_self {budget : ℕ} (h : Affordable exempt cost budget items) :
    trimToBudget exempt cost budget items = items := by
  rw [trimToBudget]
  have hsplit := totalCost_filter_add exempt cost items
  split
  case isTrue hlt =>
    rcases h with h | h
    · omega
    · exact List.filter_eq_self.mpr h
  case isFalse hle =>
    rw [fitting_eq_self, List.reverse_reverse]
    rw [List.filter_reverse, totalCost_reverse]
    rcases h with h | h
    · omega
    · rw [List.filter_eq_nil_iff.mpr (by simpa using h)]
      simpa using hle

theorem Affordable.totalCost_le {budget : ℕ} (h : Affordable exempt cost budget items) :
    totalCost cost items ≤ max budget (totalCost cost (items.filter exempt)) := by
  rcases h with h | h
  · exact le_max_of_le_left h
  · rw [List.filter_eq_self.mpr h]
    exact le_max_right _ _

end

end VidbyteSdk.Lib

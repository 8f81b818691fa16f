import Mathlib.Algebra.Order.BigOperators.Group.List
import Mathlib.Data.List.ReduceOption

/-!
# Sums with unknown entries

A ledger sums the amounts it knows and skips the ones it does not. `sumOrNone` is the loop that also
remembers whether it saw any amount at all; `knownSum` is the plain sum of the known amounts. The two
agree, and both are lower bounds that only grow when the ledger does.
-/

namespace VidbyteSdk.Lib

variable {α : Type*}

section Sum

variable [AddMonoid α]

/-- Sums numeric values; `none` when every value is `none`. -/
def sumOrNone (values : List (Option α)) : Option α :=
  let acc := values.foldl (fun (acc : α × Bool) value =>
    match value with
    | none => acc
    | some v => (acc.1 + v, true)) (0, false)
  if acc.2 then some acc.1 else none

def knownSum (values : List (Option α)) : α :=
  values.reduceOption.sum

@[simp] theorem knownSum_nil : knownSum ([] : List (Option α)) = 0 := rfl

@[simp] theorem knownSum_none (values : List (Option α)) :
    knownSum (none :: values) = knownSum values := rfl

@[simp] theorem knownSum_some (a : α) (values : List (Option α)) :
    knownSum (some a :: values) = a + knownSum values := by
  simp [knownSum]

@[simp] theorem knownSum_append (xs ys : List (Option α)) :
    knownSum (xs ++ ys) = knownSum xs + knownSum ys := by
  simp [knownSum, List.reduceOption_append]

theorem foldl_sumOrNone (values : List (Option α)) (total : α) (seen : Bool) :
    values.foldl (fun (acc : α × Bool) value =>
      match value with
      | none => acc
      | some v => (acc.1 + v, true)) (total, seen)
      = (total + knownSum values, seen || values.any Option.isSome) := by
  induction values generalizing total seen with
  | nil => simp
  | cons value values ih =>
    cases value with
    | none => simpa using ih total seen
    | some v => simp [ih, add_assoc]

theorem sumOrNone_eq (values : List (Option α)) :
    sumOrNone values = if values.any Option.isSome then some (knownSum values) else none := by
  simp [sumOrNone, foldl_sumOrNone]

theorem sumOrNone_getD (values : List (Option α)) : (sumOrNone values).getD 0 = knownSum values := by
  rw [sumOrNone_eq]
  split
  · rfl
  · next h =>
    have : values.reduceOption = [] := by
      simpa [List.reduceOption_eq_nil_iff, List.eq_replicate_iff] using h
    simp [knownSum, this]

end Sum

theorem sumOrNone_perm [AddCommMonoid α] {xs ys : List (Option α)} (h : xs.Perm ys) :
    sumOrNone xs = sumOrNone ys := by
  have hsum : knownSum xs = knownSum ys := List.Perm.sum_eq (h.filterMap id)
  rw [sumOrNone_eq, sumOrNone_eq, h.any_eq, hsum]

/-- A known total reaches a positive bound exactly when `sumOrNone` does. -/
theorem exists_sumOrNone_ge [AddMonoid α] [PartialOrder α] {bound : α} (hb : 0 < bound)
    (values : List (Option α)) :
    (∃ total, sumOrNone values = some total ∧ bound ≤ total) ↔ bound ≤ knownSum values := by
  constructor
  · rintro ⟨total, h, hle⟩
    rwa [← sumOrNone_getD, h]
  · intro hle
    cases h : sumOrNone values with
    | some total =>
      refine ⟨total, rfl, ?_⟩
      rwa [← sumOrNone_getD, h] at hle
    | none =>
      rw [← sumOrNone_getD, h] at hle
      exact absurd hle (not_le_of_gt hb)

end VidbyteSdk.Lib

import Mathlib.Algebra.BigOperators.Group.List.Basic
import Mathlib.Data.List.Chain
import Mathlib.Tactic.Abel

/-!
# Totals that grow by increments

A list whose items carry a running total and the increment that led to it. Where every total is the one before it and
the item's own increment, the increments add up to what the totals at the two ends differ by.
-/

namespace VidbyteSdk.Lib

variable {α M : Type*} [AddCommGroup M] (total increment : α → M)

def Accumulates (items : List α) : Prop :=
  items.IsChain fun a b => total b = total a + increment b

/-- What the totals have grown by, from before the first item. -/
def growth (items : List α) : M :=
  match items.head?, items.getLast? with
  | some first, some last => total last - (total first - increment first)
  | _, _ => 0

variable {total increment}

theorem growth_cons_cons (a b : α) (items : List α) (h : total b = total a + increment b) :
    growth total increment (a :: b :: items) = increment a + growth total increment (b :: items) := by
  have hlast : (a :: b :: items).getLast? = some ((b :: items).getLast (List.cons_ne_nil _ _)) := by
    rw [List.getLast?_cons_cons, List.getLast?_eq_some_getLast (List.cons_ne_nil _ _)]
  simp only [growth, List.head?_cons, hlast, List.getLast?_eq_some_getLast (List.cons_ne_nil b items), h]
  abel

theorem sum_map_increment {items : List α} (h : Accumulates total increment items) :
    (items.map increment).sum = growth total increment items := by
  induction items with
  | nil => rfl
  | cons a items ih =>
    cases items with
    | nil =>
      rw [List.map_singleton, List.sum_singleton]
      exact (sub_sub_cancel _ _).symm
    | cons b items =>
      obtain ⟨hstep, hrest⟩ := List.isChain_cons_cons.mp h
      rw [growth_cons_cons a b items hstep, List.map_cons, List.sum_cons, ih hrest]

theorem Accumulates.of_part {items part : List α} (h : Accumulates total increment items) (hpart : part <:+: items) :
    Accumulates total increment part :=
  List.IsChain.infix h hpart

end VidbyteSdk.Lib

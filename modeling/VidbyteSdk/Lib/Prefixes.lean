import Mathlib.Data.List.Basic

/-!
# What each item of a list may follow

A list in which every item stands in a relation to the items before it, such as a log that only
admits a record after certain others.
-/

namespace VidbyteSdk.Lib

variable {α : Type*} {P : List α → α → Prop} {l : List α} {a : α}

/-- `P` holds of every item and the items before it. -/
def EachAfter (P : List α → α → Prop) (l : List α) : Prop :=
  ∀ earlier a later, l = earlier ++ a :: later → P earlier a

theorem eachAfter_nil : EachAfter P [] := by
  intro earlier a later h
  simp at h

theorem eachAfter_concat : EachAfter P (l ++ [a]) ↔ EachAfter P l ∧ P l a := by
  constructor
  · intro h
    refine ⟨fun earlier b later hl => h earlier b (later ++ [a]) ?_, h l a [] rfl⟩
    rw [hl, List.append_assoc, List.cons_append]
  · rintro ⟨h, ha⟩ earlier b later hl
    rcases List.eq_nil_or_concat later with rfl | ⟨later, c, rfl⟩
    · obtain ⟨rfl, hb⟩ := List.append_inj' hl rfl
      obtain rfl := List.singleton_inj.mp hb
      exact ha
    · rw [List.concat_eq_append, ← List.cons_append, ← List.append_assoc] at hl
      exact h earlier b later (List.append_inj' hl rfl).1

theorem EachAfter.part {k : List α} (h : EachAfter P l) (hk : k <+: l) :
    EachAfter P k := by
  obtain ⟨rest, rfl⟩ := hk
  intro earlier a later hl
  apply h earlier a (later ++ rest)
  rw [hl, List.append_assoc, List.cons_append]

end VidbyteSdk.Lib

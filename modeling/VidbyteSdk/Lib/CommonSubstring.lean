import Mathlib.Order.Lattice.Nat

/-!
# Longest common substrings by bisection

`bisect` looks for the greatest number a test accepts, by halving. It is right for tests that accept every smaller
positive number with a number. That some substring of a length is common to two texts is such a test, so bisection
over the length finds `lcsLength`.
-/

namespace VidbyteSdk.Lib

/-- The greatest accepted number between `low` and `high`, or `best` where there is none. Zero is not asked for. -/
def bisect (accepts : ℕ → Bool) (low high best : ℕ) : ℕ :=
  if low ≤ high then
    let mid := (low + high) / 2
    if mid = 0 then bisect accepts (mid + 1) high best
    else if accepts mid then bisect accepts (mid + 1) high mid
    else bisect accepts low (mid - 1) best
  else best
termination_by high + 1 - low

/-- With a number, every smaller positive one is accepted. -/
def DownClosed (accepts : ℕ → Bool) : Prop := ∀ k m, 0 < k → k ≤ m → accepts m = true → accepts k = true

/-- What the loop knows between two passes: `best` is the last accepted number below `low`, and above `high`
nothing is accepted. -/
structure Bisecting (accepts : ℕ → Bool) (n low high best : ℕ) : Prop where
  low_eq : low = best + 1 ∨ low = 0 ∧ best = 0
  best_accepted : best = 0 ∨ accepts best = true
  best_le : best ≤ n
  high_le : high ≤ n
  above : ∀ k, high < k → k ≤ n → accepts k = false

theorem bisect_spec {accepts : ℕ → Bool} {n : ℕ} (hdown : DownClosed accepts) (low high best : ℕ)
    (h : Bisecting accepts n low high best) :
    IsGreatest {k | k ≤ n ∧ (k = 0 ∨ accepts k = true)} (bisect accepts low high best) := by
  induction low, high, best using bisect.induct accepts with
  | case1 low high best hle mid hmid ih =>
    rw [bisect, if_pos hle]
    simp only [show (low + high) / 2 = 0 from hmid, if_true]
    rw [show mid = 0 from hmid] at ih
    refine ih ⟨Or.inl ?_, h.best_accepted, h.best_le, h.high_le, h.above⟩
    rcases h.low_eq with hlow | ⟨-, hbest⟩
    · have : low ≤ mid := by omega
      omega
    · rw [hbest]
  | case2 low high best hle mid hmid hacc ih =>
    rw [bisect, if_pos hle]
    simp only [if_neg (show ¬(low + high) / 2 = 0 from hmid), if_pos (show accepts ((low + high) / 2) = true from hacc)]
    refine ih ⟨Or.inl rfl, Or.inr hacc, ?_, h.high_le, h.above⟩
    have := h.high_le
    omega
  | case3 low high best hle mid hmid hrej ih =>
    rw [bisect, if_pos hle]
    simp only [if_neg (show ¬(low + high) / 2 = 0 from hmid),
      if_neg (show ¬accepts ((low + high) / 2) = true from hrej)]
    refine ih ⟨h.low_eq, h.best_accepted, h.best_le, ?_, fun k hk hkn => ?_⟩
    · have := h.high_le
      omega
    · -- a larger accepted number would bring the middle with it
      by_contra hk'
      exact hrej (hdown mid k (by omega) (by omega) (by simpa using hk'))
  | case4 low high best hlt =>
    rw [bisect, if_neg hlt]
    refine ⟨⟨h.best_le, h.best_accepted⟩, fun k hk => ?_⟩
    by_contra hlarger
    have hrejected := h.above k (by have := h.low_eq; omega) hk.1
    rcases hk.2 with rfl | hacc
    · omega
    · rw [hrejected] at hacc
      cases hacc

theorem bisect_isGreatest {accepts : ℕ → Bool} (hdown : DownClosed accepts) (n : ℕ) :
    IsGreatest {k | k ≤ n ∧ (k = 0 ∨ accepts k = true)} (bisect accepts 0 n 0) :=
  bisect_spec hdown 0 n 0 ⟨Or.inr ⟨rfl, rfl⟩, Or.inl rfl, Nat.zero_le n, Nat.le_refl n, fun k hk hkn => by omega⟩

/-! ### Common substrings -/

section

variable {α : Type*} {s t : List α}

def commonLengths (s t : List α) : Set ℕ := {k | ∃ u : List α, u.length = k ∧ u <:+: s ∧ u <:+: t}

noncomputable def lcsLength (s t : List α) : ℕ := sSup (commonLengths s t)

theorem zero_mem_commonLengths (s t : List α) : 0 ∈ commonLengths s t :=
  ⟨[], rfl, List.nil_infix, List.nil_infix⟩

theorem le_length_of_mem_commonLengths {k : ℕ} (h : k ∈ commonLengths s t) : k ≤ s.length := by
  obtain ⟨u, rfl, hs, -⟩ := h
  exact hs.length_le

theorem isGreatest_lcsLength (s t : List α) : IsGreatest (commonLengths s t) (lcsLength s t) := by
  have hbdd : BddAbove (commonLengths s t) := ⟨s.length, fun _ h => le_length_of_mem_commonLengths h⟩
  exact ⟨Nat.sSup_mem ⟨0, zero_mem_commonLengths s t⟩ hbdd, fun _ h => le_csSup hbdd h⟩

theorem lcsLength_le (s t : List α) : lcsLength s t ≤ s.length :=
  le_length_of_mem_commonLengths (isGreatest_lcsLength s t).1

theorem mem_commonLengths_of_le {k m : ℕ} (hk : k ≤ m) (h : m ∈ commonLengths s t) : k ∈ commonLengths s t := by
  obtain ⟨u, rfl, hs, ht⟩ := h
  have hpart : u.take k <:+: u := (List.take_prefix k u).isInfix
  exact ⟨u.take k, List.length_take_of_le hk, hpart.trans hs, hpart.trans ht⟩

theorem infix_iff_slice {u s : List α} :
    u <:+: s ↔ ∃ start < s.length + 1 - u.length, (s.drop start).take u.length = u := by
  constructor
  · rintro ⟨front, back, rfl⟩
    refine ⟨front.length, ?_, ?_⟩
    · simp only [List.length_append]
      omega
    · rw [List.append_assoc, List.drop_left, List.take_left]
  · rintro ⟨start, -, heq⟩
    rw [← heq]
    exact (List.take_prefix _ _).isInfix.trans (List.drop_suffix _ _).isInfix

end

end VidbyteSdk.Lib

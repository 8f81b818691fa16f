import Mathlib.MeasureTheory.Measure.Lebesgue.Basic
import Mathlib.Order.CompletePartialOrder
import VidbyteSdk.Lib.Sweep

/-!
# The length that intervals cover

Merging intervals in the order of their starts: an interval that starts behind the merged one closes
it, any other one extends it. The lengths of the merged intervals add up to the measure of the union.
-/

namespace VidbyteSdk.Lib

open MeasureTheory

def Span.points (i : Span ℚ) : Set ℝ := Set.Icc i.start i.stop

def cover (intervals : List (Span ℚ)) : Set ℝ := ⋃ i ∈ intervals, i.points

@[simp] theorem cover_nil : cover [] = ∅ := by simp [cover]

@[simp] theorem cover_cons (i : Span ℚ) (intervals : List (Span ℚ)) :
    cover (i :: intervals) = i.points ∪ cover intervals := by
  simp [cover, Set.iUnion_or, Set.iUnion_union_distrib]

@[simp] theorem cover_append (p q : List (Span ℚ)) : cover (p ++ q) = cover p ∪ cover q := by
  induction p with
  | nil => simp
  | cons i p ih => rw [List.cons_append, cover_cons, ih, cover_cons, Set.union_assoc]

theorem cover_perm {p q : List (Span ℚ)} (h : p.Perm q) : cover p = cover q := by
  simp only [cover, h.mem_iff]

theorem measurableSet_cover (intervals : List (Span ℚ)) : MeasurableSet (cover intervals) := by
  induction intervals with
  | nil => simp
  | cons i intervals ih =>
    rw [cover_cons]
    exact measurableSet_Icc.union ih

theorem points_union (a b c : ℚ) (hab : a ≤ b) (hbc : b ≤ c) :
    (⟨a, b, hab⟩ : Span ℚ).points ∪ (⟨b, c, hbc⟩ : Span ℚ).points
      = (⟨a, c, hab.trans hbc⟩ : Span ℚ).points :=
  Set.Icc_union_Icc_eq_Icc (Rat.cast_le.mpr hab) (Rat.cast_le.mpr hbc)

theorem volume_points (i : Span ℚ) :
    volume i.points = ENNReal.ofReal ((i.stop - i.start : ℚ) : ℝ) := by
  rw [Span.points, Real.volume_Icc, Rat.cast_sub]

theorem mem_cover {intervals : List (Span ℚ)} {t : ℝ} :
    t ∈ cover intervals ↔ ∃ i ∈ intervals, t ∈ i.points := by
  simp [cover]

theorem disjoint_cover {i : Span ℚ} {intervals : List (Span ℚ)}
    (h : ∀ other ∈ intervals, i.stop < other.start) : Disjoint i.points (cover intervals) := by
  rw [Set.disjoint_left]
  intro t hi ht
  obtain ⟨other, hother, hmem⟩ := mem_cover.mp ht
  have hlt : (i.stop : ℝ) < other.start := Rat.cast_lt.mpr (h other hother)
  exact absurd (hi.2.trans_lt hlt) (not_lt.mpr hmem.1)

theorem points_union_of_le {i other : Span ℚ} (hstart : i.start ≤ other.start)
    (hstop : other.start ≤ i.stop) :
    i.points ∪ other.points
      = (⟨i.start, max i.stop other.stop, i.ordered.trans (le_max_left _ _)⟩ : Span ℚ).points := by
  have hmin : min (i.start : ℝ) other.start = i.start := min_eq_left (Rat.cast_le.mpr hstart)
  have hfirst : (i.start : ℝ) ≤ i.stop := Rat.cast_le.mpr i.ordered
  have hsecond : (other.start : ℝ) ≤ other.stop := Rat.cast_le.mpr other.ordered
  have htouch : (other.start : ℝ) ≤ i.stop := Rat.cast_le.mpr hstop
  rw [Span.points, Span.points, Span.points, Rat.cast_max,
    Set.Icc_union_Icc' htouch ((Rat.cast_le.mpr hstart).trans hsecond), hmin]

/-! ### Merging -/

/-- The length of the closed intervals, and the one that is still open. -/
structure Merged where
  total : ℚ
  current : Span ℚ

namespace Merged

def length (m : Merged) : ℚ := m.total + m.current.stop - m.current.start

def step (m : Merged) (i : Span ℚ) : Merged :=
  if m.current.stop < i.start then ⟨m.total + (m.current.stop - m.current.start), i⟩
  else ⟨m.total, ⟨m.current.start, max m.current.stop i.stop,
    m.current.ordered.trans (le_max_left _ _)⟩⟩

theorem total_le_length (m : Merged) : m.total ≤ m.length := by
  have h := m.current.ordered
  unfold length
  linarith

theorem total_le_step (m : Merged) (i : Span ℚ) : m.total ≤ (m.step i).total := by
  have h := m.current.ordered
  unfold step
  split
  · simp only
    linarith
  · exact le_refl _

theorem total_le_foldl (m : Merged) (intervals : List (Span ℚ)) :
    m.total ≤ (intervals.foldl step m).total := by
  induction intervals generalizing m with
  | nil => exact le_refl _
  | cons i intervals ih => exact (total_le_step m i).trans (ih _)

theorem volume_foldl (m : Merged) (intervals : List (Span ℚ))
    (hsorted : intervals.Pairwise fun a b => a.start ≤ b.start)
    (hstart : ∀ i ∈ intervals, m.current.start ≤ i.start) :
    volume (m.current.points ∪ cover intervals)
      = ENNReal.ofReal (((intervals.foldl step m).length - m.total : ℚ) : ℝ) := by
  induction intervals generalizing m with
  | nil =>
    have hlength : m.length - m.total = m.current.stop - m.current.start := by
      unfold length
      ring
    rw [cover_nil, Set.union_empty, volume_points, List.foldl_nil, hlength]
  | cons i intervals ih =>
    rw [List.pairwise_cons] at hsorted
    rw [List.foldl_cons]
    by_cases hgap : m.current.stop < i.start
    · -- The open interval is closed, and nothing later meets it.
      have hstep : m.step i = ⟨m.total + (m.current.stop - m.current.start), i⟩ := if_pos hgap
      have hlater := ih (m.step i) hsorted.2 (by rw [hstep]; exact hsorted.1)
      have hdisjoint : Disjoint m.current.points (cover (i :: intervals)) := by
        refine disjoint_cover fun other hother => ?_
        rcases List.mem_cons.mp hother with rfl | hother
        · exact hgap
        · exact hgap.trans_le (hsorted.1 other hother)
      have hcover : cover (i :: intervals) = (m.step i).current.points ∪ cover intervals := by
        rw [hstep, cover_cons]
      have htotal := ((m.step i).total_le_foldl intervals).trans
        (total_le_length (intervals.foldl step (m.step i)))
      rw [measure_union hdisjoint (measurableSet_cover _), hcover, hlater, volume_points,
        ← ENNReal.ofReal_add]
      · rw [← Rat.cast_add]
        congr 2
        rw [hstep]
        ring
      · exact Rat.cast_nonneg.mpr (sub_nonneg.mpr m.current.ordered)
      · exact Rat.cast_nonneg.mpr (sub_nonneg.mpr htotal)
    · -- The open interval is extended.
      have hstep : m.step i = ⟨m.total, ⟨m.current.start, max m.current.stop i.stop,
          m.current.ordered.trans (le_max_left _ _)⟩⟩ := if_neg hgap
      have hlater := ih (m.step i) hsorted.2 (by
        rw [hstep]
        exact fun other hother => hstart other (List.mem_cons_of_mem _ hother))
      have hpoints : m.current.points ∪ i.points = (m.step i).current.points := by
        rw [points_union_of_le (hstart i List.mem_cons_self) (not_lt.mp hgap), hstep]
      have htotal : (m.step i).total = m.total := by rw [hstep]
      rw [cover_cons, ← Set.union_assoc, hpoints, hlater, htotal]

end Merged

end VidbyteSdk.Lib

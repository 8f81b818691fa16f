import VidbyteSdk.Lib.Coverage

/-!
# Busy time and peak concurrency

`MathHelper`'s two sweeps over the intervals of a run, for rational times: the seconds that the
intervals cover, and the greatest number of them that are active at one time. The records that give
the intervals refuse an end that precedes its start.
-/

namespace VidbyteSdk.Util

open Lib Lib.Sweep MeasureTheory

/-- The order of the pairs that are sorted. -/
def IntervalBefore (a b : Span ℚ) : Prop := toLex (a.start, a.stop) ≤ toLex (b.start, b.stop)

instance : DecidableRel IntervalBefore := fun a b =>
  inferInstanceAs (Decidable (toLex (a.start, a.stop) ≤ toLex (b.start, b.stop)))

instance : Std.Total IntervalBefore where
  total _ _ := le_total _ _

instance : IsTrans (Span ℚ) IntervalBefore where
  trans _ _ _ hab hbc := le_trans hab hbc

theorem IntervalBefore.start_le {a b : Span ℚ} (h : IntervalBefore a b) : a.start ≤ b.start := by
  rcases Prod.Lex.toLex_le_toLex.mp h with h | h
  · exact h.le
  · exact h.1.le

/-- `MathHelper.interval_union_seconds` -/
def intervalUnionSeconds (intervals : List (Span ℚ)) : Option ℚ :=
  match intervals.insertionSort IntervalBefore with
  | [] => none
  | first :: rest => some (rest.foldl Merged.step ⟨0, first⟩).length

/-- `MathHelper.max_concurrency` -/
def maxConcurrency (intervals : List (Span ℚ)) : Option ℤ :=
  if intervals.isEmpty then none
  else some (peak ((events intervals).insertionSort EventBefore))

/-! ### Busy time -/

variable {intervals : List (Span ℚ)}

theorem intervalUnionSeconds_eq_none :
    intervalUnionSeconds intervals = none ↔ intervals = [] := by
  have hlength := (List.perm_insertionSort IntervalBefore intervals).length_eq
  unfold intervalUnionSeconds
  split
  · next hsorted =>
    rw [hsorted, List.length_nil] at hlength
    simp [List.length_eq_zero_iff.mp hlength.symm]
  · next hsorted =>
    rw [hsorted] at hlength
    simp only [reduceCtorEq, false_iff]
    rintro rfl
    cases hlength

theorem volume_cover {seconds : ℚ}
    (h : intervalUnionSeconds intervals = some seconds) :
    0 ≤ seconds ∧ volume (cover intervals) = ENNReal.ofReal (seconds : ℝ) := by
  have hperm := List.perm_insertionSort IntervalBefore intervals
  have hpairs := List.pairwise_insertionSort IntervalBefore intervals
  unfold intervalUnionSeconds at h
  split at h
  · cases h
  next first rest hsorted =>
  obtain rfl := Option.some.inj h
  rw [hsorted] at hperm hpairs
  obtain ⟨hfirst, hrest⟩ := List.pairwise_cons.mp hpairs
  have hvolume := Merged.volume_foldl ⟨0, first⟩ rest (hrest.imp IntervalBefore.start_le)
    fun i hi => (hfirst i hi).start_le
  have hnonneg := (Merged.total_le_foldl ⟨0, first⟩ rest).trans
    (Merged.total_le_length (rest.foldl Merged.step ⟨0, first⟩))
  refine ⟨hnonneg, ?_⟩
  rw [← cover_perm hperm, cover_cons, hvolume, sub_zero]

variable {p q : List (Span ℚ)}

theorem intervalUnionSeconds_congr (hnil : p = [] ↔ q = [])
    (hcover : cover p = cover q) : intervalUnionSeconds p = intervalUnionSeconds q := by
  cases hp : intervalUnionSeconds p with
  | none => exact (intervalUnionSeconds_eq_none.mpr (hnil.mp (intervalUnionSeconds_eq_none.mp hp))).symm
  | some seconds =>
    cases hq : intervalUnionSeconds q with
    | none =>
      rw [intervalUnionSeconds_eq_none.mpr (hnil.mpr (intervalUnionSeconds_eq_none.mp hq))] at hp
      cases hp
    | some seconds' =>
      obtain ⟨hnonneg, hvolume⟩ := volume_cover hp
      obtain ⟨hnonneg', hvolume'⟩ := volume_cover hq
      rw [hcover, hvolume', ENNReal.ofReal_eq_ofReal_iff (Rat.cast_nonneg.mpr hnonneg')
        (Rat.cast_nonneg.mpr hnonneg)] at hvolume
      rw [Rat.cast_inj.mp hvolume]

theorem cover_split (p q : List (Span ℚ)) (i : Span ℚ) (t : ℚ) (hstart : i.start ≤ t)
    (hstop : t ≤ i.stop) :
    cover (p ++ ⟨i.start, t, hstart⟩ :: ⟨t, i.stop, hstop⟩ :: q) = cover (p ++ i :: q) := by
  have hcut : (⟨i.start, t, hstart⟩ : Span ℚ).points ∪ (⟨t, i.stop, hstop⟩ : Span ℚ).points
      = i.points := points_union _ _ _ hstart hstop
  rw [cover_append, cover_append, cover_cons, cover_cons, cover_cons, ← hcut, Set.union_assoc]

/-! ### Peak concurrency -/

/-- The intervals of positive length that an instant lies strictly inside of, and one more where
intervals without length lie at the instant. -/
noncomputable def concurrencyAt (intervals : List (Span ℚ)) (t : ℝ) : ℕ :=
  depth ((↑) : ℚ → ℝ) intervals t

theorem maxConcurrency_eq_none :
    maxConcurrency intervals = none ↔ intervals = [] := by
  simp [maxConcurrency]

theorem isGreatest_maxConcurrency {greatest : ℤ}
    (h : maxConcurrency intervals = some greatest) :
    IsGreatest (Set.range fun t => (concurrencyAt intervals t : ℤ)) greatest := by
  unfold maxConcurrency at h
  split at h
  · cases h
  obtain rfl := Option.some.inj h
  exact isGreatest_peak Rat.cast_strictMono (List.perm_insertionSort EventBefore _)
    (List.pairwise_insertionSort EventBefore _)

theorem concurrencyAt_perm (h : p.Perm q) (t : ℝ) :
    concurrencyAt p t = concurrencyAt q t := by
  have hpoint : PointAt ((↑) : ℚ → ℝ) p t ↔ PointAt ((↑) : ℚ → ℝ) q t := by
    simp only [PointAt, h.mem_iff]
  simp only [concurrencyAt, depth, inside, h.countP_eq, hpoint]

theorem maxConcurrency_perm (h : p.Perm q) :
    maxConcurrency p = maxConcurrency q := by
  have hnil : p = [] ↔ q = [] := by
    rw [← List.length_eq_zero_iff, ← List.length_eq_zero_iff, h.length_eq]
  have hrange : (fun t => (concurrencyAt p t : ℤ)) = fun t => (concurrencyAt q t : ℤ) := by
    funext t
    rw [concurrencyAt_perm h]
  cases hp : maxConcurrency p with
  | none => exact (maxConcurrency_eq_none.mpr (hnil.mp (maxConcurrency_eq_none.mp hp))).symm
  | some greatest =>
    cases hq : maxConcurrency q with
    | none =>
      rw [maxConcurrency_eq_none.mpr (hnil.mpr (maxConcurrency_eq_none.mp hq))] at hp
      cases hp
    | some greatest' =>
      have hgreatest := isGreatest_maxConcurrency hp
      rw [hrange] at hgreatest
      rw [hgreatest.unique (isGreatest_maxConcurrency hq)]

/-- The intervals that cover an instant: a touching interval covers its start and not its end, and an
interval without length its own instant. -/
noncomputable def coveringAt (intervals : List (Span ℚ)) (t : ℝ) : ℕ :=
  intervals.countP fun i => (i.start : ℝ) ≤ t ∧ t < i.stop ∨ i.start = i.stop ∧ t = i.start

/-- Two intervals without length at one instant both cover it, but count as one. -/
theorem maxConcurrency_not_covering :
    ¬ ∀ (intervals : List (Span ℚ)) (greatest : ℤ), maxConcurrency intervals = some greatest →
      IsGreatest (Set.range fun t => (coveringAt intervals t : ℤ)) greatest := by
  intro h
  have hone : maxConcurrency [⟨5, 5, le_refl 5⟩, ⟨5, 5, le_refl 5⟩] = some 1 := by
    with_unfolding_all rfl
  have htwo := (h _ 1 hone).2 ⟨5, rfl⟩
  norm_num [coveringAt] at htwo

/-- Busy time is the measure of the union of the intervals, and peak concurrency the greatest number
of intervals of positive length that an instant lies strictly inside of, with one more where intervals
without length lie at it. Neither depends on the order of the intervals, and cutting an interval at an
inner point leaves the busy time. -/
theorem intervals_exact (intervals : List (Span ℚ)) :
    ((intervalUnionSeconds intervals = none ↔ intervals = []) ∧
      ∀ seconds, intervalUnionSeconds intervals = some seconds →
        0 ≤ seconds ∧ volume (cover intervals) = ENNReal.ofReal (seconds : ℝ)) ∧
    ((maxConcurrency intervals = none ↔ intervals = []) ∧
      ∀ greatest, maxConcurrency intervals = some greatest →
        IsGreatest (Set.range fun t => (concurrencyAt intervals t : ℤ)) greatest) ∧
    (∀ other : List (Span ℚ), other.Perm intervals →
      intervalUnionSeconds other = intervalUnionSeconds intervals ∧
        maxConcurrency other = maxConcurrency intervals) ∧
    ∀ (p q : List (Span ℚ)) (i : Span ℚ) (t : ℚ) (hstart : i.start < t) (hstop : t < i.stop),
      intervals = p ++ i :: q →
        intervalUnionSeconds (p ++ ⟨i.start, t, hstart.le⟩ :: ⟨t, i.stop, hstop.le⟩ :: q)
          = intervalUnionSeconds intervals := by
  refine ⟨⟨intervalUnionSeconds_eq_none, fun _ h => volume_cover h⟩,
    ⟨maxConcurrency_eq_none, fun _ h => isGreatest_maxConcurrency h⟩, fun other hperm => ?_, ?_⟩
  · refine ⟨intervalUnionSeconds_congr ?_ (cover_perm hperm), maxConcurrency_perm hperm⟩
    rw [← List.length_eq_zero_iff, ← List.length_eq_zero_iff, hperm.length_eq]
  · rintro p q i t hstart hstop rfl
    exact intervalUnionSeconds_congr (by simp) (cover_split p q i t hstart.le hstop.le)

end VidbyteSdk.Util

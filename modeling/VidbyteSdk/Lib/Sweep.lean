import Mathlib.Algebra.Order.BigOperators.Group.List
import Mathlib.Data.List.Induction
import Mathlib.Data.List.Sort
import Mathlib.Data.List.TakeWhile
import Mathlib.Order.Bounds.Basic
import Mathlib.Tactic.Ring

/-!
# Sweeping over intervals

The events of a list of intervals in the order of a sweep: at one time first the ends, then the
intervals without length, then the starts. The peak of the sweep is the greatest depth that an instant
has: the number of intervals it lies strictly inside of, and one more where an interval without length
lies there.
-/

namespace VidbyteSdk.Lib

structure Span (α : Type*) [LE α] where
  start : α
  stop : α
  ordered : start ≤ stop

/-- A change of the number of active intervals, at a time. -/
abbrev Event (α : Type*) := α × ℤ

namespace Sweep

/-! ### The peak of a sweep -/

section Peak

variable {α : Type*}

/-- One event of the sweep: the active intervals and their greatest number so far. An event without a
change is active at its own instant only. -/
def step (state : ℤ × ℤ) (event : Event α) : ℤ × ℤ :=
  (state.1 + event.2, max state.2 (state.1 + event.2 + if event.2 = 0 then 1 else 0))

def peak (events : List (Event α)) : ℤ := (events.foldl step (0, 0)).2

def active (events : List (Event α)) : ℤ := (events.map Prod.snd).sum

@[simp] theorem active_nil : active ([] : List (Event α)) = 0 := rfl

@[simp] theorem active_cons (event : Event α) (events : List (Event α)) :
    active (event :: events) = event.2 + active events := by
  simp [active]

@[simp] theorem active_append (p q : List (Event α)) : active (p ++ q) = active p + active q := by
  simp [active]

theorem foldl_step_fst (events : List (Event α)) (state : ℤ × ℤ) :
    (events.foldl step state).1 = state.1 + active events := by
  induction events generalizing state with
  | nil => simp
  | cons event events ih =>
    rw [List.foldl_cons, ih, active_cons, step]
    ring

theorem le_foldl_step (events : List (Event α)) (state : ℤ × ℤ) :
    state.2 ≤ (events.foldl step state).2 := by
  induction events generalizing state with
  | nil => exact le_refl _
  | cons event events ih => exact (le_max_left _ _).trans (ih (step state event))

theorem peak_nonneg (events : List (Event α)) : 0 ≤ peak events := le_foldl_step events (0, 0)

theorem le_peak (p q : List (Event α)) (event : Event α) :
    active p + event.2 + (if event.2 = 0 then 1 else 0) ≤ peak (p ++ event :: q) := by
  have hfirst := foldl_step_fst p ((0, 0) : ℤ × ℤ)
  rw [peak, List.foldl_append, List.foldl_cons]
  refine le_trans ?_ (le_foldl_step q _)
  rw [step, hfirst]
  simp

theorem active_le_peak (p q : List (Event α)) : active p ≤ peak (p ++ q) := by
  rcases List.eq_nil_or_concat' p with rfl | ⟨before, event, rfl⟩
  · simpa using peak_nonneg q
  · have h := le_peak before q event
    rw [List.append_assoc, List.singleton_append, active_append, active_cons, active_nil]
    split at h <;> omega

theorem peak_eq (events : List (Event α)) :
    peak events = 0 ∨ ∃ p event q, events = p ++ event :: q ∧
      peak events = active p + event.2 + if event.2 = 0 then 1 else 0 := by
  induction events using List.reverseRecOn with
  | nil => exact .inl rfl
  | append_singleton events event ih =>
    have hpeak : peak (events ++ [event])
        = max (peak events) (active events + event.2 + if event.2 = 0 then 1 else 0) := by
      have hfirst := foldl_step_fst events ((0, 0) : ℤ × ℤ)
      rw [peak, List.foldl_append, List.foldl_cons, List.foldl_nil, step, hfirst, zero_add]
      rfl
    rcases max_choice (peak events) (active events + event.2 + if event.2 = 0 then 1 else 0)
      with hmax | hmax
    · rw [hpeak, hmax]
      rcases ih with ih | ⟨p, other, q, hsplit, hother⟩
      · exact .inl ih
      · refine .inr ⟨p, other, q ++ [event], ?_, hother⟩
        rw [hsplit, List.append_assoc, List.cons_append]
    · exact .inr ⟨events, event, [], rfl, hpeak.trans hmax⟩

end Peak

/-! ### The events of intervals -/

section Events

variable {α : Type*} [LinearOrder α]

/-- The order of the sweep, which is that of pairs. -/
def EventBefore (a b : Event α) : Prop := a.1 < b.1 ∨ a.1 = b.1 ∧ a.2 ≤ b.2

instance : DecidableRel (EventBefore (α := α)) := fun _ _ => inferInstanceAs (Decidable (_ ∨ _))

instance : Std.Total (EventBefore (α := α)) where
  total a b := by
    unfold EventBefore
    rcases lt_trichotomy a.1 b.1 with h | h | h
    · exact .inl (.inl h)
    · rcases le_total a.2 b.2 with h' | h'
      · exact .inl (.inr ⟨h, h'⟩)
      · exact .inr (.inr ⟨h.symm, h'⟩)
    · exact .inr (.inl h)

instance : IsTrans (Event α) EventBefore where
  trans a b c hab hbc := by
    rcases hab with hab | ⟨hab, hab'⟩ <;> rcases hbc with hbc | ⟨hbc, hbc'⟩
    · exact .inl (hab.trans hbc)
    · exact .inl (hbc ▸ hab)
    · exact .inl (hab ▸ hbc)
    · exact .inr ⟨hab.trans hbc, hab'.trans hbc'⟩

/-- The starts and the ends of the intervals that have a length, and the places of those that have
none. -/
def events (intervals : List (Span α)) : List (Event α) :=
  (intervals.filter fun i => i.start < i.stop).map (fun i => (i.start, 1)) ++
    (intervals.filter fun i => i.start < i.stop).map (fun i => (i.stop, -1)) ++
    (intervals.filter fun i => i.stop ≤ i.start).map (fun i => (i.start, 0))

variable {β : Type*} [LinearOrder β] (f : α → β)

def inside (intervals : List (Span α)) (t : β) : ℕ :=
  intervals.countP fun i => f i.start < t ∧ t < f i.stop

/-- An interval without length lies at the instant. -/
def PointAt (intervals : List (Span α)) (t : β) : Prop :=
  ∃ i ∈ intervals, i.start = i.stop ∧ f i.start = t

instance (intervals : List (Span α)) (t : β) : Decidable (PointAt f intervals t) :=
  inferInstanceAs (Decidable (∃ i ∈ intervals, i.start = i.stop ∧ f i.start = t))

def depth (intervals : List (Span α)) (t : β) : ℕ :=
  inside f intervals t + if PointAt f intervals t then 1 else 0

/-- The events that the sweep comes to before the points of an instant. -/
def Passed (t : β) (event : Event α) : Prop := f event.1 < t ∨ f event.1 = t ∧ event.2 < 0

instance (t : β) (event : Event α) : Decidable (Passed f t event) :=
  inferInstanceAs (Decidable (_ ∨ _))

variable {f}

theorem mem_events {intervals : List (Span α)} {event : Event α} :
    event ∈ events intervals ↔ ∃ i ∈ intervals,
      i.start < i.stop ∧ (event = (i.start, 1) ∨ event = (i.stop, -1)) ∨
        i.stop ≤ i.start ∧ event = (i.start, 0) := by
  simp only [events, List.mem_append, List.mem_map, List.mem_filter, decide_eq_true_eq]
  grind

theorem delta_of_mem {intervals : List (Span α)} {event : Event α}
    (h : event ∈ events intervals) : event.2 = 1 ∨ event.2 = -1 ∨ event.2 = 0 := by
  obtain ⟨i, -, ⟨-, rfl | rfl⟩ | ⟨-, rfl⟩⟩ := mem_events.mp h
  · exact .inl rfl
  · exact .inr (.inl rfl)
  · exact .inr (.inr rfl)

theorem point_mem_events {intervals : List (Span α)} {time : α} :
    (time, 0) ∈ events intervals ↔ ∃ i ∈ intervals, i.start = i.stop ∧ i.start = time := by
  rw [mem_events]
  constructor
  · rintro ⟨i, hi, ⟨-, h | h⟩ | ⟨hle, h⟩⟩
    · cases h
    · cases h
    · exact ⟨i, hi, le_antisymm i.ordered hle, (Prod.mk.inj h).1.symm⟩
  · rintro ⟨i, hi, hpoint, rfl⟩
    exact ⟨i, hi, .inr ⟨hpoint.ge, rfl⟩⟩

omit [LinearOrder α] in
theorem active_eq_sub (p : List (Event α)) (h : ∀ event ∈ p, event.2 = 1 ∨ event.2 = -1 ∨ event.2 = 0) :
    active p = p.countP (fun event => event.2 = 1) - p.countP (fun event => event.2 = -1) := by
  induction p with
  | nil => rfl
  | cons event p ih =>
    have hrest := ih fun other hother => h other (List.mem_cons_of_mem _ hother)
    rw [active_cons, hrest, List.countP_cons, List.countP_cons]
    rcases h event List.mem_cons_self with hevent | hevent | hevent <;> simp [hevent] <;> omega

theorem countP_events (intervals : List (Span α)) (q : Event α → Bool) :
    (events intervals).countP q
      = intervals.countP (fun i => q (i.start, 1) && decide (i.start < i.stop))
        + intervals.countP (fun i => q (i.stop, -1) && decide (i.start < i.stop))
        + intervals.countP (fun i => q (i.start, 0) && decide (i.stop ≤ i.start)) := by
  simp only [events, List.countP_append, List.countP_map, List.countP_filter, Function.comp_def]

theorem countP_starts (hf : StrictMono f) (intervals : List (Span α)) (t : β) :
    (events intervals).countP (fun event => event.2 = 1 ∧ Passed f t event)
      = inside f intervals t
        + (events intervals).countP (fun event => event.2 = -1 ∧ Passed f t event) := by
  rw [countP_events, countP_events, inside]
  induction intervals with
  | nil => rfl
  | cons i intervals ih =>
    have hle : f i.start ≤ f i.stop := hf.monotone i.ordered
    have hlt : i.start < i.stop ↔ f i.start < f i.stop := hf.lt_iff_lt.symm
    simp only [List.countP_cons] at ih ⊢
    simp [Passed, hlt] at ih ⊢
    grind

theorem active_eq_inside (hf : StrictMono f) {intervals : List (Span α)} {p q : List (Event α)}
    (hperm : (p ++ q).Perm (events intervals)) {t : β}
    (hp : ∀ event ∈ p, event.2 ≠ 0 → Passed f t event)
    (hq : ∀ event ∈ q, event.2 ≠ 0 → ¬ Passed f t event) : active p = inside f intervals t := by
  have hdelta : ∀ event ∈ p, event.2 = 1 ∨ event.2 = -1 ∨ event.2 = 0 := fun event hevent =>
    delta_of_mem (hperm.mem_iff.mp (List.mem_append_left q hevent))
  have hcount : ∀ delta : ℤ, delta ≠ 0 → p.countP (fun event => event.2 = delta)
      = (events intervals).countP fun event => event.2 = delta ∧ Passed f t event := by
    intro delta hne
    rw [← hperm.countP_eq, List.countP_append]
    have hnone : q.countP (fun event => event.2 = delta ∧ Passed f t event) = 0 := by
      rw [List.countP_eq_zero]
      intro event hevent h
      obtain ⟨hevent', hpassed⟩ := of_decide_eq_true h
      exact hq event hevent (hevent' ▸ hne) hpassed
    rw [hnone, Nat.add_zero]
    refine List.countP_congr fun event hevent => ?_
    simp only [decide_eq_true_eq]
    exact ⟨fun h => ⟨h, hp event hevent (h ▸ hne)⟩, And.left⟩
  rw [active_eq_sub p hdelta, hcount 1 one_ne_zero, hcount (-1) (by decide), countP_starts hf]
  push_cast
  ring

/-! ### The peak is the greatest depth -/

theorem Passed.of_before (hf : StrictMono f) {t : β} {a b : Event α} (hab : EventBefore a b)
    (h : Passed f t b) : Passed f t a := by
  rcases hab with hab | ⟨hab, hle⟩
  · rcases h with h | ⟨h, -⟩
    · exact .inl ((hf hab).trans h)
    · exact .inl (h ▸ hf hab)
  · rcases h with h | ⟨h, hneg⟩
    · exact .inl (hab ▸ h)
    · exact .inr ⟨hab ▸ h, hle.trans_lt hneg⟩

variable {sorted : List (Event α)}

omit [LinearOrder α] in
theorem passed_of_mem_takeWhile {t : β} {event : Event α}
    (h : event ∈ sorted.takeWhile fun event => Passed f t event) : Passed f t event := by
  have hpassed := List.mem_takeWhile_imp h
  exact of_decide_eq_true hpassed

theorem not_passed_of_mem_dropWhile (hf : StrictMono f) {t : β}
    (hsorted : sorted.Pairwise EventBefore) {event : Event α}
    (h : event ∈ sorted.dropWhile fun event => Passed f t event) : ¬ Passed f t event := by
  intro hpassed
  induction sorted with
  | nil => cases h
  | cons first rest ih =>
    rw [List.pairwise_cons] at hsorted
    rw [List.dropWhile_cons] at h
    split at h
    · exact ih hsorted.2 h
    · next hfirst =>
      rw [decide_eq_true_eq] at hfirst
      rcases List.mem_cons.mp h with rfl | h
      · exact hfirst hpassed
      · exact hfirst (hpassed.of_before hf (hsorted.1 event h))

theorem depth_le_peak (hf : StrictMono f) {intervals : List (Span α)}
    (hperm : sorted.Perm (events intervals)) (hsorted : sorted.Pairwise EventBefore) (t : β) :
    (depth f intervals t : ℤ) ≤ peak sorted := by
  have hsplit := List.takeWhile_append_dropWhile (p := fun event => Passed f t event) (l := sorted)
  generalize hp : sorted.takeWhile (fun event => Passed f t event) = p at hsplit
  generalize hq : sorted.dropWhile (fun event => Passed f t event) = q at hsplit
  have hpassed : ∀ event ∈ p, Passed f t event := by
    intro event hevent
    rw [← hp] at hevent
    exact passed_of_mem_takeWhile hevent
  have hnot : ∀ event ∈ q, ¬ Passed f t event := by
    intro event hevent
    rw [← hq] at hevent
    exact not_passed_of_mem_dropWhile hf hsorted hevent
  subst hsplit
  have hactive : active p = inside f intervals t :=
    active_eq_inside hf hperm (fun event h _ => hpassed event h) fun event h _ => hnot event h
  by_cases hpoint : PointAt f intervals t
  · -- The next event of the sweep is a point of the instant.
    obtain ⟨i, hi, hlength, rfl⟩ := hpoint
    have hmem : (i.start, (0 : ℤ)) ∈ p ++ q :=
      hperm.mem_iff.mpr (point_mem_events.mpr ⟨i, hi, hlength, rfl⟩)
    have hq : (i.start, (0 : ℤ)) ∈ q := by
      rcases List.mem_append.mp hmem with h | h
      · rcases hpassed _ h with h | ⟨-, h⟩
        · exact absurd h (lt_irrefl _)
        · exact absurd h (lt_irrefl _)
      · exact h
    obtain ⟨event, rest, rfl⟩ := List.exists_cons_of_ne_nil (List.ne_nil_of_mem hq)
    have hdelta : event.2 = 0 := by
      have hbefore : event = (i.start, 0) ∨ EventBefore event (i.start, 0) := by
        rcases List.mem_cons.mp hq with h | h
        · exact .inl h.symm
        · exact .inr ((List.pairwise_cons.mp (List.pairwise_append.mp hsorted).2.1).1 _ h)
      have hnext := hnot event List.mem_cons_self
      rcases hbefore with rfl | hlt | ⟨htime, hle⟩
      · rfl
      · exact absurd (.inl (hf hlt)) hnext
      · by_contra hne
        exact hnext (.inr ⟨by rw [htime], lt_of_le_of_ne hle hne⟩)
    have hle := le_peak p rest event
    have hpoint : PointAt f intervals (f i.start) := ⟨i, hi, hlength, rfl⟩
    rw [hdelta, hactive, if_pos rfl] at hle
    rw [depth, if_pos hpoint]
    push_cast
    omega
  · have hle := active_le_peak p q
    rw [depth, if_neg hpoint]
    omega

theorem exists_just_after [DenselyOrdered α] [NoMaxOrder α] (times : List α) (time : α) :
    ∃ after, time < after ∧ ∀ later ∈ times, time < later → after < later := by
  induction times with
  | nil =>
    obtain ⟨after, h⟩ := exists_gt time
    exact ⟨after, h, by simp⟩
  | cons first times ih =>
    obtain ⟨after, hafter, htimes⟩ := ih
    by_cases hfirst : time < first
    · obtain ⟨between, hbetween, hlt⟩ := exists_between (lt_min hafter hfirst)
      rw [lt_min_iff] at hlt
      refine ⟨between, hbetween, fun later hlater h => ?_⟩
      rcases List.mem_cons.mp hlater with rfl | hlater
      · exact hlt.2
      · exact hlt.1.trans (htimes later hlater h)
    · refine ⟨after, hafter, fun later hlater h => ?_⟩
      rcases List.mem_cons.mp hlater with rfl | hlater
      · exact absurd h hfirst
      · exact htimes later hlater h

section Attained

variable {intervals : List (Span α)} {p q : List (Event α)} {event : Event α}

theorem depth_of_point (hf : StrictMono f) (hperm : (p ++ event :: q).Perm (events intervals))
    (hsorted : (p ++ event :: q).Pairwise EventBefore) (hdelta : event.2 = 0) :
    active p + 1 = depth f intervals (f event.1) := by
  obtain ⟨-, hq, hcross⟩ := List.pairwise_append.mp hsorted
  have hmem : (event.1, 0) ∈ events intervals := by
    rw [← hdelta]
    exact hperm.mem_iff.mp (List.mem_append_right p List.mem_cons_self)
  have hpoint : PointAt f intervals (f event.1) := by
    obtain ⟨i, hi, hlength, htime⟩ := point_mem_events.mp hmem
    exact ⟨i, hi, hlength, by rw [htime]⟩
  have hactive : active p = inside f intervals (f event.1) := by
    refine active_eq_inside hf hperm (fun other hother hne => ?_) fun other hother hne => ?_
    · rcases hcross other hother event List.mem_cons_self with h | ⟨h, hle⟩
      · exact .inl (hf h)
      · exact .inr ⟨by rw [h], lt_of_le_of_ne (hdelta ▸ hle) hne⟩
    · rcases List.mem_cons.mp hother with rfl | hother
      · exact absurd hdelta hne
      have hbefore := (List.pairwise_cons.mp hq).1 other hother
      rintro (h | ⟨h, hneg⟩)
      · have hlt := hf.lt_iff_lt.mp h
        rcases hbefore with h' | ⟨h', -⟩
        · exact lt_asymm hlt h'
        · exact absurd h'.symm hlt.ne
      · have heq := hf.injective h
        rcases hbefore with h' | ⟨-, h'⟩
        · exact absurd heq h'.ne'
        · omega
  rw [hactive, depth, if_pos hpoint]
  push_cast
  rfl

theorem exists_depth_of_start [DenselyOrdered α] [NoMaxOrder α] (hf : StrictMono f)
    (hperm : (p ++ event :: q).Perm (events intervals))
    (hsorted : (p ++ event :: q).Pairwise EventBefore) (hdelta : event.2 = 1) :
    ∃ after, active p + 1 ≤ depth f intervals (f after) := by
  obtain ⟨-, hq, hcross⟩ := List.pairwise_append.mp hsorted
  obtain ⟨after, hafter, htimes⟩ := exists_just_after ((p ++ event :: q).map Prod.fst) event.1
  have hevent : Passed f (f after) event := .inl (hf hafter)
  obtain ⟨r, s, rfl, hr, hs⟩ : ∃ r s, q = r ++ s ∧ (∀ other ∈ r, Passed f (f after) other) ∧
      ∀ other ∈ s, ¬ Passed f (f after) other :=
    ⟨q.takeWhile fun other => Passed f (f after) other,
      q.dropWhile fun other => Passed f (f after) other, List.takeWhile_append_dropWhile.symm,
      fun other hother => passed_of_mem_takeWhile hother, fun other hother =>
        not_passed_of_mem_dropWhile hf (List.pairwise_cons.mp hq).2 hother⟩
  -- What is passed between the start and the instant starts at the same time.
  have hstarts : ∀ delta ∈ r.map Prod.snd, (0 : ℤ) ≤ delta := by
    intro delta hdelta'
    obtain ⟨other, hother, rfl⟩ := List.mem_map.mp hdelta'
    rcases (List.pairwise_cons.mp hq).1 other (List.mem_append_left s hother) with hlt | ⟨-, hle⟩
    · have hlater : after < other.1 := htimes other.1 (List.mem_map_of_mem (by simp [hother])) hlt
      rcases hr other hother with h | ⟨h, -⟩
      · exact absurd (hf.lt_iff_lt.mp h) hlater.asymm
      · exact absurd (hf.injective h) hlater.ne'
    · omega
  have hactive : active (p ++ event :: r) = inside f intervals (f after) := by
    have hperm' : ((p ++ event :: r) ++ s).Perm (events intervals) := by simpa using hperm
    refine active_eq_inside hf hperm' (fun other hother _ => ?_) fun other hother _ =>
      hs other hother
    rcases List.mem_append.mp hother with hother | hother
    · exact hevent.of_before hf (hcross other hother event List.mem_cons_self)
    · rcases List.mem_cons.mp hother with rfl | hother
      · exact hevent
      · exact hr other hother
  have hsum : 0 ≤ active r := List.sum_nonneg hstarts
  refine ⟨after, ?_⟩
  rw [active_append, active_cons, hdelta] at hactive
  rw [depth]
  push_cast
  split <;> omega

end Attained

theorem exists_depth_eq_peak [DenselyOrdered α] [NoMaxOrder α] [Nonempty α] (hf : StrictMono f)
    {intervals : List (Span α)}
    (hperm : sorted.Perm (events intervals)) (hsorted : sorted.Pairwise EventBefore) :
    ∃ time : α, (depth f intervals (f time) : ℤ) = peak sorted := by
  suffices h : ∃ time : α, peak sorted ≤ depth f intervals (f time) by
    obtain ⟨time, htime⟩ := h
    exact ⟨time, le_antisymm (depth_le_peak hf hperm hsorted _) htime⟩
  rcases peak_eq sorted with hzero | ⟨p, event, q, rfl, hpeak⟩
  · obtain ⟨time⟩ := ‹Nonempty α›
    exact ⟨time, by omega⟩
  have hmem : event ∈ events intervals :=
    hperm.mem_iff.mp (List.mem_append_right p List.mem_cons_self)
  rcases delta_of_mem hmem with hdelta | hdelta | hdelta
  · obtain ⟨after, hafter⟩ := exists_depth_of_start hf hperm hsorted hdelta
    refine ⟨after, ?_⟩
    rw [hpeak, hdelta, if_neg one_ne_zero]
    omega
  · -- An end sees less than what was active in front of it.
    have hle := active_le_peak p (event :: q)
    rw [hpeak, hdelta, if_neg (by decide)] at hle
    omega
  · refine ⟨event.1, ?_⟩
    rw [hpeak, hdelta, if_pos rfl, ← depth_of_point hf hperm hsorted hdelta]
    omega

theorem isGreatest_peak [DenselyOrdered α] [NoMaxOrder α] [Nonempty α] (hf : StrictMono f)
    {intervals : List (Span α)}
    (hperm : sorted.Perm (events intervals)) (hsorted : sorted.Pairwise EventBefore) :
    IsGreatest (Set.range fun t : β => (depth f intervals t : ℤ)) (peak sorted) := by
  constructor
  · obtain ⟨time, htime⟩ := exists_depth_eq_peak hf hperm hsorted
    exact ⟨f time, htime⟩
  · rintro _ ⟨t, rfl⟩
    exact depth_le_peak hf hperm hsorted t

end Events

end Sweep

end VidbyteSdk.Lib

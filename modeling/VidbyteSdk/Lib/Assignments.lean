import Mathlib.Data.Fintype.Pigeonhole
import Mathlib.Dynamics.PeriodicPts.Lemmas

/-!
# Unique assignments

An assignment gives each key a place that accepts it, and no place to two keys. Where there is exactly
one assignment, some key has exactly one place left: otherwise every key has a second place, and moving
keys along a path or a cycle of second places gives another assignment. A key with one place left can
be taken out together with its place, which leaves the number of assignments as it was.
-/

namespace VidbyteSdk.Lib

variable {κ π : Type*} {accepts : κ → π → Prop} {keys : Set κ} {f g : κ → π} {k : κ} {p : π}

/-- `f` puts every key where it is accepted, and no two keys in one place. -/
structure Assigns (accepts : κ → π → Prop) (keys : Set κ) (f : κ → π) : Prop where
  accepted : ∀ k ∈ keys, accepts k (f k)
  injOn : Set.InjOn f keys

/-- `f` is the only assignment of the keys. -/
structure AssignsOnly (accepts : κ → π → Prop) (keys : Set κ) (f : κ → π) : Prop where
  assigns : Assigns accepts keys f
  eqOn : ∀ g, Assigns accepts keys g → Set.EqOn g f keys

def HasUniqueAssignment (accepts : κ → π → Prop) (keys : Set κ) : Prop :=
  ∃ f, AssignsOnly accepts keys f

/-- Without the place `p`. -/
def Without (accepts : κ → π → Prop) (p : π) : κ → π → Prop := fun k q => accepts k q ∧ q ≠ p

theorem AssignsOnly.congr (h : AssignsOnly accepts keys f) (hg : Set.EqOn g f keys) :
    AssignsOnly accepts keys g := by
  refine ⟨⟨fun k hk => ?_, h.assigns.injOn.congr hg.symm⟩, fun e he => ?_⟩
  · rw [hg hk]
    exact h.assigns.accepted k hk
  · exact (h.eqOn e he).trans hg.symm

/-! ### A key with one place -/

theorem periodicPts_nonempty {κ : Type*} [Finite κ] [Nonempty κ] (next : κ → κ) :
    (Function.periodicPts next).Nonempty := by
  obtain ⟨start⟩ := ‹Nonempty κ›
  have hrepeat : ∀ m n, m < n → next^[m] start = next^[n] start →
      (Function.periodicPts next).Nonempty := by
    intro m n hlt heq
    refine ⟨next^[m] start, Function.mk_mem_periodicPts (Nat.sub_pos_of_lt hlt) ?_⟩
    rw [Function.IsPeriodicPt, Function.IsFixedPt, ← Function.iterate_add_apply,
      Nat.sub_add_cancel hlt.le, heq]
  obtain ⟨m, n, hne, heq⟩ := Finite.exists_ne_map_eq_of_infinite fun n : ℕ => next^[n] start
  rcases Nat.lt_or_gt_of_ne hne with hlt | hlt
  · exact hrepeat m n hlt heq
  · exact hrepeat n m hlt heq.symm

section

variable {κ : Type*} {accepts : κ → π → Prop} {f : κ → π}

theorem exists_other_of_free (hf : Assigns accepts Set.univ f) {k : κ} {p : π} (haccepts : accepts k p)
    (hfree : ∀ k', f k' ≠ p) : ∃ g, Assigns accepts Set.univ g ∧ g ≠ f := by
  classical
  have hinj : Function.Injective f := Set.injOn_univ.mp hf.injOn
  refine ⟨Function.update f k p, ⟨fun k' _ => ?_, Set.injOn_univ.mpr ?_⟩, fun heq => ?_⟩
  · by_cases hk : k' = k
    · rw [hk, Function.update_self]
      exact haccepts
    · rw [Function.update_of_ne hk]
      exact hf.accepted k' trivial
  · intro a b hab
    by_cases ha : a = k
    · by_cases hb : b = k
      · rw [ha, hb]
      · rw [ha, Function.update_self, Function.update_of_ne hb] at hab
        exact absurd hab.symm (hfree b)
    · by_cases hb : b = k
      · rw [hb, Function.update_self, Function.update_of_ne ha] at hab
        exact absurd hab (hfree a)
      · rw [Function.update_of_ne ha, Function.update_of_ne hb] at hab
        exact hinj hab
  · have hself := congrFun heq k
    rw [Function.update_self] at hself
    exact hfree k hself.symm

/-- Where every key can take the place of another one, the keys of a cycle can all move on. -/
theorem exists_other_of_cycle [Finite κ] [Nonempty κ] (hf : Assigns accepts Set.univ f) (next : κ → κ)
    (hnext : ∀ k, accepts k (f (next k)) ∧ next k ≠ k) :
    ∃ g, Assigns accepts Set.univ g ∧ g ≠ f := by
  classical
  have hinj : Function.Injective f := Set.injOn_univ.mp hf.injOn
  have hcycle := Function.bijOn_periodicPts next
  let moved : κ → κ := fun k => if k ∈ Function.periodicPts next then next k else k
  have hmoved : Function.Injective moved := by
    intro a b hab
    simp only [moved] at hab
    split at hab
    · next ha =>
      split at hab
      · next hb => exact hcycle.injOn ha hb hab
      · next hb => exact absurd (hab ▸ hcycle.mapsTo ha) hb
    · next ha =>
      split at hab
      · next hb => exact absurd (hab ▸ hcycle.mapsTo hb) ha
      · exact hab
  obtain ⟨k, hk⟩ := periodicPts_nonempty next
  refine ⟨f ∘ moved, ⟨fun k' _ => ?_, (hinj.comp hmoved).injOn⟩, fun heq => ?_⟩
  · by_cases hk' : k' ∈ Function.periodicPts next
    · simpa [moved, hk'] using (hnext k').1
    · simpa [moved, hk'] using hf.accepted k' trivial
  · have hfixed : moved k = k := hinj (congrFun heq k)
    simp only [moved, if_pos hk] at hfixed
    exact (hnext k).2 hfixed

theorem exists_other_of_second [Finite κ] [Nonempty κ] (hf : Assigns accepts Set.univ f)
    (hsecond : ∀ k, ∃ p, accepts k p ∧ p ≠ f k) : ∃ g, Assigns accepts Set.univ g ∧ g ≠ f := by
  choose second haccepts hne using hsecond
  by_cases hfree : ∃ k, ∀ k', f k' ≠ second k
  · obtain ⟨k, hk⟩ := hfree
    exact exists_other_of_free hf (haccepts k) hk
  · push Not at hfree
    choose next hnext using hfree
    refine exists_other_of_cycle hf next fun k => ⟨?_, fun heq => ?_⟩
    · rw [hnext k]
      exact haccepts k
    · apply hne k
      rw [← hnext k, heq]

end

theorem AssignsOnly.exists_forced (h : AssignsOnly accepts keys f) (hfinite : keys.Finite)
    (hne : keys.Nonempty) : ∃ k ∈ keys, ∀ p, accepts k p → p = f k := by
  classical
  by_contra hno
  push Not at hno
  have : Finite keys := hfinite
  have : Nonempty keys := hne.to_subtype
  have hf : Assigns (fun k : keys => accepts k) Set.univ (fun k => f k) :=
    ⟨fun k _ => h.assigns.accepted k k.2, fun a _ b _ hab => Subtype.ext (h.assigns.injOn a.2 b.2 hab)⟩
  obtain ⟨g, hg, hgne⟩ := exists_other_of_second hf fun k => hno k k.2
  let g' : κ → π := fun k => if hk : k ∈ keys then g ⟨k, hk⟩ else f k
  have hg' : ∀ k : keys, g' k = g k := fun k => dif_pos k.2
  have hassigns : Assigns accepts keys g' := by
    refine ⟨fun k hk => ?_, fun a ha b hb hab => ?_⟩
    · rw [hg' ⟨k, hk⟩]
      exact hg.accepted ⟨k, hk⟩ trivial
    · rw [hg' ⟨a, ha⟩, hg' ⟨b, hb⟩] at hab
      exact congrArg Subtype.val (hg.injOn trivial trivial hab)
  apply hgne
  funext k
  rw [← hg' k]
  exact h.eqOn g' hassigns k.2

/-! ### Taking a key out -/

theorem assigns_iff_of_forced (hk : k ∈ keys) (hforced : ∀ q, accepts k q ↔ q = p) :
    Assigns accepts keys f ↔ f k = p ∧ Assigns (Without accepts p) (keys \ {k}) f := by
  constructor
  · intro h
    have hp : f k = p := (hforced _).mp (h.accepted k hk)
    refine ⟨hp, fun k' hk' => ⟨h.accepted k' hk'.1, fun heq => ?_⟩, h.injOn.mono Set.sdiff_subset⟩
    exact hk'.2 (h.injOn hk'.1 hk (heq.trans hp.symm))
  · rintro ⟨hp, h⟩
    have hother : ∀ k' ∈ keys, k' ≠ k → f k' ≠ f k := by
      intro k' hk' hne
      rw [hp]
      exact (h.accepted k' ⟨hk', hne⟩).2
    refine ⟨fun k' hk' => ?_, fun a ha b hb hab => ?_⟩
    · by_cases heq : k' = k
      · rw [heq]
        exact (hforced _).mpr hp
      · exact (h.accepted k' ⟨hk', heq⟩).1
    · by_cases hak : a = k
      · by_cases hbk : b = k
        · rw [hak, hbk]
        · rw [hak] at hab
          exact absurd hab.symm (hother b hb hbk)
      · by_cases hbk : b = k
        · rw [hbk] at hab
          exact absurd hab (hother a ha hak)
        · exact h.injOn ⟨ha, hak⟩ ⟨hb, hbk⟩ hab

theorem assignsOnly_iff_of_forced (hk : k ∈ keys) (hforced : ∀ q, accepts k q ↔ q = p) :
    AssignsOnly accepts keys f ↔ f k = p ∧ AssignsOnly (Without accepts p) (keys \ {k}) f := by
  classical
  constructor
  · intro h
    obtain ⟨hp, hassigns⟩ := (assigns_iff_of_forced hk hforced).mp h.assigns
    refine ⟨hp, hassigns, fun g hg k' hk' => ?_⟩
    have hupdate : Set.EqOn (Function.update g k p) g (keys \ {k}) := fun k' hk' =>
      Function.update_of_ne hk'.2 _ _
    have hg' : Assigns accepts keys (Function.update g k p) := by
      refine (assigns_iff_of_forced hk hforced).mpr ⟨Function.update_self k p g, fun k' hk' => ?_, ?_⟩
      · rw [hupdate hk']
        exact hg.accepted k' hk'
      · exact hg.injOn.congr hupdate.symm
    rw [← hupdate hk']
    exact h.eqOn _ hg' hk'.1
  · rintro ⟨hp, h⟩
    refine ⟨(assigns_iff_of_forced hk hforced).mpr ⟨hp, h.assigns⟩, fun g hg k' hk' => ?_⟩
    obtain ⟨hgp, hg'⟩ := (assigns_iff_of_forced hk hforced).mp hg
    by_cases heq : k' = k
    · rw [heq, hgp, hp]
    · exact h.eqOn g hg' ⟨hk', heq⟩

theorem hasUniqueAssignment_iff_of_forced (hk : k ∈ keys) (hforced : ∀ q, accepts k q ↔ q = p) :
    HasUniqueAssignment accepts keys
      ↔ HasUniqueAssignment (Without accepts p) (keys \ {k}) := by
  classical
  constructor
  · rintro ⟨f, hf⟩
    exact ⟨f, ((assignsOnly_iff_of_forced hk hforced).mp hf).2⟩
  · rintro ⟨f, hf⟩
    refine ⟨Function.update f k p, (assignsOnly_iff_of_forced hk hforced).mpr ⟨Function.update_self k p f, ?_⟩⟩
    exact hf.congr fun k' hk' => Function.update_of_ne hk'.2 _ _

theorem not_hasUniqueAssignment_of_stuck (hk : k ∈ keys) (hstuck : ∀ p, ¬ accepts k p) :
    ¬ HasUniqueAssignment accepts keys := by
  rintro ⟨f, hf⟩
  exact hstuck _ (hf.assigns.accepted k hk)

end VidbyteSdk.Lib

import Mathlib.Data.List.Perm.Basic
import Mathlib.Data.List.Induction

/-!
# Calls and their results

A paired list is a row of segments: an item that is neither a call nor a result, or an exchange, which is some calls
and then the results of just these. An exchange starts at its first call, so a place is between two segments unless a
result stands there, or a call behind a call (`between_iff`); and a paired list that starts with another one starts
with its segments (`exists_append_of_prefix`).
-/

namespace VidbyteSdk.Lib

variable {α κ : Type} (callIds resultIds : α → List κ)

inductive PairedSegment : List α → Prop
  | single {item : α} (hcall : callIds item = []) (hresult : resultIds item = []) : PairedSegment [item]
  | exchange {calls results : List α} (hne : calls ≠ [])
    (hcalls : ∀ call ∈ calls, callIds call ≠ [] ∧ resultIds call = [])
    (hresults : ∀ result ∈ results, resultIds result ≠ [] ∧ callIds result = [])
    (hanswered : (results.flatMap resultIds).Perm (calls.flatMap callIds)) : PairedSegment (calls ++ results)

def Paired (segments : List (List α)) : Prop := ∀ segment ∈ segments, PairedSegment callIds resultIds segment

/-- A place of a list with whole segments in front of it and behind it. -/
def Between (items : List α) (place : ℕ) : Prop :=
  ∃ before after, Paired callIds resultIds before ∧ Paired callIds resultIds after ∧
    items = before.flatten ++ after.flatten ∧ place = before.flatten.length

/-- An item that stands inside an exchange: a result, or a call right behind a call. -/
def IsInner (before : List α) (item : α) : Prop :=
  resultIds item ≠ [] ∨ (callIds item ≠ [] ∧ ∃ previous, before.getLast? = some previous ∧ callIds previous ≠ [])

variable {callIds resultIds} {segment : List α} {segments before : List (List α)} {items : List α} {item : α}

theorem Between.le_length {place : ℕ} (h : Between callIds resultIds items place) : place ≤ items.length := by
  obtain ⟨before, after, _, _, rfl, rfl⟩ := h
  rw [List.length_append]
  exact Nat.le_add_right _ _

theorem PairedSegment.ne_nil (h : PairedSegment callIds resultIds segment) : segment ≠ [] := by
  cases h with
  | single => exact List.cons_ne_nil _ _
  | exchange hne => exact List.append_ne_nil_of_left_ne_nil hne _

theorem PairedSegment.head {rest : List α} (h : PairedSegment callIds resultIds (item :: rest)) :
    resultIds item = [] := by
  generalize hsegment : item :: rest = segment at h
  cases h with
  | single _ hresult =>
    rw [← (List.cons.inj hsegment).1] at hresult
    exact hresult
  | @exchange calls results hne hcalls =>
    obtain ⟨call, calls, rfl⟩ := List.exists_cons_of_ne_nil hne
    rw [List.cons_append] at hsegment
    rw [(List.cons.inj hsegment).1]
    exact (hcalls call List.mem_cons_self).2

theorem results_ne_nil {calls results : List α} (hne : calls ≠ [])
    (hcalls : ∀ call ∈ calls, callIds call ≠ [] ∧ resultIds call = [])
    (hanswered : (results.flatMap resultIds).Perm (calls.flatMap callIds)) : results ≠ [] := by
  rintro rfl
  obtain ⟨call, calls, rfl⟩ := List.exists_cons_of_ne_nil hne
  rw [List.flatMap_nil, List.nil_perm, List.flatMap_cons, List.append_eq_nil_iff] at hanswered
  exact (hcalls call List.mem_cons_self).1 hanswered.1

theorem PairedSegment.last (h : PairedSegment callIds resultIds segment) (hlast : segment.getLast? = some item) :
    callIds item = [] := by
  cases h with
  | single hcall _ =>
    rw [List.getLast?_singleton] at hlast
    rw [← Option.some.inj hlast]
    exact hcall
  | @exchange calls results hne hcalls hresults hanswered =>
    have hsome := results_ne_nil hne hcalls hanswered
    rw [List.getLast?_append_of_ne_nil _ hsome] at hlast
    exact (hresults item (List.mem_of_getLast? hlast)).2

theorem Paired.last (h : Paired callIds resultIds segments) (hlast : segments.flatten.getLast? = some item) :
    callIds item = [] := by
  induction segments using List.reverseRecOn with
  | nil => cases hlast
  | append_singleton segments segment =>
    have hsegment := h segment (List.mem_append_right _ List.mem_cons_self)
    rw [List.flatten_concat, List.getLast?_append_of_ne_nil _ hsegment.ne_nil] at hlast
    exact hsegment.last hlast

theorem not_isInner_of_between {front back : List α} (h : Between callIds resultIds (front ++ item :: back) front.length) :
    ¬ IsInner callIds resultIds front item := by
  obtain ⟨before, after, hbefore, hafter, hitems, hplace⟩ := h
  obtain ⟨hfront, hback⟩ := List.append_inj hitems hplace
  cases after with
  | nil => cases hback
  | cons segment after =>
    have hsegment := hafter segment List.mem_cons_self
    obtain ⟨first, rest, rfl⟩ := List.exists_cons_of_ne_nil hsegment.ne_nil
    rw [List.flatten_cons, List.cons_append, List.cons.injEq] at hback
    rw [hback.1]
    rintro (hresult | ⟨_, previous, hprevious, hcall⟩)
    · exact hresult hsegment.head
    · rw [hfront] at hprevious
      exact hcall (hbefore.last hprevious)

theorem PairedSegment.isInner {front rest : List α} (h : PairedSegment callIds resultIds (front ++ item :: rest))
    (hne : front ≠ []) : IsInner callIds resultIds front item := by
  generalize hsegment : front ++ item :: rest = segment at h
  cases h with
  | single =>
    obtain ⟨first, front, rfl⟩ := List.exists_cons_of_ne_nil hne
    rw [List.cons_append, List.cons.injEq, List.append_eq_nil_iff] at hsegment
    exact nomatch hsegment.2.2
  | @exchange calls results _ hcalls hresults _ =>
    rcases List.append_eq_append_iff.mp hsegment with ⟨others, hothers, hrest⟩ | ⟨others, hothers, hrest⟩
    · cases others with
      | nil =>
        rw [List.nil_append] at hrest
        exact .inl (hresults item (hrest ▸ List.mem_cons_self)).1
      | cons other others =>
        rw [List.cons_append, List.cons.injEq] at hrest
        have hitem : item ∈ calls := by
          rw [hothers, hrest.1]
          exact List.mem_append_right _ List.mem_cons_self
        have hlast := List.getLast?_eq_getLast_of_ne_nil hne
        have hprevious : front.getLast hne ∈ calls := by
          rw [hothers]
          exact List.mem_append_left _ (List.getLast_mem hne)
        exact .inr ⟨(hcalls item hitem).1, _, hlast, (hcalls _ hprevious).1⟩
    · have hitem : item ∈ results := by
        rw [hrest]
        exact List.mem_append_right _ List.mem_cons_self
      exact .inl (hresults item hitem).1

theorem between_of_not_isInner (hpaired : Paired callIds resultIds segments) {front back : List α}
    (hitems : segments.flatten = front ++ item :: back) (hinner : ¬ IsInner callIds resultIds front item) :
    Between callIds resultIds (front ++ item :: back) front.length := by
  induction segments generalizing front with
  | nil => exact absurd hitems.symm (List.append_ne_nil_of_right_ne_nil _ (List.cons_ne_nil _ _))
  | cons segment segments ih =>
    obtain ⟨hsegment, hsegments⟩ := List.forall_mem_cons.mp hpaired
    rcases List.append_eq_append_iff.mp (List.flatten_cons ▸ hitems) with ⟨rest, hfront, hrest⟩ | ⟨rest, hwhole, hrest⟩
    · have hlater : ¬ IsInner callIds resultIds rest item := by
        rintro (hresult | ⟨hcall, previous, hprevious, hother⟩)
        · exact hinner (.inl hresult)
        · have hlast : front.getLast? = some previous := by
            rw [hfront, List.getLast?_append, hprevious]
            rfl
          exact hinner (.inr ⟨hcall, previous, hlast, hother⟩)
      obtain ⟨before, after, hbefore, hafter, hsplit, hplace⟩ := ih hsegments hrest hlater
      refine ⟨segment :: before, after, List.forall_mem_cons.mpr ⟨hsegment, hbefore⟩, hafter, ?_, ?_⟩
      · rw [hfront, List.append_assoc, hsplit, List.flatten_cons, List.append_assoc]
      · rw [hfront, List.length_append, hplace, List.flatten_cons, List.length_append]
    · cases rest with
      | nil =>
        rw [List.append_nil] at hwhole
        rw [List.nil_append] at hrest
        refine ⟨[segment], segments, List.forall_mem_singleton.mpr hsegment, hsegments, ?_, ?_⟩
        · rw [hrest, hwhole, List.flatten_singleton]
        · rw [hwhole, List.flatten_singleton]
      | cons first rest =>
        rw [List.cons_append, List.cons.injEq] at hrest
        rw [← hrest.1] at hwhole
        by_cases hne : front = []
        · subst hne
          exact ⟨[], segment :: segments, List.forall_mem_nil _, hpaired, hitems.symm, rfl⟩
        · rw [hwhole] at hsegment
          exact absurd (hsegment.isInner hne) hinner

theorem calls_eq_of_prefix {calls results calls' results' : List α} (hne : results ≠ [])
    (hcalls : ∀ call ∈ calls, callIds call ≠ [] ∧ resultIds call = [])
    (hcalls' : ∀ call ∈ calls', callIds call ≠ [] ∧ resultIds call = [])
    (hresults : ∀ result ∈ results, resultIds result ≠ [] ∧ callIds result = [])
    (hresults' : ∀ result ∈ results', resultIds result ≠ [] ∧ callIds result = [])
    (h : calls ++ results <+: calls' ++ results') : calls = calls' := by
  rcases List.prefix_or_prefix_of_prefix ((List.prefix_append calls _).trans h) (List.prefix_append calls' _)
    with ⟨more, hmore⟩ | ⟨more, hmore⟩
  · cases more with
    | nil => rw [← hmore, List.append_nil]
    | cons call more =>
      -- behind the first calls a result of the one would be a call of the other
      obtain ⟨result, results, rfl⟩ := List.exists_cons_of_ne_nil hne
      rw [← hmore, List.append_assoc, List.prefix_append_right_inj, List.cons_append, List.cons_prefix_cons] at h
      have hcall : call ∈ calls' := by
        rw [← hmore]
        exact List.mem_append_right _ List.mem_cons_self
      exact absurd (h.1 ▸ (hcalls' call hcall).2) (hresults result List.mem_cons_self).1
  · cases more with
    | nil => rw [← hmore, List.append_nil]
    | cons call more =>
      have hcall : call ∈ calls := by
        rw [← hmore]
        exact List.mem_append_right _ List.mem_cons_self
      rw [← hmore, List.append_assoc, List.prefix_append_right_inj, List.cons_append] at h
      have hresult : call ∈ results' := h.subset List.mem_cons_self
      exact absurd (hresults' call hresult).2 (hcalls call hcall).1

theorem PairedSegment.eq_of_prefix {other : List α} (h : PairedSegment callIds resultIds segment)
    (hother : PairedSegment callIds resultIds other) (hstarts : segment <+: other) : segment = other := by
  cases h with
  | @single item hcall hresult =>
    cases hother with
    | single => exact hstarts.eq_of_length rfl
    | @exchange calls results hne hcalls =>
      obtain ⟨call, calls, rfl⟩ := List.exists_cons_of_ne_nil hne
      rw [List.cons_append, List.cons_prefix_cons] at hstarts
      exact absurd (hstarts.1 ▸ hcall) (hcalls call List.mem_cons_self).1
  | @exchange calls results hne hcalls hresults hanswered =>
    have hsome := results_ne_nil hne hcalls hanswered
    cases hother with
    | @single item hcall hresult =>
      obtain ⟨call, calls, rfl⟩ := List.exists_cons_of_ne_nil hne
      rw [List.cons_append, List.cons_prefix_cons] at hstarts
      exact absurd (hstarts.1 ▸ hcall) (hcalls call List.mem_cons_self).1
    | @exchange calls' results' _ hcalls' hresults' hanswered' =>
      have hsame := calls_eq_of_prefix hsome hcalls hcalls' hresults hresults' hstarts
      subst hsame
      obtain ⟨more, rfl⟩ := (List.prefix_append_right_inj calls).mp hstarts
      -- as many ids are answered in both, so there is no other result
      have hlength := hanswered'.length_eq.trans hanswered.length_eq.symm
      rw [List.flatMap_append, List.length_append] at hlength
      have hmore : more = [] := by
        cases more with
        | nil => rfl
        | cons result more =>
          have hids := (hresults' result (List.mem_append_right _ List.mem_cons_self)).1
          have hpos := List.length_pos_of_ne_nil hids
          rw [List.flatMap_cons, List.length_append] at hlength
          omega
      rw [hmore, List.append_nil]

theorem exists_append_of_prefix (hbefore : Paired callIds resultIds before) (hpaired : Paired callIds resultIds segments)
    (h : before.flatten <+: segments.flatten) : ∃ after, segments = before ++ after := by
  induction before generalizing segments with
  | nil => exact ⟨segments, rfl⟩
  | cons segment before ih =>
    obtain ⟨hsegment, hbefore⟩ := List.forall_mem_cons.mp hbefore
    cases segments with
    | nil =>
      rw [List.flatten_cons, List.flatten_nil, List.prefix_nil, List.append_eq_nil_iff] at h
      exact absurd h.1 hsegment.ne_nil
    | cons other segments =>
      obtain ⟨hother, hsegments⟩ := List.forall_mem_cons.mp hpaired
      rw [List.flatten_cons, List.flatten_cons] at h
      have hsame : segment = other := by
        rcases List.prefix_or_prefix_of_prefix ((List.prefix_append segment _).trans h) (List.prefix_append other _)
          with hle | hle
        · exact hsegment.eq_of_prefix hother hle
        · exact (hother.eq_of_prefix hsegment hle).symm
      subst hsame
      obtain ⟨after, hafter⟩ := ih hbefore hsegments (List.prefix_append_right_inj segment |>.mp h)
      exact ⟨after, congrArg _ hafter⟩

theorem Between.of_take_eq {place : ℕ} (h : Between callIds resultIds items place)
    (hpaired : Paired callIds resultIds segments) (hsame : segments.flatten.take place = items.take place) :
    Between callIds resultIds segments.flatten place := by
  obtain ⟨before, after, hbefore, _, rfl, rfl⟩ := h
  rw [List.take_left] at hsame
  obtain ⟨rest, rfl⟩ := exists_append_of_prefix hbefore hpaired (hsame ▸ List.take_prefix _ _)
  exact ⟨before, rest, hbefore, fun segment hmem => hpaired segment (List.mem_append_right _ hmem),
    List.flatten_append, rfl⟩

end VidbyteSdk.Lib

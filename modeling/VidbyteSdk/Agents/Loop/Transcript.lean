import VidbyteSdk.Agents.Loop.Frame

/-!
# Every tool call of a turn is answered before the next request

Messages are appended block by block: a turn, the results of its calls, then whatever the iteration adds.
`Answered` says it of a list of messages. `Answering` is what holds between two calls of a turn, and is
closed into `Answered` once no call is left; both are followed through every way a call is answered.
-/

namespace VidbyteSdk.Agents.Loop

open VidbyteSdk.Lib Prog

variable {A T W : Type}

/-! ### Answered transcripts -/

/-- The entry is the result message of the call, under the id `format_tool_result` gives it. The
arguments may differ: a call is prepared before it is answered. -/
def IsResultOf (iteration : Nat) (call : ToolCall A) (entry : Entry A T) : Prop :=
  (∃ prepared, entry.origin = .result iteration prepared) ∧
    ∃ result provider, entry.message = formatToolResult call result provider

def NoResult (iteration : Nat) (entry : Entry A T) : Prop :=
  ∀ call, entry.origin ≠ .result iteration call

/-- Each turn is followed at once by one result for each of its calls, in their order, and no other
entry is a result of its iteration. -/
def Answered (entries : List (Entry A T)) : Prop :=
  ∀ before iteration calls message after,
    entries = before ++ ⟨.turn iteration calls, message⟩ :: after →
    ∃ results rest, after = results ++ rest ∧ List.Forall₂ (IsResultOf iteration) calls results ∧
      ∀ entry ∈ before ++ rest, NoResult iteration entry

/-- The entry belongs to an iteration before `n`, or to none. -/
def Before (n : Nat) (entry : Entry A T) : Prop :=
  match entry.origin with
  | .turn iteration _ | .result iteration _ => iteration < n
  | .caller | .note => True

/-- The entry is neither a turn nor a result. -/
def IsPlain (entry : Entry A T) : Prop := entry.origin = .caller ∨ entry.origin = .note

section

variable {iteration n m : Nat} {entry : Entry A T} {entries closed plain : List (Entry A T)}

theorem IsPlain.before (h : IsPlain entry) : Before n entry := by
  unfold Before
  rcases h with h | h
  all_goals rw [h]; trivial

theorem IsPlain.noResult (h : IsPlain entry) : NoResult n entry := by
  intro call heq
  rcases h with h | h
  all_goals rw [h] at heq; cases heq

theorem Before.mono (h : Before n entry) (hnm : n ≤ m) : Before m entry := by
  unfold Before at h ⊢
  split <;> simp_all <;> omega

theorem Before.noResult (h : Before n entry) (hle : n ≤ m) : NoResult m entry := by
  intro call heq
  unfold Before at h
  rw [heq] at h
  simp only at h
  omega

theorem append_eq_append_cons {α : Type} {l₁ l₂ before after : List α} {x : α}
    (h : l₁ ++ l₂ = before ++ x :: after) :
    (∃ mid, l₁ = before ++ x :: mid ∧ after = mid ++ l₂) ∨
      ∃ mid, before = l₁ ++ mid ∧ l₂ = mid ++ x :: after := by
  rcases List.append_eq_append_iff.mp h with ⟨mid, hbefore, hl₂⟩ | ⟨mid, hl₁, hx⟩
  · exact .inr ⟨mid, hbefore, hl₂⟩
  · cases mid with
    | nil => exact .inr ⟨[], by simpa using hl₁.symm, by simpa using hx.symm⟩
    | cons y mid =>
      obtain ⟨rfl, rfl⟩ : x = y ∧ after = mid ++ l₂ := by simpa using hx
      exact .inl ⟨mid, hl₁, rfl⟩

theorem answered_nil : Answered ([] : List (Entry A T)) := by
  intro before iteration calls message after h
  simp at h

theorem Answered.append (h : Answered closed) (hbefore : ∀ entry ∈ closed, Before n entry)
    (hlater : ∀ entry ∈ entries, ∀ i < n, NoResult i entry)
    (hturns : ∀ before iteration calls message after,
      entries = before ++ ⟨.turn iteration calls, message⟩ :: after →
      n ≤ iteration ∧ ∃ results rest, after = results ++ rest ∧
        List.Forall₂ (IsResultOf iteration) calls results ∧
          ∀ entry ∈ before ++ rest, NoResult iteration entry) :
    Answered (closed ++ entries) := by
  intro before iteration calls message after hsplit
  rcases append_eq_append_cons hsplit with ⟨mid, hclosed, rfl⟩ | ⟨mid, rfl, hentries⟩
  · -- the turn is an earlier one
    obtain ⟨results, rest, rfl, hresults, hrest⟩ := h before iteration calls message mid hclosed
    have hi : iteration < n := hbefore ⟨.turn iteration calls, message⟩ (by simp [hclosed])
    refine ⟨results, rest ++ entries, List.append_assoc .., hresults, fun entry hentry => ?_⟩
    rw [← List.append_assoc, List.mem_append] at hentry
    rcases hentry with hentry | hentry
    · exact hrest entry hentry
    · exact hlater entry hentry iteration hi
  · obtain ⟨hn, results, rest, rfl, hresults, hrest⟩ :=
      hturns mid iteration calls message after hentries
    refine ⟨results, rest, rfl, hresults, fun entry hentry => ?_⟩
    rw [List.append_assoc, List.mem_append] at hentry
    rcases hentry with hentry | hentry
    · exact (hbefore entry hentry).noResult hn
    · exact hrest entry hentry

theorem no_turn_of_plain {before after : List (Entry A T)} {calls : List (ToolCall A)} {message : Message T}
    (hplain : ∀ entry ∈ plain, IsPlain entry) :
    plain ≠ before ++ ⟨.turn iteration calls, message⟩ :: after := by
  intro hsplit
  have hmem : (⟨.turn iteration calls, message⟩ : Entry A T) ∈ plain := by simp [hsplit]
  rcases hplain _ hmem with h | h
  all_goals cases h

theorem Answered.append_plain (h : Answered closed) (hbefore : ∀ entry ∈ closed, Before n entry)
    (hplain : ∀ entry ∈ plain, IsPlain entry) : Answered (closed ++ plain) := by
  refine h.append hbefore (fun entry hentry _ _ => (hplain entry hentry).noResult) ?_
  intro before iteration calls message after hsplit
  exact absurd hsplit (no_turn_of_plain hplain)

theorem Answered.plain_append (h : Answered closed) (hplain : ∀ entry ∈ plain, IsPlain entry) :
    Answered (plain ++ closed) := by
  intro before iteration calls message after hsplit
  rcases append_eq_append_cons hsplit with ⟨mid, hfirst, -⟩ | ⟨mid, rfl, hclosed⟩
  · exact absurd hfirst (no_turn_of_plain hplain)
  · obtain ⟨results, rest, rfl, hresults, hrest⟩ := h mid iteration calls message after hclosed
    refine ⟨results, rest, rfl, hresults, fun entry hentry => ?_⟩
    rw [List.append_assoc, List.mem_append] at hentry
    rcases hentry with hentry | hentry
    · exact (hplain entry hentry).noResult
    · exact hrest entry hentry

end

/-! ### Between two calls of a turn -/

/-- The messages while the calls of a turn are answered: those of `left` are not yet. A response whose
format has no turn message leaves results only. -/
structure Answering (n : Nat) (calls left : List (ToolCall A)) (entries : List (Entry A T)) : Prop where
  exists_parts : ∃ closed turn done results, entries = closed ++ (turn ++ results) ∧
    Answered closed ∧ (∀ entry ∈ closed, Before n entry) ∧
    (turn = [] ∨ ∃ message, turn = [⟨.turn n calls, message⟩]) ∧
    calls = done ++ left ∧ List.Forall₂ (IsResultOf n) done results

section

variable {n : Nat} {calls left : List (ToolCall A)} {call : ToolCall A} {entry : Entry A T}
  {entries : List (Entry A T)}

theorem IsResultOf.noResult {i : Nat} (h : IsResultOf n call entry) (hi : i ≠ n) :
    NoResult i entry := by
  obtain ⟨⟨prepared, horigin⟩, -⟩ := h
  intro call' heq
  rw [horigin] at heq
  injection heq with hn
  exact hi hn.symm

theorem exists_call_of_mem_results {done : List (ToolCall A)} {results : List (Entry A T)}
    (h : List.Forall₂ (IsResultOf n) done results) (hentry : entry ∈ results) :
    ∃ call, IsResultOf n call entry := by
  induction h with
  | nil => cases hentry
  | cons hcall _ ih =>
    rcases List.mem_cons.mp hentry with rfl | hmem
    · exact ⟨_, hcall⟩
    · exact ih hmem

theorem Answering.answer (h : Answering n calls (call :: left) entries)
    (hentry : IsResultOf n call entry) : Answering n calls left (entries ++ [entry]) := by
  obtain ⟨closed, turn, done, results, rfl, hclosed, hbefore, hturn, rfl, hresults⟩ := h
  refine ⟨closed, turn, done ++ [call], results ++ [entry], by simp, hclosed, hbefore, ?_, by simp, ?_⟩
  · exact hturn
  · exact List.rel_append hresults (.cons hentry .nil)

theorem Answering.before (h : Answering n calls left entries) :
    ∀ entry ∈ entries, Before (n + 1) entry := by
  obtain ⟨closed, turn, done, results, rfl, -, hbefore, hturn, -, hresults⟩ := h
  intro entry hentry
  simp only [List.mem_append] at hentry
  rcases hentry with hentry | hentry | hentry
  · exact (hbefore entry hentry).mono (Nat.le_succ n)
  · rcases hturn with rfl | ⟨message, rfl⟩
    · cases hentry
    · rw [List.mem_singleton.mp hentry]
      exact Nat.lt_succ_self n
  · obtain ⟨call, ⟨prepared, horigin⟩, -⟩ := exists_call_of_mem_results hresults hentry
    unfold Before
    rw [horigin]
    exact Nat.lt_succ_self n

theorem Answering.close (h : Answering n calls [] entries) : Answered entries := by
  obtain ⟨closed, turn, done, results, rfl, hclosed, hbefore, hturn, rfl, hresults⟩ := h
  have hlater : ∀ entry ∈ turn ++ results, ∀ i < n, NoResult i entry := by
    intro entry hentry i hi
    rcases List.mem_append.mp hentry with hentry | hentry
    · rcases hturn with rfl | ⟨message, rfl⟩
      · cases hentry
      · rw [List.mem_singleton.mp hentry]
        intro call heq
        cases heq
    · obtain ⟨call, hcall⟩ := exists_call_of_mem_results hresults hentry
      exact hcall.noResult (Nat.ne_of_lt hi)
  refine hclosed.append hbefore hlater ?_
  intro before iteration calls' message after hsplit
  have hnone : ∀ before', results ≠ before' ++ ⟨.turn iteration calls', message⟩ :: after := by
    intro before' heq
    obtain ⟨call, ⟨prepared, horigin⟩, -⟩ := exists_call_of_mem_results hresults
      (show ⟨.turn iteration calls', message⟩ ∈ results by simp [heq])
    cases horigin
  rcases hturn with rfl | ⟨message', rfl⟩
  · exact absurd hsplit (hnone before)
  · cases before with
    | nil =>
      obtain ⟨⟨⟨rfl, rfl⟩, rfl⟩, rfl⟩ :
          ((n = iteration ∧ done ++ [] = calls') ∧ message' = message) ∧ results = after := by
        simpa using hsplit
      exact ⟨le_rfl, results, [], by simp, by simpa using hresults, by simp⟩
    | cons first before =>
      obtain ⟨-, hmem⟩ : _ ∧ results = before ++ ⟨.turn iteration calls', message⟩ :: after := by
        simpa using hsplit
      exact absurd hmem (hnone before)

end

end VidbyteSdk.Agents.Loop

import VidbyteSdk.Middleware.LoopDetection

/-!
# What loop detection counts

The bounded history and the counts are tied to the hooks of the run: `recordedKeys` are the calls the hook
before a tool saw, and `latestOutputs` is the last output of every call the hook after it saw. Hooks come
call by call (`Sequential`), so a retry is always of the call that was counted last.
-/

namespace VidbyteSdk.Middleware

open VidbyteSdk.Lib

namespace LoopDetection

variable (detector : LoopDetection) (hash : String → String)

/-! ### The history of a run -/

def recordedKey : ToolHook → Option String
  | .before ctx =>
    if detector.skips ctx then none
    else ctx.toolCall.map fun call => makeKey hash call.toolName call.arguments
  | .after _ => none

def recordedKeys (hooks : List ToolHook) : List String := hooks.filterMap (detector.recordedKey hash)

def countedOutput : ToolHook → Option (Nat × String)
  | .before _ => none
  | .after ctx =>
    if detector.skips ctx then none
    else
      match ctx.toolCall, ctx.toolResult with
      | some call, some result => some (call.ref, makeOutputKey hash result.toolName result.output)
      | _, _ => none

def latestOutputs (hooks : List ToolHook) : List (Nat × String) :=
  (hooks.filterMap (detector.countedOutput hash)).foldl (fun outs out => upsert Prod.fst out outs) []

def callsWithOutput (hooks : List ToolHook) (key : String) : Nat :=
  (detector.latestOutputs hash hooks).countP fun out => out.2 = key

def CountsOutputs : Prop :=
  detector.softMaxRepeatedOutputs.isSome ∨ detector.hardMaxRepeatedOutputs.isSome

variable {detector hash}

/-! ### Runs of equal keys -/

variable {key : String}

/-- The list starts with `m` copies exactly when its first equal entries are as many. -/
theorem le_length_takeWhile {m : Nat} {entries : List String} :
    m ≤ (entries.takeWhile (· = key)).length ↔ List.replicate m key <+: entries := by
  induction entries generalizing m with
  | nil => simp
  | cons entry entries ih =>
    cases m with
    | zero => simp
    | succ m =>
      rw [List.replicate_succ, List.takeWhile_cons]
      by_cases hentry : entry = key
      · subst hentry
        simp [ih]
      · simp [hentry, List.cons_prefix_cons, Ne.symm hentry]

theorem le_countConsecutiveTail {m : Nat} {history : List String} :
    m ≤ countConsecutiveTail key history ↔ List.replicate m key <:+ history := by
  unfold countConsecutiveTail
  rw [le_length_takeWhile, ← List.reverse_prefix, List.reverse_replicate]

theorem replicate_suffix_concat {m : Nat} {entries : List String} :
    List.replicate (m + 1) key <:+ entries ++ [key] ↔ List.replicate m key <:+ entries := by
  rw [List.replicate_succ', ← List.reverse_prefix, List.reverse_append, List.reverse_append,
    List.reverse_singleton, List.singleton_append, List.singleton_append, List.cons_prefix_cons,
    List.reverse_prefix]
  simp only [true_and]

theorem appendBounded_drop {window : Nat} (hwindow : 0 < window) (entries : List String)
    (key : String) :
    appendBounded window (entries.drop (entries.length - window)) key =
      (entries ++ [key]).drop ((entries ++ [key]).length - window) := by
  have hlength : (entries.drop (entries.length - window)).length =
      entries.length - (entries.length - window) := List.length_drop
  unfold appendBounded
  rw [List.drop_append_of_le_length (by omega), List.drop_drop, List.length_append,
    List.length_singleton, List.drop_append_of_le_length (by omega), hlength]
  congr 2
  omega

theorem replicate_suffix_drop {m window : Nat} (h : m ≤ window) (entries : List String) :
    List.replicate m key <:+ entries.drop (entries.length - window) ↔
      List.replicate m key <:+ entries := by
  refine ⟨fun hsuffix => hsuffix.trans (List.drop_suffix _ _), fun hsuffix => ?_⟩
  refine List.suffix_of_suffix_length_le hsuffix (List.drop_suffix _ _) ?_
  have hlength := hsuffix.length_le
  rw [List.length_replicate] at hlength ⊢
  rw [List.length_drop]
  omega

variable {hooks : List ToolHook}

theorem stateAfter_concat (hook : ToolHook) :
    detector.stateAfter hash (hooks ++ [hook]) =
      (detector.runHook hash (detector.stateAfter hash hooks) hook).2 := by
  unfold stateAfter
  rw [List.foldl_append]
  rfl

theorem callHistory_stateAfter (hooks : List ToolHook) :
    (detector.stateAfter hash hooks).callHistory = (detector.recordedKeys hash hooks).drop
      ((detector.recordedKeys hash hooks).length - detector.window) := by
  have hwindow : 0 < detector.window := by
    have htwo := detector.two_le
    have hle := detector.le_window
    omega
  induction hooks using List.reverseRecOn with
  | nil => simp [stateAfter, recordedKeys]
  | append_singleton hooks hook ih =>
    have hkeys : detector.recordedKeys hash (hooks ++ [hook]) =
        detector.recordedKeys hash hooks ++ (detector.recordedKey hash hook).toList := by
      unfold recordedKeys
      rw [List.filterMap_append]
      cases h : detector.recordedKey hash hook <;> simp [h]
    rw [stateAfter_concat, hkeys]
    cases hook with
    | after ctx =>
      have hsame : (detector.afterToolCall hash ctx (detector.stateAfter hash hooks)).2.callHistory =
          (detector.stateAfter hash hooks).callHistory := by
        unfold afterToolCall countOutput uncount
        split
        · rfl
        · cases ctx.toolResult with
          | none => rfl
          | some result =>
            simp only
            split
            · rfl
            · simp only
              split
              · split <;> rfl
              · rfl
      simp only [runHook, recordedKey, Option.toList_none, List.append_nil]
      exact hsame.trans ih
    | before ctx =>
      simp only [runHook, beforeToolCall, recordedKey]
      cases hcall : ctx.toolCall with
      | none => simpa using ih
      | some call =>
        by_cases hskip : detector.skips ctx = true
        · simpa [hskip] using ih
        · simp only [hskip, Bool.false_eq_true, if_false, Option.map_some, Option.toList_some]
          rw [← appendBounded_drop hwindow, ← ih]
          split <;> rfl

/-! ### The order of hooks -/

end LoopDetection

def ToolHook.ref : ToolHook → Nat
  | .before ctx | .after ctx => (ctx.toolCall.map CallObject.ref).getD 0

def ToolHook.place : ToolHook → Nat
  | .before ctx => 2 * (ToolHook.before ctx).ref
  | .after ctx => 2 * (ToolHook.after ctx).ref + 1

def ToolHook.Carries : ToolHook → Prop
  | .before ctx => ctx.toolCall.isSome
  | .after ctx => ctx.toolCall.isSome ∧ ctx.toolResult.isSome

/-- Hooks call by call, none of them before the place `low`: a call is announced once, and then its results
come in. -/
def Sequential : (low : Nat) → List ToolHook → Prop
  | _, [] => True
  | low, hook :: hooks => low ≤ hook.place ∧ Sequential (2 * hook.ref + 1) hooks

variable {low : Nat}

theorem Sequential.take {hooks : List ToolHook} (h : Sequential low hooks) (n : Nat) :
    Sequential low (hooks.take n) := by
  induction hooks generalizing low n with
  | nil =>
    rw [List.take_nil]
    exact h
  | cons hook hooks ih =>
    cases n with
    | zero => trivial
    | succ n => exact ⟨h.1, ih h.2 n⟩

theorem Sequential.append_results {low ref : Nat} (hlow : low ≤ 2 * ref + 1) {rest : List ToolHook}
    (results : List ToolOutput) (call : CallObject) (hcall : call.ref = ref) (internal : Bool)
    (hrest : ∀ low' ≤ 2 * ref + 1, Sequential low' rest) :
    Sequential low ((results.map fun result =>
      .after { toolCall := call, toolResult := result, toolIsInternal := internal }) ++ rest) := by
  induction results generalizing low with
  | nil => exact hrest low hlow
  | cons result results ih =>
    refine ⟨?_, ?_⟩
    · show low ≤ 2 * call.ref + 1
      rw [hcall]
      exact hlow
    · show Sequential (2 * call.ref + 1) _
      rw [hcall]
      exact ih le_rfl

theorem sequential_hooksFrom (calls : List ModelCall) {low ref : Nat} (hlow : low ≤ 2 * ref) :
    Sequential low (hooksFrom ref calls) := by
  induction calls generalizing low ref with
  | nil => trivial
  | cons call calls ih =>
    have hrest : ∀ low' ≤ 2 * ref + 1, Sequential low' (hooksFrom (ref + 1) calls) :=
      fun low' hlow' => ih (by omega)
    have hresults : ∀ low' ≤ 2 * ref + 1, Sequential low' ((call.results.map fun result =>
        .after { toolCall := call.object ref, toolResult := result, toolIsInternal := call.internal }) ++
          hooksFrom (ref + 1) calls) := fun low' hlow' =>
      Sequential.append_results hlow' call.results (call.object ref) rfl call.internal hrest
    unfold hooksFrom ModelCall.hooks
    rw [List.append_assoc]
    split
    · exact ⟨hlow, hresults _ le_rfl⟩
    · exact hresults low (by omega)

namespace LoopDetection

variable {detector : LoopDetection} {hash : String → String} {hooks : List ToolHook}

/-! ### Counts -/

theorem outputCount_setOutputCount (state : LoopDetectionRunState) (key : String) (count : ℤ)
    (k : String) :
    (state.setOutputCount key count).outputCount k = if k = key then count else state.outputCount k := by
  unfold LoopDetectionRunState.outputCount LoopDetectionRunState.setOutputCount
  simp only [lookup_eq_find?, find?_upsert]
  by_cases hk : k = key
  · subst hk
    simp
  · rw [if_neg hk, if_neg (Ne.symm hk)]

/-- The counts agree with the latest outputs of the calls so far, and the call counted last is the one
whose results may still come in. -/
structure CountInv (detector : LoopDetection) (hash : String → String) (low : Nat)
    (hooks : List ToolHook) (state : LoopDetectionRunState) : Prop where
  calls : ((detector.latestOutputs hash hooks).map Prod.fst).Nodup
  past : ∀ out ∈ detector.latestOutputs hash hooks, 2 * out.1 + 1 ≤ low
  counts : ∀ key, state.outputCount key = detector.callsWithOutput hash hooks key
  counted : ∀ call key, state.countedCall = some (call, key) →
    (call.ref, key) ∈ detector.latestOutputs hash hooks
  current : ∀ out ∈ detector.latestOutputs hash hooks, 2 * out.1 + 1 = low →
    ∃ call, call.ref = out.1 ∧ state.countedCall = some (call, out.2)

theorem latestOutputs_concat (hook : ToolHook) :
    detector.latestOutputs hash (hooks ++ [hook]) =
      match detector.countedOutput hash hook with
      | none => detector.latestOutputs hash hooks
      | some out => upsert Prod.fst out (detector.latestOutputs hash hooks) := by
  unfold latestOutputs
  rw [List.filterMap_append, List.foldl_append]
  cases h : detector.countedOutput hash hook <;> simp [h]

variable {hook : ToolHook}

theorem CountInv.skip {low low' : Nat} {state state' : LoopDetectionRunState}
    (h : CountInv detector hash low hooks state) (hhook : detector.countedOutput hash hook = none)
    (hlow : low ≤ low') (hcounts : ∀ key, state'.outputCount key = state.outputCount key)
    (hcounted : state'.countedCall = state.countedCall ∨ state'.countedCall = none ∧ low < low') :
    CountInv detector hash low' (hooks ++ [hook]) state' := by
  have houts : detector.latestOutputs hash (hooks ++ [hook]) = detector.latestOutputs hash hooks := by
    rw [latestOutputs_concat, hhook]
  refine ⟨?_, ?_, fun key => ?_, fun call key hkey => ?_, fun out hout hcurrent => ?_⟩
  · rw [houts]
    exact h.calls
  · rw [houts]
    exact fun out hout => (h.past out hout).trans hlow
  · unfold callsWithOutput
    rw [houts, hcounts, h.counts]
    rfl
  · rw [houts]
    rcases hcounted with hsame | ⟨hnone, -⟩
    · exact h.counted call key (hsame ▸ hkey)
    · rw [hnone] at hkey
      cases hkey
  · rw [houts] at hout
    have hpast := h.past out hout
    rcases hcounted with hsame | ⟨-, hlt⟩
    · rw [hsame]
      exact h.current out hout (by omega)
    · omega

variable {state : LoopDetectionRunState} {call : CallObject}

theorem CountInv.uncount (h : CountInv detector hash low hooks state) (hlow : low ≤ 2 * call.ref + 1) (key : String) :
    (LoopDetection.uncount (some call) state).outputCount key +
      (((detector.latestOutputs hash hooks).find? fun out => out.1 = call.ref).map
        fun out => if out.2 = key then 1 else 0).getD (0 : ℕ) = state.outputCount key := by
  cases hold : (detector.latestOutputs hash hooks).find? fun out => out.1 = call.ref with
  | none =>
    have hnone : LoopDetection.uncount (some call) state = state := by
      unfold LoopDetection.uncount
      split
      next counted key' call' hcounted hcall =>
        cases hcall
        rw [if_neg]
        intro href
        have hmem := h.counted _ _ hcounted
        exact List.find?_eq_none.mp hold _ hmem (decide_eq_true href)
      · rfl
    rw [hnone]
    simp
  | some out =>
    have hmem := List.mem_of_find?_eq_some hold
    have href : out.1 = call.ref := by simpa using List.find?_some hold
    have hpast := h.past out hmem
    obtain ⟨counted, hsame, hcounted⟩ := h.current out hmem (by omega)
    have huncount : LoopDetection.uncount (some call) state =
        state.setOutputCount out.2 (state.outputCount out.2 - 1) := by
      unfold LoopDetection.uncount
      rw [hcounted]
      exact if_pos (hsame.trans href)
    rw [huncount, outputCount_setOutputCount, Option.map_some, Option.getD_some]
    by_cases hkey : key = out.2
    · rw [if_pos hkey, if_pos hkey.symm, hkey]
      simp
    · rw [if_neg hkey, if_neg (Ne.symm hkey)]
      simp

theorem CountInv.countOutput {key : String} (h : CountInv detector hash low hooks state)
    (hlow : low ≤ 2 * call.ref + 1) (hhook : detector.countedOutput hash hook = some (call.ref, key)) :
    CountInv detector hash (2 * call.ref + 1) (hooks ++ [hook])
      (LoopDetection.countOutput (some call) key state).2 := by
  have houts : detector.latestOutputs hash (hooks ++ [hook]) =
      upsert Prod.fst (call.ref, key) (detector.latestOutputs hash hooks) := by
    rw [latestOutputs_concat, hhook]
  refine ⟨?_, fun out hout => ?_, fun k => ?_, fun call' key' hkey => ?_, fun out hout hcurrent => ?_⟩
  · rw [houts]
    exact nodup_map_key_upsert h.calls
  · rw [houts] at hout
    rcases mem_upsert.mp hout with rfl | ⟨hmem, -⟩
    · exact le_rfl
    · exact (h.past out hmem).trans hlow
  · have huncount := h.uncount hlow k
    have hcount := h.counts k
    have hupsert : (upsert Prod.fst (call.ref, key) (detector.latestOutputs hash hooks)).countP
          (fun out => out.2 = k) +
        (((detector.latestOutputs hash hooks).find? fun out => out.1 = call.ref).map
          fun out => if decide (out.2 = k) then 1 else 0).getD 0 =
        (detector.latestOutputs hash hooks).countP (fun out => out.2 = k) +
          if decide (key = k) then 1 else 0 := countP_upsert _ h.calls
    simp only [decide_eq_true_eq] at hupsert
    unfold callsWithOutput at hcount ⊢
    rw [houts]
    show ((LoopDetection.uncount (some call) state).setOutputCount key _).outputCount k = _
    rw [outputCount_setOutputCount]
    by_cases hk : k = key
    · subst hk
      rw [if_pos rfl] at hupsert ⊢
      omega
    · rw [if_neg (Ne.symm hk)] at hupsert
      rw [if_neg hk]
      omega
  · cases hkey
    rw [houts]
    exact mem_upsert.mpr (.inl rfl)
  · rw [houts] at hout
    rcases mem_upsert.mp hout with rfl | ⟨hmem, hne⟩
    · exact ⟨call, rfl, rfl⟩
    · exact absurd (by omega) hne

theorem CountsOutputs.not_isNone (h : detector.CountsOutputs) :
    ¬(detector.softMaxRepeatedOutputs.isNone ∧ detector.hardMaxRepeatedOutputs.isNone) := by
  rintro ⟨hsoft, hhard⟩
  rcases h with h | h
  · simp [Option.isNone_iff_eq_none.mp hsoft] at h
  · simp [Option.isNone_iff_eq_none.mp hhard] at h

theorem CountInv.step (h : CountInv detector hash low hooks state) (hcounts : detector.CountsOutputs)
    (hcarries : hook.Carries) (hlow : low ≤ hook.place) :
    CountInv detector hash (2 * hook.ref + 1) (hooks ++ [hook]) (detector.runHook hash state hook).2 := by
  cases hook with
  | before ctx =>
    obtain ⟨call, hcall⟩ := Option.isSome_iff_exists.mp hcarries
    have hplace : low < 2 * (ToolHook.before ctx).ref + 1 := Nat.lt_succ_of_le hlow
    by_cases hskip : detector.skips ctx = true
    · have hstate : (detector.runHook hash state (.before ctx)).2 = state := by
        simp [runHook, beforeToolCall, hcall, hskip]
      rw [hstate]
      exact h.skip rfl hplace.le (fun _ => rfl) (.inl rfl)
    · refine h.skip rfl hplace.le (fun key => ?_) (.inr ⟨?_, hplace⟩)
      · simp only [runHook, beforeToolCall, hcall, hskip, Bool.false_eq_true, if_false]
        split <;> rfl
      · simp only [runHook, beforeToolCall, hcall, hskip, Bool.false_eq_true, if_false]
        split <;> rfl
  | after ctx =>
    obtain ⟨hsomeCall, hsomeResult⟩ := hcarries
    obtain ⟨call, hcall⟩ := Option.isSome_iff_exists.mp hsomeCall
    obtain ⟨result, hresult⟩ := Option.isSome_iff_exists.mp hsomeResult
    have href : (ToolHook.after ctx).ref = call.ref := by simp [ToolHook.ref, hcall]
    have hthresholds := hcounts.not_isNone
    have hle : low ≤ 2 * call.ref + 1 := href ▸ hlow
    rw [href]
    by_cases hskip : detector.skips ctx = true
    · have hstate : (detector.runHook hash state (.after ctx)).2 = state := by
        simp [runHook, afterToolCall, hresult, hskip]
      rw [hstate]
      exact h.skip (by simp [countedOutput, hskip]) hle (fun _ => rfl) (.inl rfl)
    · have hstate : (detector.runHook hash state (.after ctx)).2 =
          (LoopDetection.countOutput (some call) (makeOutputKey hash result.toolName result.output)
            state).2 := by
        simp only [runHook, afterToolCall, if_neg hthresholds, hresult, hskip, Bool.false_eq_true,
          if_false, hcall]
      rw [hstate]
      exact h.countOutput hle (by simp [countedOutput, hskip, hcall, hresult])

theorem CountInv.run {rest : List ToolHook}
    (h : CountInv detector hash low hooks (detector.stateAfter hash hooks))
    (hcounts : detector.CountsOutputs) (hcarries : ∀ hook ∈ rest, hook.Carries)
    (hseq : Sequential low rest) :
    ∃ low', CountInv detector hash low' (hooks ++ rest) (detector.stateAfter hash (hooks ++ rest)) := by
  induction rest generalizing low hooks with
  | nil =>
    rw [List.append_nil]
    exact ⟨low, h⟩
  | cons hook rest ih =>
    have hstep := h.step hcounts (hcarries hook List.mem_cons_self) hseq.1
    rw [← stateAfter_concat] at hstep
    rw [List.append_cons]
    exact ih hstep (fun later hlater => hcarries later (List.mem_cons_of_mem _ hlater)) hseq.2

theorem carries_hooksFrom (calls : List ModelCall) (ref : Nat) :
    ∀ hook ∈ hooksFrom ref calls, hook.Carries := by
  induction calls generalizing ref with
  | nil => exact fun hook hhook => absurd hhook List.not_mem_nil
  | cons call calls ih =>
    intro hook hhook
    unfold hooksFrom ModelCall.hooks at hhook
    rcases List.mem_append.mp hhook with hown | hlater
    · rcases List.mem_append.mp hown with hbefore | hafter
      · split at hbefore
        · cases List.mem_singleton.mp hbefore
          rfl
        · cases hbefore
      · obtain ⟨result, -, rfl⟩ := List.mem_map.mp hafter
        exact ⟨rfl, rfl⟩
    · exact ih (ref + 1) hook hlater

theorem counts_of_run (hcounts : detector.CountsOutputs) (calls : List ModelCall) (n : Nat)
    (key : String) :
    (detector.stateAfter hash ((hooksFrom 0 calls).take n)).outputCount key =
      detector.callsWithOutput hash ((hooksFrom 0 calls).take n) key := by
  have hstart : CountInv detector hash 0 [] (detector.stateAfter hash []) :=
    ⟨List.nodup_nil, fun out hout => absurd hout List.not_mem_nil, fun _ => rfl,
      fun call key hkey => (by cases hkey), fun out hout => absurd hout List.not_mem_nil⟩
  obtain ⟨low, hrun⟩ := hstart.run hcounts
    (fun hook hhook => carries_hooksFrom calls 0 hook (List.mem_of_mem_take hhook))
    ((sequential_hooksFrom calls (le_refl (2 * 0))).take n)
  exact hrun.counts key

/-! ### Decisions -/

theorem beforeToolCall_aborts_iff {ctx : ToolHookContext}
    (hcall : ctx.toolCall = some call) (hskip : detector.skips ctx = false) :
    (detector.beforeToolCall hash ctx (detector.stateAfter hash hooks)).1.action = .abortRun ↔
      List.replicate (detector.maxRepeatedCalls - 1) (makeKey hash call.toolName call.arguments) <:+
        detector.recordedKeys hash hooks := by
  have htwo := detector.two_le
  have hle := detector.le_window
  simp only [beforeToolCall, hcall, hskip, Bool.false_eq_true, if_false]
  rw [callHistory_stateAfter, appendBounded_drop (by omega)]
  generalize makeKey hash call.toolName call.arguments = key
  have htail : detector.maxRepeatedCalls ≤ countConsecutiveTail key
        ((detector.recordedKeys hash hooks ++ [key]).drop
          ((detector.recordedKeys hash hooks ++ [key]).length - detector.window)) ↔
      List.replicate (detector.maxRepeatedCalls - 1) key <:+ detector.recordedKeys hash hooks := by
    rw [le_countConsecutiveTail, replicate_suffix_drop hle]
    have hsucc : detector.maxRepeatedCalls = detector.maxRepeatedCalls - 1 + 1 := by omega
    rw [hsucc]
    exact replicate_suffix_concat
  rw [← htail]
  split
  next h => exact iff_of_true rfl h
  next h => exact iff_of_false (fun haction => by cases haction) h

theorem decideOutput_spec (result : ToolOutput) (key : String) (count : ℤ) :
    ((detector.decideOutput result key count).action = .abortRun ↔
      ∃ hard ∈ detector.hardMaxRepeatedOutputs, (hard : ℤ) ≤ count) ∧
    ((detector.decideOutput result key count).transform.isSome ↔
      (¬∃ hard ∈ detector.hardMaxRepeatedOutputs, (hard : ℤ) ≤ count) ∧
        ∃ soft ∈ detector.softMaxRepeatedOutputs, (soft : ℤ) ≤ count) := by
  unfold decideOutput
  cases hhard : detector.hardMaxRepeatedOutputs.filter fun hard : Nat => (hard : ℤ) ≤ count with
  | some hard =>
    obtain ⟨hmem, hle⟩ := Option.filter_eq_some_iff.mp hhard
    have hexists : ∃ hard ∈ detector.hardMaxRepeatedOutputs, (hard : ℤ) ≤ count :=
      ⟨hard, hmem, of_decide_eq_true hle⟩
    exact ⟨iff_of_true rfl hexists, iff_of_false (by simp) fun h => h.1 hexists⟩
  | none =>
    have hnone : ¬∃ hard ∈ detector.hardMaxRepeatedOutputs, (hard : ℤ) ≤ count := by
      rintro ⟨hard, hmem, hle⟩
      exact (Option.filter_eq_none_iff.mp hhard hard hmem) (decide_eq_true hle)
    cases hsoft : detector.softMaxRepeatedOutputs.filter fun soft : Nat => (soft : ℤ) ≤ count with
    | some soft =>
      obtain ⟨hmem, hle⟩ := Option.filter_eq_some_iff.mp hsoft
      exact ⟨iff_of_false (by simp [MiddlewareDecision.continueWith]) hnone,
        iff_of_true rfl ⟨hnone, soft, hmem, of_decide_eq_true hle⟩⟩
    | none =>
      refine ⟨iff_of_false (by simp [MiddlewareDecision.continueWith]) hnone,
        iff_of_false (by simp [MiddlewareDecision.continueWith]) fun h => ?_⟩
      obtain ⟨-, soft, hmem, hle⟩ := h
      exact (Option.filter_eq_none_iff.mp hsoft soft hmem) (decide_eq_true hle)

theorem afterToolCall_eq_decideOutput {ctx : ToolHookContext} {result : ToolOutput}
    (hresult : ctx.toolResult = some result) (hskip : detector.skips ctx = false)
    (hcounts : detector.CountsOutputs) (state : LoopDetectionRunState) :
    (detector.runHook hash state (.after ctx)).1 =
      detector.decideOutput result (makeOutputKey hash result.toolName result.output)
        ((detector.runHook hash state (.after ctx)).2.outputCount
          (makeOutputKey hash result.toolName result.output)) := by
  have hthresholds : ¬(detector.softMaxRepeatedOutputs.isNone ∧
      detector.hardMaxRepeatedOutputs.isNone) := hcounts.not_isNone
  simp only [runHook, afterToolCall, if_neg hthresholds, hresult, hskip, Bool.false_eq_true, if_false]
  congr 1
  show _ = ((LoopDetection.uncount ctx.toolCall state).setOutputCount _ _).outputCount _
  rw [outputCount_setOutputCount, if_pos rfl]
  rfl

theorem afterToolCall_of_not_countsOutputs (ctx : ToolHookContext) (hcounts : ¬detector.CountsOutputs)
    (state : LoopDetectionRunState) :
    (detector.runHook hash state (.after ctx)).1 = .continueWith [] none := by
  have hthresholds : detector.softMaxRepeatedOutputs.isNone ∧
      detector.hardMaxRepeatedOutputs.isNone := by
    simpa [CountsOutputs] using hcounts
  simp only [runHook, afterToolCall, if_pos hthresholds]

/-- In every run of the model's calls, with results that may come in again for a retried call: a call is
stopped exactly when it and the calls recorded before it make a run of equal keys, the counts are those of
the calls' latest outputs once a threshold is set, and the thresholds judge that count. -/
theorem counts_the_calls_of_a_run (detector : LoopDetection) (hash : String → String)
    (calls : List ModelCall) (n : Nat) :
    let hooks := (hooksFrom 0 calls).take n
    let state := detector.stateAfter hash hooks
    (∀ ctx call, (hooksFrom 0 calls)[n]? = some (.before ctx) → ctx.toolCall = some call →
      ((detector.runHook hash state (.before ctx)).1.action = .abortRun ↔
        detector.skips ctx = false ∧
          List.replicate (detector.maxRepeatedCalls - 1) (makeKey hash call.toolName call.arguments) <:+
            detector.recordedKeys hash hooks)) ∧
    (detector.CountsOutputs → ∀ key, state.outputCount key = detector.callsWithOutput hash hooks key) ∧
    ∀ ctx result, (hooksFrom 0 calls)[n]? = some (.after ctx) → ctx.toolResult = some result →
      let decision := (detector.runHook hash state (.after ctx)).1
      let count : ℤ := detector.callsWithOutput hash ((hooksFrom 0 calls).take (n + 1))
        (makeOutputKey hash result.toolName result.output)
      (decision.action = .abortRun ↔
        detector.skips ctx = false ∧ ∃ hard ∈ detector.hardMaxRepeatedOutputs, (hard : ℤ) ≤ count) ∧
      (decision.transform.isSome ↔
        detector.skips ctx = false ∧ (¬∃ hard ∈ detector.hardMaxRepeatedOutputs, (hard : ℤ) ≤ count) ∧
          ∃ soft ∈ detector.softMaxRepeatedOutputs, (soft : ℤ) ≤ count) := by
  refine ⟨fun ctx call _ hcall => ?_, fun hcounts key => counts_of_run hcounts calls n key,
    fun ctx result hhook hresult => ?_⟩
  · by_cases hskip : detector.skips ctx = true
    · refine iff_of_false ?_ fun h => by simp [hskip] at h
      simp [runHook, beforeToolCall, hcall, hskip, MiddlewareDecision.continueWith]
    · have hskip : detector.skips ctx = false := by simpa using hskip
      rw [and_iff_right hskip]
      exact beforeToolCall_aborts_iff hcall hskip
  · simp only
    by_cases hskip : detector.skips ctx = true
    · have hcontinue : (detector.runHook hash (detector.stateAfter hash ((hooksFrom 0 calls).take n))
          (.after ctx)).1 = .continueWith [] none := by
        simp [runHook, afterToolCall, hresult, hskip]
      rw [hcontinue, hskip]
      simp [MiddlewareDecision.continueWith]
    · have hskip : detector.skips ctx = false := by simpa using hskip
      by_cases hcounts : detector.CountsOutputs
      · rw [afterToolCall_eq_decideOutput hresult hskip hcounts, ← stateAfter_concat,
          and_iff_right hskip, and_iff_right hskip]
        have htake : (hooksFrom 0 calls).take n ++ [.after ctx] = (hooksFrom 0 calls).take (n + 1) := by
          rw [List.take_add_one, hhook, Option.toList_some]
        rw [htake, counts_of_run hcounts]
        exact decideOutput_spec result _ _
      · rw [afterToolCall_of_not_countsOutputs ctx hcounts]
        have hnone : detector.softMaxRepeatedOutputs = none ∧
            detector.hardMaxRepeatedOutputs = none := by
          simpa [CountsOutputs] using hcounts
        simp [hnone, MiddlewareDecision.continueWith]

/-- Without thresholds nothing is counted. -/
theorem default_detector_counts_nothing :
    ¬∀ (detector : LoopDetection) (hash : String → String) (calls : List ModelCall) (n : Nat)
      (key : String),
      (detector.stateAfter hash ((hooksFrom 0 calls).take n)).outputCount key =
        detector.callsWithOutput hash ((hooksFrom 0 calls).take n) key := by
  intro h
  have hsearch := h {} (fun text => text) [⟨"search", "{}", false, true, [⟨"search", .success, "none", []⟩]⟩] 2
    "search:none"
  revert hsearch
  decide

end LoopDetection

end VidbyteSdk.Middleware

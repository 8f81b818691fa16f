import VidbyteSdk.Lib.Substitution
import VidbyteSdk.Lib.Words

/-!
# The lines of a text

`str.splitlines`, which breaks a text at more than the newline, and `"\n".join` of its lines.
-/

namespace VidbyteSdk.Lib

/-- `text.splitlines()`; a return and the newline behind it are one break. -/
def splitlines : Text → List Text
  | [] => []
  | c :: rest =>
    if c.isLineBreak then
      match rest with
      | [] => [[]]
      | d :: rest => if c = carriageReturn ∧ d = newline then [] :: splitlines rest else [] :: splitlines (d :: rest)
    else
      match splitlines rest with
      | [] => [[c]]
      | line :: later => (c :: line) :: later

attribute [local grind =] splitlines

abbrev Breaks (c : CodePoint) : Prop := c.isLineBreak

def IsLine (line : Text) : Prop := ∀ c ∈ line, ¬Breaks c

structure LineForm (text : Text) : Prop where
  breaks : ∀ c ∈ text, Breaks c → c = newline
  last : text.getLast? ≠ some newline

variable {line text rest : Text} {c : CodePoint}

theorem isLine_nil : IsLine [] := fun _ hc => by cases hc

theorem isLine_cons : IsLine (c :: line) ↔ ¬Breaks c ∧ IsLine line := List.forall_mem_cons

theorem breaks_newline : Breaks newline := by decide

theorem newline_ne_carriageReturn : newline ≠ carriageReturn := by decide

theorem IsLine.newline_notMem (h : IsLine line) : newline ∉ line := fun hmem => h newline hmem breaks_newline

/-! ### Splitting -/

def consFirst (c : CodePoint) : List Text → List Text
  | [] => [[c]]
  | line :: later => (c :: line) :: later

theorem splitlines_plain (h : ¬Breaks c) (rest : Text) : splitlines (c :: rest) = consFirst c (splitlines rest) := by
  rw [splitlines.eq_def]
  simp only [if_neg h]
  rfl

theorem splitlines_returnNewline (rest : Text) :
    splitlines (carriageReturn :: newline :: rest) = [] :: splitlines rest := by
  have h : Breaks carriageReturn := by decide
  rw [splitlines.eq_def]
  simp only [if_pos h, and_self, if_true]

theorem splitlines_break (h : Breaks c) (hrest : c = carriageReturn → rest.head? ≠ some newline) :
    splitlines (c :: rest) = [] :: splitlines rest := by
  rw [splitlines.eq_def]
  cases rest with
  | nil => simp only [if_pos h, splitlines]
  | cons d rest =>
    have hpair : ¬(c = carriageReturn ∧ d = newline) := fun hpair => hrest hpair.1 (congrArg some hpair.2)
    simp only [if_pos h, if_neg hpair]

theorem splitlines_induction {P : Text → Prop} (nil : P []) (plain : ∀ c rest, ¬Breaks c → P rest → P (c :: rest))
    (returnNewline : ∀ rest, P rest → P (carriageReturn :: newline :: rest))
    (single : ∀ (c : CodePoint) rest, Breaks c → (c = carriageReturn → rest.head? ≠ some newline) → P rest →
      P (c :: rest)) (text : Text) : P text := by
  fun_induction splitlines text with
  | case1 => exact nil
  | case2 c hc => exact single c [] hc (by simp) nil
  | case3 c hc d rest hpair ih =>
    obtain ⟨rfl, rfl⟩ := hpair
    exact returnNewline rest ih
  | case4 c hc d rest hpair ih =>
    exact single c (d :: rest) hc (fun hreturn hhead => hpair ⟨hreturn, Option.some.inj hhead⟩) ih
  | case5 c rest hc _ ih => exact plain c rest hc ih
  | case6 c rest hc line later _ ih => exact plain c rest hc ih

theorem splitlines_newline (rest : Text) : splitlines (newline :: rest) = [] :: splitlines rest :=
  splitlines_break breaks_newline fun h => absurd h newline_ne_carriageReturn

theorem isLine_of_mem_splitlines (h : line ∈ splitlines text) : IsLine line := by
  induction text using splitlines_induction generalizing line with
  | nil => cases h
  | plain c rest hc ih =>
    rw [splitlines_plain hc] at h
    cases hrest : splitlines rest with
    | nil =>
      rw [hrest, consFirst, List.mem_singleton] at h
      exact h ▸ isLine_cons.mpr ⟨hc, isLine_nil⟩
    | cons first later =>
      rw [hrest] at h ih
      rcases List.mem_cons.mp h with rfl | hlater
      · exact isLine_cons.mpr ⟨hc, ih List.mem_cons_self⟩
      · exact ih (List.mem_cons_of_mem _ hlater)
  | returnNewline rest ih =>
    rw [splitlines_returnNewline] at h
    rcases List.mem_cons.mp h with rfl | hlater
    · exact isLine_nil
    · exact ih hlater
  | single c rest hc hrest ih =>
    rw [splitlines_break hc hrest] at h
    rcases List.mem_cons.mp h with rfl | hlater
    · exact isLine_nil
    · exact ih hlater

theorem splitlines_line (h : IsLine line) : splitlines line = if line = [] then [] else [line] := by
  induction line with
  | nil => rfl
  | cons c line ih =>
    obtain ⟨hc, hline⟩ := isLine_cons.mp h
    rw [splitlines_plain hc, ih hline]
    by_cases hempty : line = []
    · simp [hempty, consFirst]
    · simp [hempty, consFirst]

theorem splitlines_append_newline (h : IsLine line) (rest : Text) :
    splitlines (line ++ newline :: rest) = line :: splitlines rest := by
  induction line with
  | nil => exact splitlines_newline rest
  | cons c line ih =>
    obtain ⟨hc, hline⟩ := isLine_cons.mp h
    rw [List.cons_append, splitlines_plain hc, ih hline, consFirst]

variable {lines : List Text}

theorem splitlines_unlines (h : ∀ line ∈ lines, IsLine line) (rest : Text) :
    splitlines (unlines lines ++ rest) = lines ++ splitlines rest := by
  induction lines with
  | nil => rfl
  | cons line lines ih =>
    obtain ⟨hline, hlines⟩ := List.forall_mem_cons.mp h
    rw [unlines_cons, List.append_assoc, List.cons_append, splitlines_append_newline hline, ih hlines, List.cons_append]

theorem splitlines_eq_nil_iff : splitlines text = [] ↔ text = [] := by
  refine ⟨fun h => ?_, fun h => h ▸ rfl⟩
  induction text using splitlines_induction with
  | nil => rfl
  | plain c rest hc ih =>
    rw [splitlines_plain hc] at h
    cases hrest : splitlines rest <;> rw [hrest, consFirst] at h <;> cases h
  | returnNewline rest ih =>
    rw [splitlines_returnNewline] at h
    cases h
  | single c rest hc hrest ih =>
    rw [splitlines_break hc hrest] at h
    cases h

theorem consFirst_append (h : lines ≠ []) (c : CodePoint) (later : List Text) :
    consFirst c (lines ++ later) = consFirst c lines ++ later := by
  obtain ⟨line, lines, rfl⟩ := List.exists_cons_of_ne_nil h
  rfl

theorem splitlines_break_append (h : Breaks c) (hrest : c = carriageReturn → text.head? ≠ some newline)
    (htext : text ≠ []) (rest : Text) : splitlines (c :: (text ++ rest)) = [] :: splitlines (text ++ rest) := by
  refine splitlines_break h fun hreturn hhead => hrest hreturn ?_
  obtain ⟨first, text, rfl⟩ := List.exists_cons_of_ne_nil htext
  exact hhead

theorem splitlines_split (text rest : Text) :
    splitlines (text ++ newline :: rest) = splitlines (text ++ [newline]) ++ splitlines rest := by
  induction text using splitlines_induction with
  | nil =>
    rw [List.nil_append, splitlines_newline]
    rfl
  | plain c text hc ih =>
    have hne : splitlines (text ++ [newline]) ≠ [] := mt splitlines_eq_nil_iff.mp (by simp)
    rw [List.cons_append, splitlines_plain hc, ih, List.cons_append, splitlines_plain hc, consFirst_append hne]
  | returnNewline text ih =>
    rw [List.cons_append, List.cons_append, splitlines_returnNewline, ih, List.cons_append, List.cons_append,
      splitlines_returnNewline, List.cons_append]
  | single c text hc htext ih =>
    by_cases hempty : text = []
    · rw [hempty]
      by_cases hreturn : c = carriageReturn
      · rw [hreturn]
        exact splitlines_returnNewline rest
      · rw [List.cons_append, List.cons_append, splitlines_break hc (absurd · hreturn),
          splitlines_break hc (absurd · hreturn), List.nil_append, List.nil_append, splitlines_newline]
        rfl
    · rw [List.cons_append, List.cons_append, splitlines_break_append hc htext hempty,
        splitlines_break_append hc htext hempty, ih, List.cons_append]

theorem prefix_splitlines_terminated (text : Text) : splitlines text <+: splitlines (text ++ [newline]) := by
  induction text using splitlines_induction with
  | nil => exact List.nil_prefix
  | plain c text hc ih =>
    rw [List.cons_append, splitlines_plain hc, splitlines_plain hc]
    by_cases hempty : text = []
    · rw [hempty]
      exact List.prefix_rfl
    · obtain ⟨later, hlater⟩ := ih
      rw [← hlater, consFirst_append (mt splitlines_eq_nil_iff.mp hempty)]
      exact List.prefix_append _ later
  | returnNewline text ih =>
    rw [List.cons_append, List.cons_append, splitlines_returnNewline, splitlines_returnNewline, List.prefix_cons_inj]
    exact ih
  | single c text hc htext ih =>
    by_cases hempty : text = []
    · rw [hempty, splitlines_break hc (by simp), List.cons_append]
      by_cases hreturn : c = carriageReturn
      · rw [hreturn]
        exact List.prefix_rfl
      · rw [splitlines_break hc (absurd · hreturn)]
        exact List.prefix_append [[]] _
    · rw [List.cons_append, splitlines_break_append hc htext hempty, splitlines_break hc htext, List.prefix_cons_inj]
      exact ih

theorem splitlines_unlines_texts (texts : List Text) :
    splitlines (unlines texts) = texts.flatMap fun text => splitlines (text ++ [newline]) := by
  induction texts with
  | nil => rfl
  | cons text texts ih => rw [unlines_cons, splitlines_split, ih, List.flatMap_cons]

theorem splitlines_cases (text : Text) : IsLine text ∨ ∃ line c breaks rest, IsLine line ∧ Breaks c ∧
    (∀ b ∈ breaks, Breaks b) ∧ text = line ++ c :: (breaks ++ rest) ∧ splitlines text = line :: splitlines rest := by
  induction text using splitlines_induction with
  | nil => exact Or.inl isLine_nil
  | plain c text hc ih =>
    rcases ih with hline | ⟨line, b, breaks, rest, hline, hb, hbreaks, rfl, hsplit⟩
    · exact Or.inl (isLine_cons.mpr ⟨hc, hline⟩)
    · refine Or.inr ⟨c :: line, b, breaks, rest, isLine_cons.mpr ⟨hc, hline⟩, hb, hbreaks, rfl, ?_⟩
      rw [splitlines_plain hc, hsplit, consFirst]
  | returnNewline rest ih =>
    exact Or.inr ⟨[], carriageReturn, [newline], rest, isLine_nil, by decide,
      by simpa using breaks_newline, rfl, splitlines_returnNewline rest⟩
  | single c rest hc hrest ih =>
    exact Or.inr ⟨[], c, [], rest, isLine_nil, hc, List.forall_mem_nil _, rfl, splitlines_break hc hrest⟩

theorem lines_induction {P : Text → Prop} (line : ∀ line, IsLine line → P line)
    (broken : ∀ line c breaks rest, IsLine line → Breaks c → (∀ b ∈ breaks, Breaks b) →
      splitlines (line ++ c :: (breaks ++ rest)) = line :: splitlines rest → P rest →
      P (line ++ c :: (breaks ++ rest))) (text : Text) : P text := by
  rcases splitlines_cases text with hline | ⟨first, c, breaks, rest, hfirst, hc, hbreaks, htext, hsplit⟩
  · exact line text hline
  · have hrest : rest.length < text.length := by
      rw [htext, List.length_append, List.length_cons, List.length_append]
      omega
    rw [htext] at hsplit ⊢
    exact broken first c breaks rest hfirst hc hbreaks hsplit (lines_induction line broken rest)
termination_by text.length

theorem infix_of_mem_splitlines (h : line ∈ splitlines text) : line <:+: text := by
  induction text using lines_induction with
  | line text htext =>
    rw [splitlines_line htext] at h
    split at h
    · cases h
    · rw [List.mem_singleton.mp h]
  | broken first c breaks rest hfirst hc hbreaks hsplit ih =>
    rw [hsplit] at h
    rcases List.mem_cons.mp h with rfl | hlater
    · exact (List.prefix_append line _).isInfix
    · refine (ih hlater).trans ?_
      rw [List.append_cons, ← List.append_assoc]
      exact (List.suffix_append _ rest).isInfix

theorem infix_of_mem_splitlines_terminated (hline : newline ∉ line) (h : line ∈ splitlines (text ++ [newline])) :
    line <:+: text := by
  rcases List.infix_concat_iff.mp (infix_of_mem_splitlines h) with hend | hstands
  · rcases List.suffix_concat_iff.mp hend with rfl | ⟨before, rfl, -⟩
    · exact List.nil_infix
    · exact absurd (List.mem_append_right before (List.mem_singleton_self newline)) hline
  · exact hstands

/-! ### Joining -/

theorem joinLines_append_singleton (lines : List Text) (line : Text) :
    joinLines (lines ++ [line]) = unlines lines ++ line := by
  induction lines with
  | nil => exact joinLines_singleton line
  | cons first lines ih =>
    have hfirst : joinLines (first :: (lines ++ [line])) = first ++ newline :: joinLines (lines ++ [line]) := by
      cases lines <;> exact joinLines_cons_cons ..
    rw [List.cons_append, hfirst, ih, unlines_cons, List.append_assoc, List.cons_append]

theorem length_le_joinLines (h : line ∈ lines) : line.length ≤ (joinLines lines).length := by
  obtain ⟨before, after, rfl⟩ := List.append_of_mem h
  rw [length_joinLines]
  simp only [List.map_append, List.map_cons, List.sum_append, List.sum_cons]
  omega

theorem joinLines_append_newline (h : lines ≠ []) : joinLines lines ++ [newline] = unlines lines := by
  rw [← List.dropLast_append_getLast h, joinLines_append_singleton, unlines_append, unlines_cons, List.append_assoc]
  rfl

theorem joinLines_inj {lines lines' : List Text} (h : ∀ line ∈ lines, IsLine line) (h' : ∀ line ∈ lines', IsLine line)
    (hne : lines ≠ []) (hne' : lines' ≠ []) (heq : joinLines lines = joinLines lines') : lines = lines' := by
  have hsplit : splitlines (unlines lines) = splitlines (unlines lines') := by
    rw [← joinLines_append_newline hne, ← joinLines_append_newline hne', heq]
  have hlines := splitlines_unlines h []
  have hlines' := splitlines_unlines h' []
  rw [List.append_nil] at hlines hlines'
  rw [hlines, hlines'] at hsplit
  exact List.append_cancel_right hsplit

theorem sublist_splitlines_joinLines (texts : List Text) :
    (splitlines (joinLines texts)).Sublist (texts.flatMap fun text => splitlines (text ++ [newline])) := by
  by_cases h : texts = []
  · rw [h]
    exact List.nil_sublist _
  · rw [← splitlines_unlines_texts, ← joinLines_append_newline h]
    exact (prefix_splitlines_terminated _).sublist

theorem splitlines_joinLines (h : ∀ other ∈ lines ++ [line], IsLine other) :
    splitlines (joinLines (lines ++ [line])) = lines ++ if line = [] then [] else [line] := by
  rw [joinLines_append_singleton, splitlines_unlines fun other hother => h other (List.mem_append_left _ hother),
    splitlines_line (h line (List.mem_append_right _ (List.mem_singleton_self line)))]

theorem splitlines_joinLines_sublist (h : ∀ line ∈ lines, IsLine line) :
    (splitlines (joinLines lines)).Sublist lines := by
  rcases List.eq_nil_or_concat lines with rfl | ⟨before, line, rfl⟩
  · exact List.nil_sublist []
  · rw [List.concat_eq_append] at *
    rw [splitlines_joinLines h]
    refine List.Sublist.append_left ?_ before
    split
    · exact List.nil_sublist _
    · exact List.Sublist.refl _

theorem lineForm_joinLines (h : ∀ line ∈ lines, IsLine line) :
    LineForm (joinLines lines) ↔ ¬(2 ≤ lines.length ∧ lines.getLast? = some []) := by
  rcases List.eq_nil_or_concat lines with rfl | ⟨before, line, rfl⟩
  · exact ⟨fun _ => by simp, fun _ => ⟨by simp, by simp⟩⟩
  rw [List.concat_eq_append, joinLines_append_singleton] at *
  constructor
  · rintro hform ⟨hlength, hlast⟩
    rw [List.getLast?_append_of_ne_nil _ (by simp), List.getLast?_singleton, Option.some_inj] at hlast
    rw [hlast, List.append_nil] at hform
    rcases wholeLines_unlines before with hempty | hnewline
    · cases before with
      | nil => simp at hlength
      | cons first before => simp at hempty
    · exact hform.last hnewline
  · intro hend
    refine ⟨fun c hc hbreak => ?_, fun hlast => ?_⟩
    · simp only [unlines, List.mem_append, List.mem_flatMap, List.mem_singleton] at hc
      rcases hc with ⟨other, hother, hc | hnewline⟩ | hc
      · exact absurd hbreak (h other (List.mem_append_left _ hother) c hc)
      · exact hnewline
      · exact absurd hbreak (h line (List.mem_append_right _ (List.mem_singleton_self line)) c hc)
    · by_cases hempty : line = []
      · cases before with
        | nil => simp [hempty] at hlast
        | cons first before => exact hend ⟨by simp, by rw [hempty, List.getLast?_append_of_ne_nil _ (by simp)]; rfl⟩
      · rw [List.getLast?_append_of_ne_nil _ hempty] at hlast
        exact (h line (List.mem_append_right _ (List.mem_singleton_self line))).newline_notMem
          (List.mem_of_getLast? hlast)

theorem exists_unlines (h : ∀ c ∈ text, Breaks c → c = newline) :
    ∃ lines line, text = unlines lines ++ line ∧ ∀ other ∈ lines ++ [line], IsLine other := by
  induction text with
  | nil => exact ⟨[], [], rfl, by simpa using isLine_nil⟩
  | cons c text ih =>
    obtain ⟨hc, htext⟩ := List.forall_mem_cons.mp h
    obtain ⟨lines, line, rfl, hlines⟩ := ih htext
    by_cases hnewline : c = newline
    · exact ⟨[] :: lines, line, by simp [hnewline], List.forall_mem_cons.mpr ⟨isLine_nil, hlines⟩⟩
    · have hplain : ¬Breaks c := fun hbreak => hnewline (hc hbreak)
      cases lines with
      | nil =>
        refine ⟨[], c :: line, rfl, ?_⟩
        simpa [isLine_cons, hplain] using hlines
      | cons first lines =>
        refine ⟨(c :: first) :: lines, line, by simp, ?_⟩
        obtain ⟨hfirst, hlater⟩ := List.forall_mem_cons.mp hlines
        exact List.forall_mem_cons.mpr ⟨isLine_cons.mpr ⟨hplain, hfirst⟩, hlater⟩

theorem joinLines_splitlines_iff : joinLines (splitlines text) = text ↔ LineForm text := by
  constructor
  · intro h
    have hlines : ∀ line ∈ splitlines text, IsLine line := fun line hline => isLine_of_mem_splitlines hline
    rw [← h, lineForm_joinLines hlines]
    rintro ⟨hlength, hlast⟩
    obtain ⟨before, hbefore⟩ := List.getLast?_eq_some_iff.mp hlast
    rw [hbefore] at h hlines hlength
    have hsplit := splitlines_joinLines hlines
    rw [h, hbefore] at hsplit
    simp at hsplit
  · intro h
    obtain ⟨lines, line, rfl, hlines⟩ := exists_unlines h.breaks
    rw [← joinLines_append_singleton, splitlines_joinLines hlines]
    by_cases hempty : line = []
    · have hform := (lineForm_joinLines hlines).mp (by rwa [joinLines_append_singleton])
      cases lines with
      | nil => simp [hempty]
      | cons first lines => exact absurd ⟨by simp, by rw [hempty, List.getLast?_append_of_ne_nil _ (by simp)]; rfl⟩ hform
    · rw [if_neg hempty]

/-! ### Patterns that stop at breaks -/

variable {p : Pattern CodePoint}

theorem findAll_splitlines (h : p.StopsAt Breaks) (text : Text) :
    p.findAll text = (splitlines text).flatMap p.findAll := by
  induction text using lines_induction with
  | line text htext =>
    rw [splitlines_line htext]
    by_cases hempty : text = []
    · rw [hempty]
      rfl
    · rw [if_neg hempty, List.flatMap_singleton]
  | broken line c breaks rest hline hc hbreaks hsplit ih =>
    rw [hsplit, List.flatMap_cons, h.findAll_append hc hline, h.findAll_walls hbreaks, ih]

theorem findAll_joinLines (h : p.StopsAt Breaks)
    (hlines : ∀ line ∈ lines, IsLine line) : p.findAll (joinLines lines) = lines.flatMap p.findAll := by
  induction lines with
  | nil => rfl
  | cons line lines ih =>
    obtain ⟨hline, hlines⟩ := List.forall_mem_cons.mp hlines
    cases lines with
    | nil => rw [joinLines_singleton, List.flatMap_singleton]
    | cons next lines =>
      rw [joinLines_cons_cons, h.findAll_append breaks_newline hline, ih hlines]
      rfl

theorem sub_joinLines (h : p.StopsAt Breaks) (rewrite : Text → Text)
    (hlines : ∀ line ∈ lines, IsLine line) :
    p.sub rewrite (joinLines lines) = joinLines (lines.map (p.sub rewrite)) := by
  induction lines with
  | nil => rfl
  | cons line lines ih =>
    obtain ⟨hline, hlines⟩ := List.forall_mem_cons.mp hlines
    cases lines with
    | nil => rw [joinLines_singleton, List.map_singleton, joinLines_singleton]
    | cons next lines =>
      rw [joinLines_cons_cons, h.sub_append breaks_newline hline, ih hlines]
      exact (joinLines_cons_cons ..).symm

end VidbyteSdk.Lib

import VidbyteSdk.Lib.Occurrences
import VidbyteSdk.Lib.Words

/-!
# Line endings

The two endings a line may have, which of them a text uses, and a text written in one of them. A text whose
endings are `Uniform` is what writing its lines in its own ending gives back (`written_detect`).
-/

namespace VidbyteSdk.Lib

/-! ### What reading changes -/

theorem count_universalNewlines {c : CodePoint} (hreturn : c ≠ carriageReturn) (hnewline : c ≠ newline)
    (t : Text) : (universalNewlines t).count c = t.count c := by
  fun_induction universalNewlines t with
  | case1 => rfl
  | case2 =>
    rw [List.count_singleton, List.count_singleton, beq_false_of_ne hnewline.symm,
      beq_false_of_ne hreturn.symm]
  | case3 rest ih =>
    rw [List.count_cons_of_ne hnewline.symm, List.count_cons_of_ne hreturn.symm,
      List.count_cons_of_ne hnewline.symm, ih]
  | case4 d rest _ ih =>
    rw [List.count_cons_of_ne hnewline.symm, List.count_cons_of_ne hreturn.symm, ih]
  | case5 d rest _ ih => rw [List.count_cons, List.count_cons, ih]

theorem universalNewlines_eq_map {t : Text} (h : (universalNewlines t).length = t.length) :
    universalNewlines t = t.map fun c => if c = carriageReturn then newline else c := by
  fun_induction universalNewlines t with
  | case1 => rfl
  | case2 => rfl
  | case3 rest ih =>
    have hle := length_universalNewlines_le rest
    simp only [List.length_cons] at h
    omega
  | case4 d rest _ ih =>
    rw [ih (Nat.succ.inj h)]
    rfl
  | case5 d rest hd ih => rw [ih (Nat.succ.inj h), List.map_cons, if_neg hd]

theorem isUtf8_universalNewlines {t : Text} (h : Text.isUtf8 t = true) :
    Text.isUtf8 (universalNewlines t) = true := by
  rw [Text.isUtf8_iff] at *
  intro c hc
  rcases mem_universalNewlines hc with hmem | rfl
  · exact h c hmem
  · rfl

/-! ### Endings -/

inductive LineEnding
  | lf
  | crlf
  deriving DecidableEq

namespace LineEnding

/-- The first ending of a text that holds any `"\r\n"`, else `"\n"`. -/
def detect (raw : Text) : LineEnding :=
  if 0 < occurrences [carriageReturn, newline] raw then .crlf else .lf

def written : LineEnding → Text → Text
  | .lf, text => text
  | .crlf, text => text.flatMap fun c => if c = newline then [carriageReturn, newline] else [c]

/-- `text.replace("\r\n", "\n")` -/
def toLf : Text → Text
  | [] => []
  | c :: rest =>
    if c = carriageReturn then
      match rest with
      | [] => [c]
      | d :: rest => if d = newline then newline :: toLf rest else c :: toLf (d :: rest)
    else c :: toLf rest

/-- The lines of the text all end the same way, and it holds no other carriage return. -/
def Uniform (raw : Text) : Prop := ∃ ending text, carriageReturn ∉ text ∧ raw = written ending text

@[simp] theorem written_append (ending : LineEnding) (s t : Text) :
    ending.written (s ++ t) = ending.written s ++ ending.written t := by
  cases ending with
  | lf => rfl
  | crlf => exact List.flatMap_append

variable {text : Text}

theorem universalNewlines_written {ending : LineEnding} (h : carriageReturn ∉ text) :
    universalNewlines (ending.written text) = text := by
  cases ending with
  | lf => exact universalNewlines_of_notMem h
  | crlf =>
    induction text with
    | nil => rfl
    | cons c text ih =>
      rw [List.mem_cons, not_or] at h
      show universalNewlines ((if c = newline then [carriageReturn, newline] else [c])
        ++ written .crlf text) = _
      by_cases hc : c = newline
      · rw [if_pos hc, hc]
        show newline :: universalNewlines (written .crlf text) = _
        rw [ih h.2]
      · rw [if_neg hc, List.singleton_append, universalNewlines.eq_def]
        dsimp only
        rw [if_neg (Ne.symm h.1), ih h.2]

theorem written_of_notMem (h : newline ∉ text) (ending : LineEnding) :
    ending.written text = text := by
  cases ending with
  | lf => rfl
  | crlf =>
    induction text with
    | nil => rfl
    | cons c text ih =>
      rw [List.mem_cons, not_or] at h
      show (if c = newline then [carriageReturn, newline] else [c]) ++ written .crlf text = _
      rw [if_neg (Ne.symm h.1), ih h.2]
      rfl

theorem mem_return_of_detect {raw : Text} (h : detect raw = .crlf) : carriageReturn ∈ raw := by
  unfold detect at h
  split at h
  · next hpos =>
    obtain ⟨p, q, hsplit, -⟩ := exists_split_of_occurrences_pos hpos []
    rw [hsplit]
    simp
  · cases h

theorem detect_written_crlf (h : newline ∈ text) :
    detect (written .crlf text) = .crlf := by
  obtain ⟨before, after, rfl⟩ := List.append_of_mem h
  have hsplit : written .crlf (before ++ newline :: after) = written .crlf before
      ++ [carriageReturn, newline] ++ written .crlf after := by
    rw [written_append, List.append_assoc]
    rfl
  unfold detect
  rw [if_pos]
  rw [hsplit]
  exact occurrences_append_pos (by simp) _ _

theorem written_detect {raw : Text} (h : Uniform raw) :
    carriageReturn ∉ universalNewlines raw ∧ (detect raw).written (universalNewlines raw) = raw := by
  obtain ⟨ending, text, hreturn, rfl⟩ := h
  rw [universalNewlines_written hreturn]
  refine ⟨hreturn, ?_⟩
  by_cases hnewline : newline ∈ text
  · cases ending with
    | lf =>
      have hdetect : detect text = .lf := by
        cases hd : detect text with
        | lf => rfl
        | crlf => exact absurd (mem_return_of_detect hd) hreturn
      show (detect text).written text = text
      rw [hdetect]
      rfl
    | crlf => rw [detect_written_crlf hnewline]
  · rw [written_of_notMem hnewline, written_of_notMem hnewline]

theorem mem_toLf {c : CodePoint} (hc : c ≠ carriageReturn) :
    c ∈ toLf text ↔ c ∈ text := by
  fun_induction toLf text with
  | case1 => exact Iff.rfl
  | case2 => exact Iff.rfl
  | case3 rest ih =>
    rw [List.mem_cons, List.mem_cons, List.mem_cons, ih]
    simp [hc]
  | case4 d rest _ ih => rw [List.mem_cons, List.mem_cons, ih]
  | case5 d rest _ ih => rw [List.mem_cons, List.mem_cons, ih]

theorem isUtf8_toLf (text : Text) : Text.isUtf8 (toLf text) = Text.isUtf8 text := by
  rw [Bool.eq_iff_iff, Text.isUtf8_iff, Text.isUtf8_iff]
  have hplain : CodePoint.isSurrogate carriageReturn = false := rfl
  constructor
  · intro h c hmem
    by_cases hc : c = carriageReturn
    · rw [hc, hplain]
    · exact h c ((mem_toLf hc).mpr hmem)
  · intro h c hmem
    by_cases hc : c = carriageReturn
    · rw [hc, hplain]
    · exact h c ((mem_toLf hc).mp hmem)

end LineEnding

end VidbyteSdk.Lib

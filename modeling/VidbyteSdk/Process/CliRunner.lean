import VidbyteSdk.Lib.Dicts
import VidbyteSdk.Lib.TextLines
import VidbyteSdk.Lib.Utf8Cut

/-!
# What a command-line program printed

`CliRunner._drain` and `CliRunner._outcome` keep the first bytes of a stream as text, and `CliRunner.json_objects`
reads the JSON objects of a text, one a line. The kept text is the longest run of whole characters within the limit,
but where the limit cuts off the last byte of a character of four. A line is read whole where nothing in it breaks
a line for `str.splitlines`, which JSON lets three characters do.
-/

namespace VidbyteSdk.Process

open Lib Lib.Utf8

inductive ProcessLaunchFailure
  | notFound
  | permissionDenied
  | osError
  deriving DecidableEq

structure CliOutcome where
  exitCode : Option ℤ
  stdout : Text
  stderr : Text
  stdoutTruncated : Bool
  stderrTruncated : Bool
  timedOut : Bool
  launchFailure : Option ProcessLaunchFailure

namespace CliRunner

/-! ### Capped output -/

/-- `NATIVE_PROCESS_TRUNCATION_PROBE_BYTES` -/
def truncationProbeBytes : ℕ := 1

/-- `_drain`: the buffer after the chunks that the reads return. An empty chunk is the end of the stream; a read that
raises ends the loop where the list ends. -/
def drain (buffer : List Byte) (limitBytes : ℕ) : List (List Byte) → List Byte
  | [] => buffer
  | chunk :: chunks =>
    if chunk = [] then buffer
    else drain (buffer ++ chunk.take (limitBytes + truncationProbeBytes - buffer.length)) limitBytes chunks

/-- The text of one buffer in `_outcome`. -/
def outcomeText (buffer : List Byte) (limitBytes : ℕ) : Text :=
  decodeIgnoring ((encode (decode (buffer.take limitBytes))).take limitBytes)

/-- `_outcome` -/
def outcome (exitCode : Option ℤ) (stdout stderr : List Byte) (limitBytes : ℕ) (timedOut : Bool) : CliOutcome where
  exitCode := exitCode
  stdout := outcomeText stdout limitBytes
  stderr := outcomeText stderr limitBytes
  stdoutTruncated := stdout.length > limitBytes
  stderrTruncated := stderr.length > limitBytes
  timedOut := timedOut
  launchFailure := none

variable {limit : ℕ} {chunks : List (List Byte)}

theorem drain_take (h : ∀ chunk ∈ chunks, chunk ≠ []) (seen : List Byte) :
    drain (seen.take (limit + truncationProbeBytes)) limit chunks
      = (seen ++ chunks.flatten).take (limit + truncationProbeBytes) := by
  induction chunks generalizing seen with
  | nil => rw [drain, List.flatten_nil, List.append_nil]
  | cons chunk chunks ih =>
    have hrest := ih (fun other hother => h other (List.mem_cons_of_mem _ hother)) (seen ++ chunk)
    have htaken : chunk.take (limit + truncationProbeBytes - (seen.take (limit + truncationProbeBytes)).length)
        = chunk.take (limit + truncationProbeBytes - seen.length) := by
      rw [List.length_take]
      rcases Nat.le_total seen.length (limit + truncationProbeBytes) with hle | hle
      · rw [Nat.min_eq_right hle]
      · rw [Nat.min_eq_left hle, Nat.sub_self, Nat.sub_eq_zero_of_le hle]
    rw [drain, if_neg (h chunk List.mem_cons_self), htaken, ← List.take_append, hrest, List.flatten_cons,
      List.append_assoc]

theorem drain_eq (h : ∀ chunk ∈ chunks, chunk ≠ []) :
    drain [] limit chunks = chunks.flatten.take (limit + truncationProbeBytes) := by
  have hdrain := @drain_take limit _ h []
  rwa [List.take_nil, List.nil_append] at hdrain

theorem outcomeText_eq (buffer : List Byte) (limit : ℕ) :
    outcomeText buffer limit = fit limit (decode (buffer.take limit)) :=
  decodeIgnoring_take (isUtf8_decode _) limit

/-- The limit falls in front of the last byte of a character of four bytes. -/
def CutsFourth (limit : ℕ) (t : Text) : Prop :=
  ∃ s c r, t = s ++ c :: r ∧ (encodeChar c).length = 4 ∧ limit = (encode s).length + 3

theorem outcomeText_encode {t : Text} (h : Text.isUtf8 t = true) {buffer : List Byte}
    (hbuffer : buffer.take limit = (encode t).take limit) :
    outcomeText buffer limit = fit limit t ↔ ¬ CutsFourth limit t := by
  have hfit := isUtf8_fit h limit
  have hle := length_encode_fit_le limit t
  rw [outcomeText_eq, hbuffer]
  rcases take_encode limit t with ⟨r, ht, htake⟩ | ⟨c, r, part, left, ht, hchar, hpart, hleft, htake, hlimit⟩
  · have hread : decode (encode (fit limit t)) = fit limit t := decode_encode hfit
    rw [htake, hread, fit_self hle]
    refine iff_of_true rfl ?_
    rintro ⟨s, c, r', rfl, hfour, hlimit⟩
    -- the character after `s` does not fit, so `s` is all that does
    have hs : fit limit (s ++ c :: r') = s := by
      rw [fit_append (by omega), fit_of_lt (by omega), List.append_nil]
    have hlength := congrArg List.length htake
    rw [hs, encode_append, encode_cons, List.length_take, List.length_append, List.length_append] at hlength
    omega
  · have hc : c.isSurrogate = false :=
      (Text.isUtf8_iff.mp h) c (ht ▸ List.mem_append_right _ List.mem_cons_self)
    have hlengths := congrArg List.length hchar
    have hpartPos := List.length_pos_iff.mpr hpart
    have hleftPos := List.length_pos_iff.mpr hleft
    have hfour := length_encodeChar_le c
    rw [List.length_append] at hlengths
    have hsplit : CutsFourth limit t ↔ part.length = 3 := by
      constructor
      · rintro ⟨s, c', r', ht', hfour', hlimit'⟩
        have hs : fit limit t = s := by
          rw [ht', fit_append (by omega), fit_of_lt (by omega), List.append_nil]
        rw [hs] at hlimit
        omega
      · intro hthree
        exact ⟨fit limit t, c, r, ht, by omega, by omega⟩
    have hroom : limit - (encode (fit limit t)).length = part.length := by omega
    rw [htake, decode_encode_append hfit, (decode_part hc hchar hpart hleft).1, fit_append hle, hsplit, hroom]
    by_cases hthree : part.length = 3
    · rw [hthree]
      refine iff_of_false (fun hsame => ?_) (not_not.mpr rfl)
      have hmarked := congrArg List.length hsame
      have hone : fit 3 [replacement] = [replacement] := by decide
      rw [hone, List.length_append, List.length_singleton] at hmarked
      omega
    · have hshort : part.length < (encodeChar replacement).length := by
        have hwidth : (encodeChar replacement).length = 3 := by decide
        omega
      rw [fit_of_lt hshort, List.append_nil]
      exact iff_of_true rfl hthree

/-- What is reported of a stream: a text within the limit, whether there was more, and, of a text's bytes, the longest
run of its characters that fits, exactly where the limit does not cut off the last byte of a character of four. -/
structure Reported (limit : ℕ) (stream : List Byte) (text : Text) (truncated : Bool) : Prop where
  within : (encode text).length ≤ limit
  truncated_iff : truncated = true ↔ limit < stream.length
  longest_iff : ∀ t, Text.isUtf8 t = true → stream = encode t → (LongestFit limit t text ↔ ¬ CutsFourth limit t)

theorem reported_drain (h : ∀ chunk ∈ chunks, chunk ≠ []) :
    Reported limit chunks.flatten (outcomeText (drain [] limit chunks) limit)
      ((drain [] limit chunks).length > limit) := by
  rw [drain_eq h]
  refine ⟨?_, ?_, fun t ht hstream => ?_⟩
  · rw [outcomeText_eq]
    exact length_encode_fit_le _ _
  · rw [decide_eq_true_eq, List.length_take, truncationProbeBytes]
    omega
  · rw [longestFit_iff, hstream]
    refine outcomeText_encode ht ?_
    rw [List.take_take, Nat.min_eq_left (Nat.le_add_right limit _)]

/-- **Capped output**: both streams are reported, and the pieces they arrive in do not matter. -/
theorem cappedOutput_iff (exitCode : Option ℤ) (timedOut : Bool) (limit : ℕ) (out err : List (List Byte))
    (hout : ∀ chunk ∈ out, chunk ≠ []) (herr : ∀ chunk ∈ err, chunk ≠ []) :
    let result := outcome exitCode (drain [] limit out) (drain [] limit err) limit timedOut
    Reported limit out.flatten result.stdout result.stdoutTruncated ∧
      Reported limit err.flatten result.stderr result.stderrTruncated ∧
      ∀ out' err' : List (List Byte), (∀ chunk ∈ out', chunk ≠ []) → (∀ chunk ∈ err', chunk ≠ []) →
        out'.flatten = out.flatten → err'.flatten = err.flatten →
        outcome exitCode (drain [] limit out') (drain [] limit err') limit timedOut = result := by
  refine ⟨reported_drain hout, reported_drain herr, fun out' err' hout' herr' hsame hsame' => ?_⟩
  rw [drain_eq hout, drain_eq herr, drain_eq hout', drain_eq herr', hsame, hsame']

/-- A character of four bytes that the limit leaves three of, in two chunks. -/
theorem cappedOutput_iff_cut :
    ¬ LongestFit 3 [0x1F600] (outcome none (drain [] 3 [[0xF0, 0x9F], [0x98, 0x80]]) (drain [] 3 []) 3 false).stdout := by
  have h := (cappedOutput_iff none false 3 [[0xF0, 0x9F], [0x98, 0x80]] [] (by decide) nofun).1
  rw [h.longest_iff [0x1F600] (by decide) (by decide), not_not]
  exact ⟨[], 0x1F600, [], rfl, by decide, by decide⟩

/-- The three bytes become a replacement character. -/
theorem capped_not_prefix :
    ¬ ∀ (limit : ℕ) (t : Text) (chunks : List (List Byte)), 1 ≤ limit → Text.isUtf8 t = true →
      (∀ chunk ∈ chunks, chunk ≠ []) → chunks.flatten = encode t →
      LongestFit limit t (outcome none (drain [] limit chunks) [] limit false).stdout := by
  intro h
  have hfits := h 3 [0x1F600] [[0xF0, 0x9F, 0x98, 0x80]] (by decide) (by decide) (by decide) (by decide)
  have hwritten : (outcome none (drain [] 3 [[0xF0, 0x9F, 0x98, 0x80]]) [] 3 false).stdout = [replacement] := by decide
  rw [hwritten] at hfits
  exact absurd (List.cons_prefix_cons.mp hfits.starts).1 (by decide)

/-! ### JSON lines -/

def dict? : Json → Option (List (Text × Json))
  | .obj members => some members
  | _ => none

def readObject (line : Text) : Option (List (Text × Json)) := (Json.loads line).bind dict?

/-- `json_objects` -/
def jsonObjects (text : Text) : List (List (Text × Json)) := (splitlines text).filterMap readObject

inductive LineEnd
  | newline
  | returnNewline

def LineEnd.text : LineEnd → Text
  | .newline => [Lib.newline]
  | .returnNewline => [carriageReturn, Lib.newline]

/-- Lines with `\n` or `\r\n` between them. -/
def printed (ended : List (Text × LineEnd)) (last : Text) : Text :=
  (ended.flatMap fun line => line.1 ++ line.2.text) ++ last

def linesOf (ended : List (Text × LineEnd)) (last : Text) : List Text := ended.map Prod.fst ++ [last]

theorem splitlines_ended {c : CodePoint} (h : Breaks c) (text : Text) :
    splitlines (text ++ [c]) = splitlines text ∨ splitlines (text ++ [c]) = splitlines text ++ [[]] := by
  induction text using splitlines_induction with
  | nil => exact Or.inr (splitlines_break h (by simp))
  | plain d text hd ih =>
    rw [List.cons_append, splitlines_plain hd, splitlines_plain hd]
    by_cases hempty : text = []
    · have hsingle : splitlines [c] = [[]] := splitlines_break h (by simp)
      rw [hempty, List.nil_append, hsingle]
      exact Or.inl rfl
    · rcases ih with ih | ih
      · exact Or.inl (by rw [ih])
      · rw [ih, consFirst_append (mt splitlines_eq_nil_iff.mp hempty)]
        exact Or.inr rfl
  | returnNewline text ih =>
    rw [List.cons_append, List.cons_append, splitlines_returnNewline, splitlines_returnNewline, List.cons_append]
    exact ih.imp (congrArg _) (congrArg _)
  | single d text hd htext ih =>
    rw [splitlines_break hd htext, List.cons_append]
    by_cases hempty : text = []
    · rw [hempty, List.nil_append]
      by_cases hreturn : d = carriageReturn ∧ c = newline
      · rw [hreturn.1, hreturn.2]
        exact Or.inl rfl
      · have hapart : d = carriageReturn → [c].head? ≠ some newline := by
          intro hd hc
          exact hreturn ⟨hd, Option.some.inj hc⟩
        rw [splitlines_break hd hapart]
        exact Or.inr (congrArg _ (splitlines_break h (by simp)))
    · rw [splitlines_break_append hd htext hempty, List.cons_append]
      exact ih.imp (congrArg _) (congrArg _)

theorem readObject_nil : readObject [] = none := by decide

theorem jsonObjects_ended {c : CodePoint} (h : Breaks c) (text : Text) :
    jsonObjects (text ++ [c]) = jsonObjects text := by
  rw [jsonObjects, jsonObjects]
  rcases splitlines_ended h text with hsame | hsame
  · rw [hsame]
  · rw [hsame, List.filterMap_append, List.filterMap_cons_none readObject_nil]
    exact List.append_nil _

theorem jsonObjects_line (line : Text) (lineEnd : LineEnd) (rest : Text) :
    jsonObjects (line ++ lineEnd.text ++ rest) = jsonObjects line ++ jsonObjects rest := by
  have hsplit : ∀ text : Text, jsonObjects (text ++ newline :: rest) = jsonObjects text ++ jsonObjects rest := by
    intro text
    rw [← jsonObjects_ended breaks_newline text, jsonObjects, jsonObjects, jsonObjects, splitlines_split,
      List.filterMap_append]
  cases lineEnd with
  | newline =>
    rw [LineEnd.text, List.append_assoc]
    exact hsplit line
  | returnNewline =>
    have hreturn : Breaks carriageReturn := by decide
    have hjoin : line ++ LineEnd.text .returnNewline ++ rest = (line ++ [carriageReturn]) ++ newline :: rest := by
      simp [LineEnd.text]
    rw [hjoin, hsplit, jsonObjects_ended hreturn]

theorem jsonObjects_printed (ended : List (Text × LineEnd)) (last : Text) :
    jsonObjects (printed ended last) = (linesOf ended last).flatMap jsonObjects := by
  induction ended with
  | nil => exact (List.append_nil _).symm
  | cons line ended ih =>
    have hcons : printed (line :: ended) last = line.1 ++ line.2.text ++ printed ended last := by
      rw [printed, List.flatMap_cons, List.append_assoc]
      rfl
    rw [hcons, jsonObjects_line, ih]
    rfl

theorem jsonObjects_of_isLine {line : Text} (h : IsLine line) : jsonObjects line = (readObject line).toList := by
  rw [jsonObjects, splitlines_line h]
  split
  · next hempty => rw [hempty, readObject_nil, List.filterMap_nil, Option.toList_none]
  · cases hread : readObject line with
    | none => rw [List.filterMap_cons_none hread, List.filterMap_nil, Option.toList_none]
    | some members => rw [List.filterMap_cons_some hread, List.filterMap_nil, Option.toList_some]

def HidesNone (line : Text) : Prop := ¬ IsLine line → ∀ part ∈ splitlines line, readObject part = none

theorem jsonObjects_of_hidesNone {line : Text} (h : HidesNone line) (hbreaks : ¬ IsLine line) :
    jsonObjects line = [] :=
  List.filterMap_eq_nil_iff.mpr (h hbreaks)

theorem flatMap_jsonObjects {lines : List Text} (h : ∀ line ∈ lines, jsonObjects line = (readObject line).toList) :
    lines.flatMap jsonObjects = lines.filterMap readObject := by
  induction lines with
  | nil => rfl
  | cons line lines ih =>
    rw [List.flatMap_cons, h line List.mem_cons_self, ih fun other hother => h other (List.mem_cons_of_mem _ hother)]
    cases hread : readObject line with
    | none => rw [List.filterMap_cons_none hread, Option.toList_none, List.nil_append]
    | some members => rw [List.filterMap_cons_some hread, Option.toList_some, List.singleton_append]

theorem length_jsonObjects {lines : List Text} (h : ∀ line ∈ lines, HidesNone line) :
    (lines.flatMap jsonObjects).length ≤ (lines.filterMap readObject).length ∧
      ((lines.flatMap jsonObjects).length = (lines.filterMap readObject).length →
        ∀ line ∈ lines, (readObject line).isSome → IsLine line) := by
  induction lines with
  | nil => exact ⟨Nat.le_refl _, fun _ _ hmem => nomatch hmem⟩
  | cons line lines ih =>
    obtain ⟨hle, hall⟩ := ih fun other hother => h other (List.mem_cons_of_mem _ hother)
    have hsplit : ((line :: lines).filterMap readObject).length
        = (readObject line).toList.length + (lines.filterMap readObject).length := by
      cases hread : readObject line with
      | none => rw [List.filterMap_cons_none hread, Option.toList_none, List.length_nil, Nat.zero_add]
      | some members =>
        rw [List.filterMap_cons_some hread, Option.toList_some, List.length_cons, List.length_singleton, Nat.add_comm]
    rw [List.flatMap_cons, List.length_append, hsplit, List.forall_mem_cons]
    by_cases hline : IsLine line
    · rw [jsonObjects_of_isLine hline]
      exact ⟨by omega, fun hsame => ⟨fun _ => hline, hall (by omega)⟩⟩
    · rw [jsonObjects_of_hidesNone (h line List.mem_cons_self) hline, List.length_nil]
      refine ⟨by omega, fun hsame => ⟨fun hsome => ?_, hall (by omega)⟩⟩
      obtain ⟨members, hread⟩ := Option.isSome_iff_exists.mp hsome
      rw [hread, Option.toList_some, List.length_singleton] at hsame
      omega

/-- **JSON lines**: all objects are read, in order, where no line of one breaks and no broken line hides one; and of
lines that hide none, only there. -/
theorem jsonObjects_exact (ended : List (Text × LineEnd)) (last : Text) :
    ((∀ line ∈ linesOf ended last, HidesNone line ∧ ((readObject line).isSome → IsLine line)) →
        jsonObjects (printed ended last) = (linesOf ended last).filterMap readObject) ∧
      ((∀ line ∈ linesOf ended last, HidesNone line) →
        (jsonObjects (printed ended last) = (linesOf ended last).filterMap readObject ↔
          ∀ line ∈ linesOf ended last, (readObject line).isSome → IsLine line)) := by
  rw [jsonObjects_printed]
  have hkept : (∀ line ∈ linesOf ended last, HidesNone line ∧ ((readObject line).isSome → IsLine line)) →
      (linesOf ended last).flatMap jsonObjects = (linesOf ended last).filterMap readObject := by
    intro h
    refine flatMap_jsonObjects fun line hmem => ?_
    obtain ⟨hhides, hwhole⟩ := h line hmem
    by_cases hline : IsLine line
    · exact jsonObjects_of_isLine hline
    · have hnone : readObject line = none := Option.not_isSome_iff_eq_none.mp fun hsome => hline (hwhole hsome)
      rw [jsonObjects_of_hidesNone hhides hline, hnone, Option.toList_none]
  refine ⟨hkept, fun hhides => ⟨fun hsame => (length_jsonObjects hhides).2 (congrArg List.length hsame), ?_⟩⟩
  exact fun hwhole => hkept fun line hmem => ⟨hhides line hmem, hwhole line hmem⟩

def separatedObject : Text := Json.lit "\x7b\"a\":\"x" ++ 0x2028 :: Json.lit "y\"\x7d"

theorem jsonObjects_exact_separated :
    jsonObjects (printed [(separatedObject, .newline)] [])
      ≠ (linesOf [(separatedObject, .newline)] []).filterMap readObject := by
  have hhides : ∀ line ∈ linesOf [(separatedObject, .newline)] [], HidesNone line := by
    intro line hmem _
    have hall : ∀ line ∈ linesOf [(separatedObject, .newline)] [], ∀ part ∈ splitlines line, readObject part = none := by
      decide +kernel
    exact hall line hmem
  rw [Ne, (jsonObjects_exact _ _).2 hhides]
  intro hwhole
  have hline := hwhole separatedObject (by decide +kernel) (by decide +kernel)
  exact hline 0x2028 (by decide +kernel) (by decide)

/-- The object is lost. -/
theorem json_object_lost :
    ¬ ∀ (ended : List (Text × LineEnd)) (last : Text),
      (∀ line ∈ linesOf ended last, newline ∉ line ∧ carriageReturn ∉ line ∧
        ((readObject line).isSome ∨ Json.loads line = none)) →
      jsonObjects (printed ended last) = (linesOf ended last).filterMap readObject := by
  intro h
  have hcovered : ∀ line ∈ linesOf [(separatedObject, .newline)] [], newline ∉ line ∧ carriageReturn ∉ line ∧
      ((readObject line).isSome ∨ (Json.loads line).isNone) := by decide +kernel
  have hsame := h [(separatedObject, .newline)] [] fun line hmem =>
    (hcovered line hmem).imp_right (And.imp_right (Or.imp_right Option.isNone_iff_eq_none.mp))
  exact absurd (congrArg List.length hsame) (by decide +kernel)

end CliRunner

end VidbyteSdk.Process

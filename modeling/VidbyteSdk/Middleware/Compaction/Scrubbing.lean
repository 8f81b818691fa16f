import Mathlib.Data.Nat.Digits.Defs
import VidbyteSdk.Lib.Repeats
import VidbyteSdk.Lib.TextLines
import VidbyteSdk.Middleware.Compaction.Messages

/-!
# Mechanical bloat

`_scrub_bloat_text` and `MechanicalBloatScrubberCompaction`: three passes that cut out ANSI escapes, replace long spans of
base64 characters and limit repeated lines. Each pass goes once over what the pass before it left.
-/

namespace VidbyteSdk.Middleware.Compaction

open VidbyteSdk.Lib
open Json (lit)

/-! ### The patterns -/

def isParameter (c : CodePoint) : Bool := 0x30 ≤ c.val && c.val ≤ 0x3F

def isIntermediate (c : CodePoint) : Bool := 0x20 ≤ c.val && c.val ≤ 0x2F

def isFinal (c : CodePoint) : Bool := 0x40 ≤ c.val && c.val ≤ 0x7E

/-- How far `_ANSI_PATTERN` matches. No two of its character classes meet, so that there is one way to match. -/
def ansiLength : Text → Option ℕ
  | escape :: bracket :: rest =>
    if escape = 0x1B ∧ bracket = Json.leftBracket then
      let parameters := rest.takeWhile isParameter
      let intermediates := (rest.dropWhile isParameter).takeWhile isIntermediate
      match (rest.dropWhile isParameter).dropWhile isIntermediate with
      | final :: _ => if isFinal final then some (parameters.length + intermediates.length + 3) else none
      | [] => none
    else none
  | _ => none

/-- `[A-Za-z0-9_]`. -/
def isAsciiWord (c : CodePoint) : Bool :=
  c.isDigit || (0x41 ≤ c.val && c.val ≤ 0x5A) || (0x61 ≤ c.val && c.val ≤ 0x7A) || c = 0x5F

/-- The characters that `\w` matches: letters, digits and the underscore, of every script. -/
structure WordClass where
  isWord : CodePoint → Bool
  ascii : ∀ c : CodePoint, c.val < 0x80 → isWord c = isAsciiWord c
  breaks : ∀ c, Breaks c → isWord c = false

/-- `[A-Za-z0-9+/]`. -/
def isBase64 (c : CodePoint) : Bool :=
  c.isDigit || (0x41 ≤ c.val && c.val ≤ 0x5A) || (0x61 ≤ c.val && c.val ≤ 0x7A) || c = 0x2B || c = 0x2F

def isPadding (c : CodePoint) : Bool := c = 0x3D

/-- What `[A-Za-z0-9+/]+={0,2}` matches. -/
def IsBase64Like (span : Text) : Prop :=
  ∃ run padding, span = run ++ padding ∧ run ≠ [] ∧ run.all isBase64 ∧ padding.all isPadding ∧ padding.length ≤ 2

namespace WordClass

variable (W : WordClass)

/-- `\b` between two neighbours. -/
def boundary (before after : Option CodePoint) : Bool := before.any W.isWord != after.any W.isWord

def lastBoundary (items : Text) : ℕ → Option ℕ
  | 0 => none
  | n + 1 => if W.boundary items[n]? items[n + 1]? then some (n + 1) else lastBoundary items n

/-- How far `_BASE64_PATTERN` matches: as far as the characters go, and back to the last boundary. -/
def base64Length (prev : Option CodePoint) (items : Text) : Option ℕ :=
  let run := items.takeWhile isBase64
  let padding := ((items.dropWhile isBase64).takeWhile isPadding).take 2
  if run ≠ [] ∧ W.boundary prev items.head? then W.lastBoundary items (run.length + padding.length) else none

end WordClass

/-! ### The patterns match within the text -/

variable {items : Text}

theorem ansiLength_bounds {n : ℕ} (h : ansiLength items = some n) : 0 < n ∧ n ≤ items.length := by
  match items with
  | [] => cases h
  | [_] => cases h
  | escape :: bracket :: rest =>
    rw [ansiLength] at h
    obtain ⟨-, h⟩ := Option.ite_none_right_eq_some.mp h
    dsimp only at h
    split at h
    · next final later hlater =>
      obtain ⟨-, h⟩ := Option.ite_none_right_eq_some.mp h
      have hrest := congrArg List.length (List.takeWhile_append_dropWhile (p := isParameter) (l := rest))
      have htail := congrArg List.length
        (List.takeWhile_append_dropWhile (p := isIntermediate) (l := rest.dropWhile isParameter))
      simp only [hlater, List.length_append, List.length_cons] at hrest htail ⊢
      have := Option.some.inj h
      omega
    · cases h

namespace WordClass

variable (W : WordClass)

theorem lastBoundary_bounds {limit n : ℕ} (h : W.lastBoundary items limit = some n) :
    0 < n ∧ n ≤ limit := by
  induction limit with
  | zero => cases h
  | succ limit ih =>
    rw [lastBoundary] at h
    split at h
    · obtain rfl := Option.some.inj h
      exact ⟨Nat.succ_pos limit, Nat.le_refl _⟩
    · obtain ⟨hpos, hle⟩ := ih h
      exact ⟨hpos, Nat.le_succ_of_le hle⟩

variable {prev : Option CodePoint}

theorem base64Length_some {n : ℕ} (h : W.base64Length prev items = some n) :
    ∃ run padding rest, items = run ++ (padding ++ rest) ∧ run ≠ [] ∧ run.all isBase64 ∧ padding.all isPadding ∧
      padding.length ≤ 2 ∧ 0 < n ∧ n ≤ run.length + padding.length := by
  rw [base64Length] at h
  obtain ⟨⟨hrun, -⟩, hlast⟩ := Option.ite_none_right_eq_some.mp h
  have hbounds := W.lastBoundary_bounds hlast
  refine ⟨items.takeWhile isBase64, ((items.dropWhile isBase64).takeWhile isPadding).take 2,
    ((items.dropWhile isBase64).takeWhile isPadding).drop 2 ++ (items.dropWhile isBase64).dropWhile isPadding,
    ?_, hrun, ?_, ?_, List.length_take_le _ _, hbounds⟩
  · rw [← List.append_assoc (List.take _ _), List.take_append_drop, List.takeWhile_append_dropWhile,
      List.takeWhile_append_dropWhile]
  · exact List.all_takeWhile
  · exact List.all_eq_true.mpr fun c hc => List.all_eq_true.mp List.all_takeWhile c (List.mem_of_mem_take hc)

theorem base64Length_bounds {n : ℕ}
    (h : W.base64Length prev items = some n) : 0 < n ∧ n ≤ items.length := by
  obtain ⟨run, padding, rest, rfl, -, -, -, -, hpos, hle⟩ := W.base64Length_some h
  simp only [List.length_append]
  omega

theorem isBase64Like_of_base64Length {span rest : Text}
    (h : W.base64Length prev (span ++ rest) = some span.length) : IsBase64Like span := by
  obtain ⟨run, padding, later, heq, hrun, hbase64, hpadding, hlength, hpos, hle⟩ := W.base64Length_some h
  have hspan : span = run.take span.length ++ padding.take (span.length - run.length) := by
    have := congrArg (List.take span.length) heq
    rw [List.take_left' rfl, ← List.append_assoc, List.take_append_of_le_length (by simpa using hle),
      List.take_append] at this
    exact this
  refine ⟨_, _, hspan, ?_, ?_, ?_, (List.length_take_le' _ _).trans hlength⟩
  · rw [← List.length_pos_iff, List.length_take]
    have := List.length_pos_iff.mpr hrun
    omega
  · exact List.all_eq_true.mpr fun c hc => List.all_eq_true.mp hbase64 c (List.mem_of_mem_take hc)
  · exact List.all_eq_true.mpr fun c hc => List.all_eq_true.mp hpadding c (List.mem_of_mem_take hc)

end WordClass

/-- `_ANSI_PATTERN`. -/
def ansiPattern : Pattern CodePoint where
  matchAt _ items := ansiLength items
  matchAt_bounds := ansiLength_bounds

/-- `_BASE64_PATTERN`. -/
def WordClass.base64Pattern (W : WordClass) : Pattern CodePoint where
  matchAt := W.base64Length
  matchAt_bounds := W.base64Length_bounds

/-! ### Scrubbing -/

/-- The keyword arguments of `_scrub_bloat_text`, and what they are by default. -/
structure ScrubOptions where
  base64MinChars : ℤ := 80
  maxRepeatedLines : ℤ := 3
  placeholder : Text := lit "[scrubbed \x7bkind\x7d: \x7bcount\x7d chars]"

structure ScrubStats where
  ansiSequences : ℕ
  base64Spans : ℕ
  repeatedLines : ℕ

/-- `placeholder.replace("{kind}", "base64").replace("{count}", str(count))`. -/
def fillPlaceholder (placeholder : Text) (count : ℕ) : Text :=
  (Pattern.literal (lit "\x7bcount\x7d") (by decide)).sub (fun _ => Json.intText count)
    ((Pattern.literal (lit "\x7bkind\x7d") (by decide)).sub (fun _ => lit "base64") placeholder)

/-- `replace_base64`. -/
def replaceBase64 (options : ScrubOptions) (span : Text) : Text :=
  if (span.length : ℤ) < options.base64MinChars then span else fillPlaceholder options.placeholder span.length

/-- `_scrub_bloat_text`. -/
def scrubBloatText (W : WordClass) (options : ScrubOptions) (content : Text) : Text × ScrubStats :=
  let visible := ansiPattern.sub (fun _ => []) content
  let scrubbed := W.base64Pattern.sub (replaceBase64 options) visible
  let stats : ScrubStats := {
    ansiSequences := (ansiPattern.findAll content).length
    base64Spans := (W.base64Pattern.findAll visible).countP fun span => options.base64MinChars ≤ span.length
    repeatedLines := 0 }
  if 0 ≤ options.maxRepeatedLines then
    let lines := splitlines scrubbed
    let kept := limitRepeats options.maxRepeatedLines.toNat (fun _ => 0) lines
    (joinLines kept, { stats with repeatedLines := lines.length - kept.length })
  else (scrubbed, stats)

/-- `MechanicalBloatScrubberCompaction`, as its constructor lets it through. -/
structure MechanicalBloatScrubber extends ScrubOptions where
  one_le_base64MinChars : 1 ≤ base64MinChars
  maxRepeatedLines_nonneg : 0 ≤ maxRepeatedLines

namespace MechanicalBloatScrubber

/-- `__init__`, with the message of the error that it raises. -/
def create (options : ScrubOptions) : Except Text MechanicalBloatScrubber :=
  if hmin : options.base64MinChars < 1 then .error (lit "base64_min_chars must be positive.")
  else if hmax : options.maxRepeatedLines < 0 then .error (lit "max_repeated_lines must be non-negative.")
  else .ok {
    toScrubOptions := options
    one_le_base64MinChars := Int.not_lt.mp hmin
    maxRepeatedLines_nonneg := Int.not_lt.mp hmax }

/-- `compact`. -/
def compact (W : WordClass) (scrubber : MechanicalBloatScrubber) (messages : List ContextMessage) :
    List ContextMessage :=
  messages.map fun message =>
    if message.isToolCall then message
    else
      let (scrubbed, stats) := scrubBloatText W scrubber.toScrubOptions message.content
      if scrubbed ≠ message.content then
        message.replaceContent scrubbed [(lit "compaction", .str (lit "mechanical_bloat_scrubber")),
          (lit "ansi_sequences", .int stats.ansiSequences), (lit "base64_spans", .int stats.base64Spans),
          (lit "repeated_lines", .int stats.repeatedLines)]
      else message

end MechanicalBloatScrubber

/-! ### Each pass goes line by line -/

section

variable {p : CodePoint → Bool} {c : CodePoint}

theorem takeWhile_append_of_not (h : p c = false) (items rest : Text) :
    (items ++ c :: rest).takeWhile p = items.takeWhile p := by
  induction items with
  | nil => rw [List.nil_append, List.takeWhile_cons_of_neg (by simp [h]), List.takeWhile_nil]
  | cons item items ih =>
    rw [List.cons_append, List.takeWhile_cons, List.takeWhile_cons, ih]

theorem dropWhile_append_of_not (h : p c = false) (items rest : Text) :
    (items ++ c :: rest).dropWhile p = items.dropWhile p ++ c :: rest := by
  induction items with
  | nil => rw [List.nil_append, List.dropWhile_cons_of_neg (by simp [h]), List.dropWhile_nil, List.nil_append]
  | cons item items ih =>
    rw [List.cons_append, List.dropWhile_cons, List.dropWhile_cons, ih]
    split
    · rfl
    · rw [List.cons_append]

end

/-- A character class of printable ASCII characters. -/
def PrintableOnly (p : CodePoint → Bool) : Prop := ∀ c, p c → 0x20 ≤ c.val ∧ c.val ≤ 0x7E

theorem printableOnly_isParameter : PrintableOnly isParameter := by
  intro c h
  simp only [isParameter, Bool.and_eq_true, decide_eq_true_eq] at h
  omega

theorem printableOnly_isIntermediate : PrintableOnly isIntermediate := by
  intro c h
  simp only [isIntermediate, Bool.and_eq_true, decide_eq_true_eq] at h
  omega

theorem printableOnly_isFinal : PrintableOnly isFinal := by
  intro c h
  simp only [isFinal, Bool.and_eq_true, decide_eq_true_eq] at h
  omega

theorem printableOnly_isBase64 : PrintableOnly isBase64 := by
  intro c h
  simp only [isBase64, CodePoint.isDigit, Bool.or_eq_true, Bool.and_eq_true, decide_eq_true_eq] at h
  rcases h with (((h | h) | h) | rfl) | rfl
  · omega
  · omega
  · omega
  · decide
  · decide

theorem printableOnly_isPadding : PrintableOnly isPadding := by
  intro c h
  rw [isPadding, decide_eq_true_eq] at h
  subst h
  decide

theorem printableOnly_isAsciiWord : PrintableOnly isAsciiWord := by
  intro c h
  simp only [isAsciiWord, CodePoint.isDigit, Bool.or_eq_true, Bool.and_eq_true, decide_eq_true_eq] at h
  rcases h with ((h | h) | h) | rfl
  · omega
  · omega
  · omega
  · decide

theorem PrintableOnly.of_break {p : CodePoint → Bool} (hp : PrintableOnly p) {c : CodePoint} (h : Breaks c) :
    p c = false := by
  refine Bool.eq_false_iff.mpr fun hc => ?_
  have hrange := hp c hc
  simp only [Breaks, CodePoint.isLineBreak, Bool.or_eq_true, Bool.and_eq_true, decide_eq_true_eq] at h
  rcases h with (((h | h) | rfl) | rfl) | rfl
  · omega
  · omega
  · exact absurd hrange (by decide)
  · exact absurd hrange (by decide)
  · exact absurd hrange (by decide)

theorem ansiPattern_stopsAt : ansiPattern.StopsAt Breaks where
  before := by
    intro b hb _ items rest hitems
    change ansiLength (items ++ b :: rest) = ansiLength items
    have hescape : b ≠ 0x1B := fun h => absurd (h ▸ hb) (by decide)
    have hbracket : b ≠ Json.leftBracket := fun h => absurd (h ▸ hb) (by decide)
    match items with
    | [] =>
      cases rest with
      | nil => rfl
      | cons next rest => exact if_neg fun h => hescape h.1
    | [item] => exact if_neg fun h => hbracket h.2
    | escape :: bracket :: items =>
      simp only [List.cons_append, ansiLength, takeWhile_append_of_not (printableOnly_isParameter.of_break hb),
        dropWhile_append_of_not (printableOnly_isParameter.of_break hb),
        takeWhile_append_of_not (printableOnly_isIntermediate.of_break hb),
        dropWhile_append_of_not (printableOnly_isIntermediate.of_break hb)]
      cases (items.dropWhile isParameter).dropWhile isIntermediate with
      | nil => simp [printableOnly_isFinal.of_break hb]
      | cons final later => rfl
  after _ _ := rfl

theorem WordClass.lastBoundary_append (W : WordClass) {c : CodePoint} (hc : Breaks c) {limit : ℕ}
    (h : limit ≤ items.length) (rest : Text) :
    W.lastBoundary (items ++ c :: rest) limit = W.lastBoundary items limit := by
  induction limit with
  | zero => rfl
  | succ limit ih =>
    have hafter : (items ++ c :: rest)[limit + 1]?.any W.isWord = items[limit + 1]?.any W.isWord := by
      rcases Nat.lt_or_eq_of_le h with hlt | heq
      · rw [List.getElem?_append_left hlt]
      · rw [heq, List.getElem?_append_right (Nat.le_refl _), Nat.sub_self, List.getElem?_eq_none (Nat.le_refl _)]
        exact W.breaks c hc
    rw [lastBoundary, lastBoundary, boundary, boundary, hafter, List.getElem?_append_left h, ih (Nat.le_of_succ_le h)]

theorem WordClass.base64Pattern_stopsAt (W : WordClass) : W.base64Pattern.StopsAt Breaks where
  before := by
    intro b hb prev items rest hitems
    change W.base64Length prev (items ++ b :: rest) = W.base64Length prev items
    rw [base64Length, base64Length, takeWhile_append_of_not (printableOnly_isBase64.of_break hb),
      dropWhile_append_of_not (printableOnly_isBase64.of_break hb),
      takeWhile_append_of_not (printableOnly_isPadding.of_break hb)]
    cases items with
    | nil => rfl
    | cons item items =>
      have hfits : ((item :: items).takeWhile isBase64).length +
          ((((item :: items).dropWhile isBase64).takeWhile isPadding).take 2).length ≤ (item :: items).length := by
        have hsplit := congrArg List.length (List.takeWhile_append_dropWhile (p := isBase64) (l := item :: items))
        have hpadding : (((item :: items).dropWhile isBase64).takeWhile isPadding).length ≤ _ :=
          (List.takeWhile_sublist _).length_le
        rw [List.length_append] at hsplit
        rw [List.length_take]
        omega
      rw [W.lastBoundary_append hb hfits, List.cons_append, List.head?_cons, List.head?_cons]
  after := by
    intro b hb items
    change W.base64Length (some b) items = W.base64Length none items
    rw [base64Length, base64Length, boundary, boundary, Option.any_some, W.breaks b hb, Option.any_none]

/-! ### What scrubbing does -/

namespace ScrubOptions

variable (options : ScrubOptions) (W : WordClass) (content : Text)

def scrubbed : Text := (scrubBloatText W options content).1

/-- The text that the last pass reads: the escapes are cut out and the long spans replaced. -/
def intermediateText : Text := W.base64Pattern.sub (replaceBase64 options) (ansiPattern.sub (fun _ => []) content)

def keptLines : List Text :=
  limitRepeats options.maxRepeatedLines.toNat (fun _ => 0) (splitlines (options.intermediateText W content))

def SpansShort : Prop := ∀ span ∈ W.base64Pattern.findAll content, (span.length : ℤ) < options.base64MinChars

/-- A text without bloat. No line is repeated too often for a limit below zero, which turns that pass off. -/
structure Clean : Prop where
  no_escape : ansiPattern.findAll content = []
  short : options.SpansShort W content
  rare : 0 ≤ options.maxRepeatedLines → ∀ line, ((splitlines content).count line : ℤ) ≤ options.maxRepeatedLines

/-- The placeholder, filled for a long span of at most `size` characters, holds nothing base64-like that is long. -/
def PlaceholderClean (size : ℕ) : Prop :=
  ∀ (count : ℕ) (span : Text), options.base64MinChars ≤ count → count ≤ size →
    span <:+: fillPlaceholder options.placeholder count → IsBase64Like span →
    (span.length : ℤ) < options.base64MinChars

/-- The most characters that a span of the text, or of what is made of it, can have. -/
def size : ℕ := max content.length (options.scrubbed W content).length

/-- What scrubbing is to do: leave a clean text alone, leave no escape, keep each line as often as the limit lets it, and
have nothing left to do the second time. -/
structure ScrubsBloat : Prop where
  clean_unchanged : options.Clean W content → options.scrubbed W content = content
  no_escape : ansiPattern.findAll (options.scrubbed W content) = []
  lines_kept : 0 ≤ options.maxRepeatedLines → ∃ kept : List Text,
    kept.Sublist (splitlines (options.intermediateText W content)) ∧
    (∀ line, (kept.count line : ℤ) =
      min ((splitlines (options.intermediateText W content)).count line : ℤ) options.maxRepeatedLines) ∧
    options.scrubbed W content = joinLines kept
  idempotent : options.PlaceholderClean (options.size W content) → options.scrubbed W (options.scrubbed W content) = options.scrubbed W content

variable {options W content}

theorem scrubbed_of_nonneg (h : 0 ≤ options.maxRepeatedLines) :
    options.scrubbed W content = joinLines (options.keptLines W content) := by
  rw [scrubbed, scrubBloatText, if_pos h]
  rfl

theorem scrubbed_of_neg (h : ¬0 ≤ options.maxRepeatedLines) :
    options.scrubbed W content = options.intermediateText W content := by
  rw [scrubbed, scrubBloatText, if_neg h]
  rfl

theorem isLine_of_mem_keptLines {line : Text} (h : line ∈ options.keptLines W content) : IsLine line :=
  isLine_of_mem_splitlines ((limitRepeats_sublist _ _ _).subset h)

theorem count_keptLines (h : 0 ≤ options.maxRepeatedLines) (line : Text) :
    ((options.keptLines W content).count line : ℤ) =
      min ((splitlines (options.intermediateText W content)).count line : ℤ) options.maxRepeatedLines := by
  rw [keptLines, count_limitRepeats]
  omega

theorem mem_findAll_scrubbed (h : options.maxRepeatedLines ≠ 0) {p : Pattern CodePoint} (hp : p.StopsAt Breaks)
    {found : Text} : found ∈ p.findAll (options.scrubbed W content) ↔
      found ∈ p.findAll (options.intermediateText W content) := by
  by_cases hlimit : 0 ≤ options.maxRepeatedLines
  · have hpos : 0 < options.maxRepeatedLines.toNat := by omega
    rw [scrubbed_of_nonneg hlimit, findAll_joinLines hp fun _ hline => isLine_of_mem_keptLines hline, findAll_splitlines hp,
      List.mem_flatMap, List.mem_flatMap]
    exact exists_congr fun line => and_congr_left fun _ => mem_limitRepeats hpos
  · rw [scrubbed_of_neg hlimit]

theorem scrubbed_of_zero (h : options.maxRepeatedLines = 0) : options.scrubbed W content = [] := by
  rw [scrubbed_of_nonneg (Int.le_of_eq h.symm), keptLines, h, Int.toNat_zero, limitRepeats_zero]
  rfl

/-! ### A second time -/

theorem isBase64Like_of_mem {text span : Text} (h : span ∈ W.base64Pattern.findAll text) : IsBase64Like span := by
  obtain ⟨_, _, hmatch⟩ := Pattern.exists_matchAt_of_mem h
  exact W.isBase64Like_of_base64Length hmatch

theorem replaceBase64_of_short {span : Text} (h : (span.length : ℤ) < options.base64MinChars) :
    replaceBase64 options span = span := if_pos h

theorem PlaceholderClean.not_infix {size : ℕ} (h : options.PlaceholderClean size) {span : Text}
    (hspan : IsBase64Like span) (hsize : span.length ≤ size) (hlong : ¬(span.length : ℤ) < options.base64MinChars) :
    ¬span <:+: replaceBase64 options span := by
  rw [replaceBase64, if_neg hlong]
  exact fun hstands => hlong (h span.length span (Int.not_lt.mp hlong) hsize hstands hspan)

theorem PlaceholderClean.spansShort {size : ℕ} (h : options.PlaceholderClean size) (hsize : content.length ≤ size)
    (hstands : content <:+: W.base64Pattern.sub (replaceBase64 options) content) : options.SpansShort W content := by
  have hnot : ∀ span ∈ W.base64Pattern.findAll content, ¬(span.length : ℤ) < options.base64MinChars →
      ¬span <:+: replaceBase64 options span := fun span hspan =>
    h.not_infix (isBase64Like_of_mem hspan) ((Pattern.infix_of_mem_findAll hspan).length_le.trans hsize)
  have hspans : ∀ span ∈ W.base64Pattern.findAll content,
      replaceBase64 options span = span ∨ ¬span <:+: replaceBase64 options span := by
    intro span hspan
    by_cases hshort : (span.length : ℤ) < options.base64MinChars
    · exact Or.inl (replaceBase64_of_short hshort)
    · exact Or.inr (hnot span hspan hshort)
  intro span hspan
  have hsame := Pattern.forall_of_infix hspans hstands span hspan
  by_contra hlong
  exact hnot span hspan hlong (hsame.symm ▸ List.infix_rfl)

theorem intermediateText_of_no_escape (h : ansiPattern.findAll content = []) :
    options.intermediateText W content = W.base64Pattern.sub (replaceBase64 options) content := by
  have hvisible : ansiPattern.sub (fun _ => []) content = content := by
    refine Pattern.sub_eq_self ?_
    rw [h]
    exact List.forall_mem_nil _
  rw [intermediateText, hvisible]

theorem sub_of_spansShort (h : options.SpansShort W content) :
    W.base64Pattern.sub (replaceBase64 options) content = content :=
  Pattern.sub_eq_self fun span hspan => replaceBase64_of_short (h span hspan)

namespace Clean

theorem intermediateText (h : options.Clean W content) : options.intermediateText W content = content := by
  rw [intermediateText_of_no_escape h.no_escape, sub_of_spansShort h.short]

theorem scrubbed_eq_self_iff (h : options.Clean W content) :
    options.scrubbed W content = content ↔ (0 ≤ options.maxRepeatedLines → LineForm content) := by
  by_cases hlimit : 0 ≤ options.maxRepeatedLines
  · have hkept : options.keptLines W content = splitlines content := by
      rw [keptLines, h.intermediateText]
      refine limitRepeats_eq_self fun line => ?_
      have := h.rare hlimit line
      omega
    rw [scrubbed_of_nonneg hlimit, hkept, joinLines_splitlines_iff, forall_prop_of_true hlimit]
  · rw [scrubbed_of_neg hlimit, h.intermediateText]
    exact ⟨fun _ hnonneg => absurd hnonneg hlimit, fun _ => rfl⟩

end Clean

theorem count_splitlines_scrubbed (h : 0 ≤ options.maxRepeatedLines) (line : Text) :
    ((splitlines (options.scrubbed W content)).count line : ℤ) ≤ options.maxRepeatedLines := by
  have hkept : ((options.keptLines W content).count line : ℤ) = _ := count_keptLines h line
  have hsub : (splitlines (options.scrubbed W content)).Sublist (options.keptLines W content) := by
    rw [scrubbed_of_nonneg h]
    exact splitlines_joinLines_sublist fun _ hline => isLine_of_mem_keptLines hline
  have := hsub.count_le line
  omega

theorem PlaceholderClean.spansShort_of_lines {size : ℕ} (h : options.PlaceholderClean size)
    (hlimit : 0 ≤ options.maxRepeatedLines) {lines : List Text} (hsize : (joinLines lines).length ≤ size)
    (hlines : ∀ line ∈ lines, IsLine line) (hescape : ansiPattern.findAll (joinLines lines) = [])
    (hsame : options.scrubbed W (joinLines lines) = joinLines lines) : options.SpansShort W (joinLines lines) := by
  by_cases hempty : joinLines lines = []
  · intro span hspan
    rw [hempty] at hspan
    cases hspan
  have hkept : options.keptLines W (joinLines lines) = lines := by
    rw [scrubbed_of_nonneg hlimit] at hsame
    refine joinLines_inj (fun _ hline => isLine_of_mem_keptLines hline) hlines ?_ ?_ hsame
    · intro hnil
      rw [hnil] at hsame
      exact hempty hsame.symm
    · rintro rfl
      exact hempty rfl
  have himages : lines.Sublist (lines.flatMap fun line =>
      splitlines (W.base64Pattern.sub (replaceBase64 options) line ++ [newline])) := by
    have hsub := limitRepeats_sublist options.maxRepeatedLines.toNat (fun _ => 0)
      (splitlines (options.intermediateText W (joinLines lines)))
    rw [← keptLines, hkept, intermediateText_of_no_escape hescape,
      sub_joinLines W.base64Pattern_stopsAt _ hlines] at hsub
    have := hsub.trans (sublist_splitlines_joinLines _)
    rwa [List.flatMap_map] at this
  have hshort : ∀ line ∈ lines, line ∈ splitlines (W.base64Pattern.sub (replaceBase64 options) line ++ [newline]) →
      options.SpansShort W line := by
    intro line hline hmem
    refine h.spansShort ((length_le_joinLines hline).trans hsize) ?_
    exact infix_of_mem_splitlines_terminated (hlines line hline).newline_notMem hmem
  have hfixed := forall_image_eq (fun line hline hmem => by
    rw [sub_of_spansShort (hshort line hline hmem), splitlines_append_newline (hlines line hline)]
    rfl) himages
  intro span hspan
  rw [findAll_joinLines W.base64Pattern_stopsAt hlines, List.mem_flatMap] at hspan
  obtain ⟨line, hline, hspan⟩ := hspan
  refine hshort line hline ?_ span hspan
  rw [hfixed line hline]
  exact List.mem_singleton_self line

/-! ### When scrubbing does it -/

theorem no_escape_scrubbed_iff : ansiPattern.findAll (options.scrubbed W content) = [] ↔
    (options.maxRepeatedLines ≠ 0 → ansiPattern.findAll (options.intermediateText W content) = []) := by
  by_cases hzero : options.maxRepeatedLines = 0
  · rw [scrubbed_of_zero hzero]
    exact ⟨fun _ hne => absurd hzero hne, fun _ => rfl⟩
  · rw [forall_prop_of_true hzero, List.eq_nil_iff_forall_not_mem, List.eq_nil_iff_forall_not_mem]
    exact forall_congr' fun _ => not_congr (mem_findAll_scrubbed hzero ansiPattern_stopsAt)

theorem spansShort_scrubbed_iff (h : options.maxRepeatedLines ≠ 0) :
    options.SpansShort W (options.scrubbed W content) ↔ options.SpansShort W (options.intermediateText W content) :=
  forall_congr' fun _ => imp_congr_left (mem_findAll_scrubbed h W.base64Pattern_stopsAt)

/-- What is left to do the second time: to replace spans that the first time made, and to drop an empty line at the end. -/
theorem scrubbed_scrubbed_iff (hplaceholder : options.PlaceholderClean (options.size W content))
    (hescape : ansiPattern.findAll (options.scrubbed W content) = []) :
    options.scrubbed W (options.scrubbed W content) = options.scrubbed W content ↔
      (options.maxRepeatedLines ≠ 0 → options.SpansShort W (options.intermediateText W content) ∧
        (0 ≤ options.maxRepeatedLines →
          ¬(2 ≤ (options.keptLines W content).length ∧ (options.keptLines W content).getLast? = some []))) := by
  by_cases hzero : options.maxRepeatedLines = 0
  · rw [scrubbed_of_zero hzero, scrubbed_of_zero hzero]
    exact ⟨fun _ hne => absurd hzero hne, fun _ => rfl⟩
  rw [forall_prop_of_true hzero, ← spansShort_scrubbed_iff hzero]
  have hlineForm : 0 ≤ options.maxRepeatedLines → (LineForm (options.scrubbed W content) ↔
      ¬(2 ≤ (options.keptLines W content).length ∧ (options.keptLines W content).getLast? = some [])) := by
    intro hlimit
    rw [scrubbed_of_nonneg hlimit]
    exact lineForm_joinLines fun _ hline => isLine_of_mem_keptLines hline
  have hclean (hshort : options.SpansShort W (options.scrubbed W content)) :
      options.Clean W (options.scrubbed W content) := ⟨hescape, hshort, count_splitlines_scrubbed⟩
  constructor
  · intro hsame
    have hsize : (options.scrubbed W content).length ≤ options.size W content := Nat.le_max_right _ _
    have hshort : options.SpansShort W (options.scrubbed W content) := by
      by_cases hlimit : 0 ≤ options.maxRepeatedLines
      · have hlines : options.scrubbed W content = joinLines (options.keptLines W content) := scrubbed_of_nonneg hlimit
        rw [hlines] at hsame hescape hsize ⊢
        exact hplaceholder.spansShort_of_lines hlimit hsize (fun _ hline => isLine_of_mem_keptLines hline) hescape hsame
      · rw [scrubbed_of_neg hlimit, intermediateText_of_no_escape hescape] at hsame
        exact hplaceholder.spansShort hsize (hsame.symm ▸ List.infix_rfl)
    exact ⟨hshort, fun hlimit => (hlineForm hlimit).mp ((hclean hshort).scrubbed_eq_self_iff.mp hsame hlimit)⟩
  · rintro ⟨hshort, hend⟩
    exact (hclean hshort).scrubbed_eq_self_iff.mpr fun hlimit => (hlineForm hlimit).mpr (hend hlimit)

end ScrubOptions

def asciiWords : WordClass where
  isWord := isAsciiWord
  ascii _ _ := rfl
  breaks _ h := printableOnly_isAsciiWord.of_break h

end VidbyteSdk.Middleware.Compaction

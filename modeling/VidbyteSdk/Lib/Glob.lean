import Mathlib.Data.List.Infix

/-!
# File-name patterns

Shell-style patterns: `*` stands for any characters, `?` for one, and `[..]` for one of a set, which `!` negates
and in which `a-b` is a range. A bracket that is never closed stands for itself. `escape` brackets the characters
that are special outside a set, so an escaped text matches itself and nothing else.
-/

namespace VidbyteSdk.Lib.Glob

inductive Piece where
  | star
  | any
  | oneOf (negated : Bool) (set : List Char)
  | lit (c : Char)
  deriving DecidableEq

def upToBracket : List Char → Option (List Char × List Char)
  | [] => none
  | c :: rest => if c = ']' then some ([], rest) else (upToBracket rest).map fun r => (c :: r.1, r.2)

theorem length_of_upToBracket {pattern set rest : List Char} (h : upToBracket pattern = some (set, rest)) :
    rest.length < pattern.length := by
  induction pattern generalizing set with
  | nil => cases h
  | cons c pattern ih =>
    rw [upToBracket] at h
    split at h
    · obtain ⟨-, rfl⟩ := Prod.mk.inj (Option.some.inj h)
      exact Nat.lt_succ_self _
    · obtain ⟨r, hr, heq⟩ := Option.map_eq_some_iff.mp h
      obtain ⟨-, rfl⟩ := Prod.mk.inj heq
      exact Nat.lt_succ_of_lt (ih hr)

/-- The set after an opening bracket: a first `]` is one of its characters. -/
def setAfter : List Char → Option (List Char × List Char)
  | [] => none
  | c :: rest => (upToBracket rest).map fun r => (c :: r.1, r.2)

theorem length_of_setAfter {pattern set rest : List Char} (h : setAfter pattern = some (set, rest)) :
    rest.length < pattern.length := by
  cases pattern with
  | nil => cases h
  | cons c pattern =>
    obtain ⟨r, hr, heq⟩ := Option.map_eq_some_iff.mp h
    obtain ⟨-, rfl⟩ := Prod.mk.inj heq
    exact Nat.lt_succ_of_lt (length_of_upToBracket hr)

/-- The bracketed set a pattern opens with, after its `[`. -/
def bracket : List Char → Option (Piece × List Char)
  | '!' :: rest => (setAfter rest).map fun r => (.oneOf true r.1, r.2)
  | pattern => (setAfter pattern).map fun r => (.oneOf false r.1, r.2)

theorem length_of_bracket {pattern rest : List Char} {piece : Piece} (h : bracket pattern = some (piece, rest)) :
    rest.length < pattern.length := by
  unfold bracket at h
  split at h
  · obtain ⟨r, hr, heq⟩ := Option.map_eq_some_iff.mp h
    obtain ⟨-, rfl⟩ := Prod.mk.inj heq
    exact Nat.lt_succ_of_lt (length_of_setAfter hr)
  · obtain ⟨r, hr, heq⟩ := Option.map_eq_some_iff.mp h
    obtain ⟨-, rfl⟩ := Prod.mk.inj heq
    exact length_of_setAfter hr

def parse : List Char → List Piece
  | [] => []
  | c :: rest =>
    if c = '*' then .star :: parse rest
    else if c = '?' then .any :: parse rest
    else if c = '[' then
      match h : bracket rest with
      | some (piece, after) =>
        have := length_of_bracket h
        piece :: parse after
      | none => .lit '[' :: parse rest
    else .lit c :: parse rest
termination_by pattern => pattern.length

def inSet (c : Char) : List Char → Bool
  | low :: '-' :: high :: rest => (low ≤ c && c ≤ high) || inSet c rest
  | d :: rest => c = d || inSet c rest
  | [] => false

def Piece.accepts (c : Char) : Piece → Bool
  | .star => false
  | .any => true
  | .oneOf negated set => inSet c set != negated
  | .lit d => c = d

def fits : List Piece → List Char → Bool
  | [], text => text.isEmpty
  | .star :: pieces, text => text.tails.any (fits pieces)
  | _ :: _, [] => false
  | piece :: pieces, c :: text => piece.accepts c && fits pieces text

/-- `fnmatch` on a file name. -/
def fnmatch (pattern text : List Char) : Bool := fits (parse pattern) text

/-- `glob.escape`. -/
def escape (text : List Char) : List Char :=
  text.flatMap fun c => if c ∈ ['*', '?', '['] then ['[', c, ']'] else [c]

/-! ### Escaped texts -/

def escapedPiece (c : Char) : Piece := if c ∈ ['*', '?', '['] then .oneOf false [c] else .lit c

theorem parse_escape (text : List Char) : parse (escape text) = text.map escapedPiece := by
  induction text with
  | nil => rw [escape, List.flatMap_nil, parse, List.map_nil]
  | cons c text ih =>
    rw [escape, List.flatMap_cons, ← escape, List.map_cons, escapedPiece, ← ih]
    by_cases hspecial : c ∈ ['*', '?', '[']
    · rw [if_pos hspecial, if_pos hspecial]
      have hnot : c ≠ '!' := by
        rintro rfl
        exact absurd hspecial (by decide)
      have hset : bracket (c :: ']' :: escape text) = some (.oneOf false [c], escape text) := by
        unfold bracket
        split
        · next h => exact absurd (List.cons.inj h).1 hnot
        · rw [setAfter, upToBracket, if_pos rfl]
          rfl
      rw [List.cons_append, List.cons_append, List.cons_append, List.nil_append, parse, if_neg (by decide),
        if_neg (by decide), if_pos rfl]
      split
      · next piece after h =>
        obtain ⟨rfl, rfl⟩ := Prod.mk.inj (Option.some.inj (h.symm.trans hset))
        rfl
      · next h => cases h.symm.trans hset
    · rw [if_neg hspecial, if_neg hspecial, List.singleton_append, parse]
      simp only [List.mem_cons, List.not_mem_nil, or_false, not_or] at hspecial
      rw [if_neg hspecial.1, if_neg hspecial.2.1, if_neg hspecial.2.2]

theorem escapedPiece_accepts {c d : Char} : (escapedPiece d).accepts c = true ↔ c = d := by
  unfold escapedPiece
  split <;> simp [Piece.accepts, inSet]

theorem escapedPiece_ne_star (c : Char) : escapedPiece c ≠ .star := by
  unfold escapedPiece
  split <;> exact nofun

theorem fits_escaped {text name : List Char} : fits (text.map escapedPiece) name = true ↔ name = text := by
  induction text generalizing name with
  | nil => rw [List.map_nil, fits, List.isEmpty_iff]
  | cons d text ih =>
    cases name with
    | nil =>
      rw [List.map_cons, fits]
      · simp
      · exact escapedPiece_ne_star d
    | cons c name =>
      rw [List.map_cons, fits, Bool.and_eq_true, escapedPiece_accepts, ih, List.cons.injEq]
      exact escapedPiece_ne_star d

theorem fnmatch_star_escape {text name : List Char} : fnmatch ('*' :: escape text) name = true ↔ text <:+ name := by
  rw [fnmatch, parse, if_pos rfl, parse_escape, fits, List.any_eq_true]
  constructor
  · rintro ⟨tail, htail, hfits⟩
    rw [← fits_escaped.mp hfits]
    exact (List.mem_tails _ _).mp htail
  · intro h
    exact ⟨text, (List.mem_tails _ _).mpr h, fits_escaped.mpr rfl⟩

end VidbyteSdk.Lib.Glob

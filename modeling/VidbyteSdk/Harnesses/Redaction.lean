import VidbyteSdk.Lib.Substitution
import VidbyteSdk.Lib.Text
import VidbyteSdk.Lib.Values
import VidbyteSdk.Util.CredentialKeys

/-!
# Redaction of captured values

`HarnessRedactor` of `harnesses/serialization.py`. A captured value is a graph: containers are objects, known by their
places, that may be shared and may contain themselves. The redactor projects it to plain data without credential keys,
and scrubs the texts in it.
-/

namespace VidbyteSdk.Harnesses

open Lib Util

/-! ### `_ERROR_ASSIGNMENT` -/

namespace Assignment

/-- A letter of the pattern, without regard to case: `re` takes four letters outside ASCII for cases of `i`, `k` and
`s`. -/
def isLetter (letter c : Char) : Bool :=
  c = letter || c = letter.toUpper || (letter = 'i' && (c.toNat = 0x130 || c.toNat = 0x131)) ||
    (letter = 'k' && c.toNat = 0x212A) || (letter = 's' && c.toNat = 0x17F)

/-- `[A-Za-z0-9]` without regard to case. -/
def isAlnum (c : Char) : Bool := c.isAlphanum || [0x130, 0x131, 0x17F, 0x212A].contains c.toNat

/-- A piece of a word: a letter, `s?` or `[_-]?`. -/
inductive Piece where
  | letter (c : Char)
  | maybeS
  | maybeSeparator
  deriving DecidableEq

def word (letters : String) : List Piece := letters.toList.map .letter

/-- Two words with `[_-]?` between them. -/
def words (first second : String) : List Piece := word first ++ .maybeSeparator :: word second

def names : List (List Piece) :=
  [words "api" "key" ++ [.maybeS], words "provider" "key", words "private" "key", words "secret" "key",
    words "access" "key", words "access" "token", words "refresh" "token", word "token", word "password", word "secret",
    word "credential", word "authorization"]

/-- `(?:bearer|basic|token|api[_-]?key)` -/
def schemes : List (List Piece) := [word "bearer", word "basic", word "token", words "api" "key"]

def afterWord : List Piece → List Char → Option (List Char)
  | [], text => some text
  | .letter letter :: pieces, c :: text => if isLetter letter c then afterWord pieces text else none
  | .letter _ :: _, [] => none
  | .maybeS :: pieces, text =>
    match text with
    | c :: rest => if isLetter 's' c then afterWord pieces rest else afterWord pieces text
    | [] => afterWord pieces []
  | .maybeSeparator :: pieces, text =>
    match text with
    | c :: rest => if c = '_' || c = '-' then afterWord pieces rest else afterWord pieces text
    | [] => afterWord pieces []

def afterSpaces (text : List Char) : List Char := text.dropWhile isSpace

/-- What is left behind a quoted text, its opening quote read: a backslash takes the character behind it along, which is
no line feed. -/
def afterQuoted (quote : Char) : List Char → Option (List Char)
  | [] => none
  | c :: text =>
    if c = quote then some text
    else if c = '\\' then
      match text with
      | d :: rest => if d = '\n' then none else afterQuoted quote rest
      | [] => none
    else afterQuoted quote text

def afterBracketed (close : Char) (text : List Char) : Option (List Char) :=
  match text.dropWhile (· ≠ close) with
  | _ :: rest => some rest
  | [] => none

/-- `[^\s,;]+` -/
def afterBare (text : List Char) : Option (List Char) :=
  let isBare (c : Char) : Bool := !isSpace c && c ≠ ',' && c ≠ ';'
  match text with
  | c :: rest => if isBare c then some (rest.dropWhile isBare) else none
  | [] => none

/-- The alternatives of the last group: a quoted text, a list or a tuple, or else a bare one. -/
def afterValue (text : List Char) : Option (List Char) :=
  let enclosed :=
    match text with
    | '"' :: rest => afterQuoted '"' rest
    | '\'' :: rest => afterQuoted '\'' rest
    | '[' :: rest => afterBracketed ']' rest
    | '(' :: rest => afterBracketed ')' rest
    | _ => none
  enclosed.or (afterBare text)

def afterScheme (text : List Char) (scheme : List Piece) : Option (List Char) :=
  (afterWord scheme text).bind fun rest =>
    if rest.head?.any isSpace then afterValue (afterSpaces rest) else none

/-- `["']?` -/
def afterQuote : List Char → List Char
  | c :: rest => if c = '"' || c = '\'' then rest else c :: rest
  | [] => []

def afterName (text : List Char) : Option (List Char) :=
  match afterSpaces (afterQuote text) with
  | c :: rest =>
    if c = ':' || c = '=' then
      let value := afterSpaces rest
      (schemes.findSome? (afterScheme value)).or (afterValue value)
    else none
  | [] => none

def beginsName (prev : Option Char) (text : List Char) : Bool :=
  !prev.any isAlnum || (prev.any fun c => c.isLower || c.isDigit) && text.head?.any Char.isUpper

def afterAssignment (prev : Option Char) (text : List Char) : Option (List Char) :=
  if beginsName prev text then names.findSome? fun name => (afterWord name text).bind afterName else none

/-! What is left of a text is no longer than the text. -/

variable {text rest : List Char}

theorem afterWord_length {pieces : List Piece} (h : afterWord pieces text = some rest) :
    rest.length ≤ text.length := by
  fun_induction afterWord pieces text with
  | case1 text => exact Option.some.inj h ▸ Nat.le_refl _
  | case2 _ _ _ _ _ ih => exact Nat.le_succ_of_le (ih h)
  | case3 => cases h
  | case4 => cases h
  | case5 _ _ _ _ ih => exact Nat.le_succ_of_le (ih h)
  | case6 _ _ _ _ ih => exact ih h
  | case7 _ ih => exact ih h
  | case8 _ _ _ _ ih => exact Nat.le_succ_of_le (ih h)
  | case9 _ _ _ _ ih => exact ih h
  | case10 _ ih => exact ih h

theorem afterSpaces_length (text : List Char) : (afterSpaces text).length ≤ text.length :=
  (List.dropWhile_sublist _).length_le

theorem afterQuoted_length {quote : Char} (h : afterQuoted quote text = some rest) :
    rest.length ≤ text.length := by
  fun_induction afterQuoted quote text with
  | case1 => cases h
  | case2 => exact Option.some.inj h ▸ Nat.le_succ _
  | case3 => cases h
  | case4 _ _ _ _ ih => exact Nat.le_succ_of_le (Nat.le_succ_of_le (ih h))
  | case5 => cases h
  | case6 _ _ _ _ ih => exact Nat.le_succ_of_le (ih h)

theorem afterBracketed_length {close : Char} (h : afterBracketed close text = some rest) :
    rest.length ≤ text.length := by
  have hdrop := (List.dropWhile_sublist (l := text) fun c => decide (c ≠ close)).length_le
  rw [afterBracketed] at h
  split at h
  · next c left hleft =>
    rw [hleft] at hdrop
    exact Option.some.inj h ▸ Nat.le_of_succ_le hdrop
  · cases h

theorem afterBare_length (h : afterBare text = some rest) : rest.length ≤ text.length := by
  cases text with
  | nil => cases h
  | cons c text =>
    obtain ⟨-, hrest⟩ := Option.ite_none_right_eq_some.mp h
    rw [← Option.some.inj hrest]
    exact Nat.le_succ_of_le (List.dropWhile_sublist _).length_le

theorem afterValue_length (h : afterValue text = some rest) : rest.length ≤ text.length := by
  rcases Option.or_eq_some_iff.mp h with henclosed | ⟨-, hbare⟩
  · split at henclosed
    · exact Nat.le_succ_of_le (afterQuoted_length henclosed)
    · exact Nat.le_succ_of_le (afterQuoted_length henclosed)
    · exact Nat.le_succ_of_le (afterBracketed_length henclosed)
    · exact Nat.le_succ_of_le (afterBracketed_length henclosed)
    · cases henclosed
  · exact afterBare_length hbare

theorem afterScheme_length {scheme : List Piece} (h : afterScheme text scheme = some rest) :
    rest.length ≤ text.length := by
  obtain ⟨left, hleft, hvalue⟩ := Option.bind_eq_some_iff.mp h
  obtain ⟨-, hvalue⟩ := Option.ite_none_right_eq_some.mp hvalue
  calc rest.length ≤ (afterSpaces left).length := afterValue_length hvalue
    _ ≤ left.length := afterSpaces_length left
    _ ≤ text.length := afterWord_length hleft

theorem afterQuote_length (text : List Char) : (afterQuote text).length ≤ text.length := by
  cases text with
  | nil => exact Nat.le_refl _
  | cons c rest =>
    rw [afterQuote]
    split
    · exact Nat.le_succ _
    · exact Nat.le_refl _

theorem afterName_length (h : afterName text = some rest) : rest.length < text.length := by
  have hspaces := Nat.le_trans (afterSpaces_length (afterQuote text)) (afterQuote_length text)
  rw [afterName] at h
  split at h
  · next c left hleft =>
    rw [hleft] at hspaces
    obtain ⟨-, hvalue⟩ := Option.ite_none_right_eq_some.mp h
    have hrest : rest.length ≤ (afterSpaces left).length := by
      rcases Option.or_eq_some_iff.mp hvalue with hscheme | ⟨-, hvalue⟩
      · obtain ⟨scheme, -, hscheme⟩ := List.exists_of_findSome?_eq_some hscheme
        exact afterScheme_length hscheme
      · exact afterValue_length hvalue
    calc rest.length ≤ left.length := Nat.le_trans hrest (afterSpaces_length left)
      _ < text.length := hspaces
  · cases h

theorem afterAssignment_length {prev : Option Char}
    (h : afterAssignment prev text = some rest) : rest.length < text.length := by
  obtain ⟨-, hname⟩ := Option.ite_none_right_eq_some.mp h
  obtain ⟨name, -, hname⟩ := List.exists_of_findSome?_eq_some hname
  obtain ⟨left, hleft, hrest⟩ := Option.bind_eq_some_iff.mp hname
  exact Nat.lt_of_lt_of_le (afterName_length hrest) (afterWord_length hleft)

end Assignment

/-- `_ERROR_ASSIGNMENT` -/
def errorAssignment : Pattern Char where
  matchAt prev text := (Assignment.afterAssignment prev text).map fun rest => text.length - rest.length
  matchAt_bounds := by
    intro prev text n h
    obtain ⟨rest, hrest, rfl⟩ := Option.map_eq_some_iff.mp h
    exact ⟨Nat.sub_pos_of_lt (Assignment.afterAssignment_length hrest), Nat.sub_le _ _⟩

/-- `match.group(1)`: a name has no character that can follow it. -/
def assignedName (found : List Char) : List Char :=
  found.takeWhile fun c => !isSpace c && !(['"', '\'', ':', '='].contains c)

/-- `_scrub_text` -/
def scrubText (text : String) : String :=
  .ofList (errorAssignment.sub (fun found => assignedName found ++ "=<redacted>".toList) text.toList)

/-! ### Captured values -/

/-- A value, containers by their places. What `str` or `isoformat` makes of a path, a UUID or a date stands for the
value. -/
inductive Captured where
  | null
  | bool (b : Bool)
  | int (n : ℤ)
  | float (repr : String) (isFinite : Bool)
  | str (s : String)
  | rendered (s : String)
  | member (value : Captured)
  | ref (place : ℕ)
  deriving DecidableEq

def Captured.plain : Captured → Captured
  | member value => value.plain
  | other => other

/-- A container, or another object with what its exporter gives, if it has one. -/
inductive Container where
  | mapping (entries : List (Key × Captured))
  | sequence (items : List Captured)
  | set (items : List Captured)
  | dataclass (fields : List (String × Captured))
  | exported (typeName : String) (dump : Option Captured)
  deriving DecidableEq

def Container.values : Container → List Captured
  | mapping entries => entries.map Prod.snd
  | sequence items | set items => items
  | dataclass fields => fields.map Prod.snd
  | exported _ dump => dump.toList

/-- The values that are or lead to a container are those of containers that are there. -/
def Captured.Within (count : ℕ) (value : Captured) : Prop := ∀ place, value.plain = .ref place → place < count

/-- A finite graph of containers with a value to begin at. -/
structure Capture where
  containers : List Container
  root : Captured
  closed : ∀ container ∈ containers, ∀ value ∈ container.values, value.Within containers.length
  root_within : root.Within containers.length

/-! ### `HarnessRedactor` -/

/-- What the standard library gives the redactor: case mapping, and `repr` of a value of a graph. -/
structure RedactorRuntime extends Casing where
  repr : List Container → Captured → String

def dropped (reason : String) : Value := .mapping [(⟨"__dropped__", true⟩, .str reason)]

section

variable (rt : RedactorRuntime) (containers : List Container)

/-- `sorted(value, key=repr)` -/
def sortedByRepr (items : List Captured) : List Captured :=
  items.mergeSort fun a b => decide (rt.repr containers a ≤ rt.repr containers b)

/-- `HarnessSecretPolicy.is_secret_key` -/
def isSecretKey (key : String) : Bool := CredentialKeyPolicy.isSecretKey rt.toCasing key

/-- `_safe_mapping`: of keys with one text the last value, at the place of the first. -/
def safeMapping (safe : Captured → Option Value) (entries : List (Key × Captured)) : Option Value :=
  ((entries.filter fun entry => !isSecretKey rt entry.1.text).mapM fun entry =>
    (safe entry.2).map fun value => ((⟨entry.1.text, true⟩ : Key), value)).map
      fun entries => .mapping (upsertAll Prod.fst entries)

/-- `_project_structured_value` -/
def projectStructuredValue (safe : Captured → Option Value) : Container → Option Value
  | .mapping entries => safeMapping rt safe entries
  | .sequence items => (items.mapM safe).map .list
  | .set items => ((sortedByRepr rt containers items).mapM safe).map .list
  | .dataclass fields => safeMapping rt safe (fields.map fun field => (⟨field.1, true⟩, field.2))
  | .exported typeName none => some (dropped typeName)
  | .exported _ (some dump) => safe dump

/-- `_safe`, with the places on the current path. The fuel bounds the length of the path. -/
def safe : ℕ → List ℕ → Captured → Option Value
  | 0, _, _ => none
  | fuel + 1, active, value =>
    match value.plain with
    | .null => some .null
    | .bool b => some (.bool b)
    | .int n => some (.int n)
    | .float repr isFinite => some (if isFinite then .float repr else dropped "non_finite_float")
    | .str s => some (.str (scrubText s))
    | .rendered s => some (.str s)
    | .member _ => none
    | .ref place =>
      if place ∈ active then some (dropped "recursive_reference")
      else containers[place]?.bind (projectStructuredValue rt containers (safe fuel (place :: active)))

end

/-- `redact` -/
def redact (rt : RedactorRuntime) (capture : Capture) : Option Value :=
  safe rt capture.containers (capture.containers.length + 1) [] capture.root

end VidbyteSdk.Harnesses

import VidbyteSdk.Lib.Upsert

/-!
# JSON text

The JSON that the source's `json` module writes and reads. A text is a list of code points, lone
surrogates included, since a string of the source may hold them. A scalar is read as one maximal
word (letters, digits, `.`, `+` and `-`): no such character can follow a scalar in a JSON text, so
reading a shorter word would fail one character later.
-/

namespace VidbyteSdk.Lib

abbrev CodePoint := Fin 0x110000

abbrev Text := List CodePoint

instance CodePoint.neZero : NeZero 0x110000 := ⟨Nat.succ_ne_zero _⟩
instance CodePoint.lawfulBEq : LawfulBEq CodePoint := inferInstance
instance Text.lawfulBEq : LawfulBEq Text := inferInstance

namespace CodePoint

def ofChar (c : Char) : CodePoint :=
  ⟨c.toNat, by
    have := c.valid
    simp only [UInt32.isValidChar, Nat.isValidChar, Char.toNat] at *
    omega⟩

def isHigh (c : CodePoint) : Bool := 0xD800 ≤ c.val && c.val ≤ 0xDBFF

def isLow (c : CodePoint) : Bool := 0xDC00 ≤ c.val && c.val ≤ 0xDFFF

def isSurrogate (c : CodePoint) : Bool := c.isHigh || c.isLow

def joined (high low : CodePoint) : CodePoint :=
  Fin.ofNat _ (0x10000 + (high.val - 0xD800) * 0x400 + (low.val - 0xDC00))

def high (c : CodePoint) : CodePoint := Fin.ofNat _ (0xD800 + (c.val - 0x10000) / 0x400)

def low (c : CodePoint) : CodePoint := Fin.ofNat _ (0xDC00 + (c.val - 0x10000) % 0x400)

def isWs (c : CodePoint) : Bool := c = 0x20 || c = 0x09 || c = 0x0A || c = 0x0D

def isDigit (c : CodePoint) : Bool := 0x30 ≤ c.val && c.val ≤ 0x39

/-- A character that a number, `null`, `true`, `false`, `NaN` or `Infinity` may hold. -/
def isWordChar (c : CodePoint) : Bool :=
  c.isDigit || (0x41 ≤ c.val && c.val ≤ 0x5A) || (0x61 ≤ c.val && c.val ≤ 0x7A) ||
    c = 0x2E || c = 0x2B || c = 0x2D

end CodePoint

namespace Json

open CodePoint

abbrev quote : CodePoint := 0x22
abbrev backslash : CodePoint := 0x5C
abbrev comma : CodePoint := 0x2C
abbrev colon : CodePoint := 0x3A
abbrev space : CodePoint := 0x20
abbrev minus : CodePoint := 0x2D
abbrev leftBracket : CodePoint := 0x5B
abbrev rightBracket : CodePoint := 0x5D
abbrev leftBrace : CodePoint := 0x7B
abbrev rightBrace : CodePoint := 0x7D

def word (cs : List Char) : Text := cs.map ofChar

/-! ### Scalars -/

inductive WordKind
  | null
  | true
  | false
  | int
  | float
  deriving DecidableEq

/-- `[eE][-+]?[0-9]+`, to the end of the word. -/
def isExponent : Text → Bool
  | e :: sign :: digits =>
    (e = 0x65 || e = 0x45) &&
      (((sign = 0x2B || sign = minus) && !digits.isEmpty && digits.all isDigit) ||
        (sign :: digits).all isDigit)
  | _ => .false

/-- What follows the whole part of a number: nothing, or a fraction, an exponent, or both. -/
def fractionKind : Text → Option WordKind
  | [] => some .int
  | c :: rest =>
    if c = 0x2E then
      let tail := rest.dropWhile isDigit
      if (rest.takeWhile isDigit).isEmpty then none
      else if tail.isEmpty || isExponent tail then some .float
      else none
    else if isExponent (c :: rest) then some .float
    else none

/-- `0|[1-9][0-9]*` -/
def isWhole : Text → Bool
  | [] => .false
  | c :: rest => c ≠ 0x30 || rest.isEmpty

def unsignedKind (t : Text) : Option WordKind :=
  if isWhole (t.takeWhile isDigit) then fractionKind (t.dropWhile isDigit) else none

def unsigned : Text → Text
  | [] => []
  | c :: rest => if c = minus then rest else c :: rest

def constants : List (Text × WordKind) :=
  [(word ['n', 'u', 'l', 'l'], .null), (word ['t', 'r', 'u', 'e'], .true),
    (word ['f', 'a', 'l', 's', 'e'], .false), (word ['N', 'a', 'N'], .float),
    (word ['I', 'n', 'f', 'i', 'n', 'i', 't', 'y'], .float),
    (word ['-', 'I', 'n', 'f', 'i', 'n', 'i', 't', 'y'], .float)]

def wordKind (t : Text) : Option WordKind :=
  match unsignedKind (unsigned t) with
  | some kind => some kind
  | none => constants.lookup t

structure FloatLiteral where
  text : Text
  valid : wordKind text = some .float

/-- `int(digits)` -/
def ofDigits (t : Text) : Nat :=
  t.foldl (fun n c => 10 * n + (c.val - 0x30)) 0

def digitsOf (n : Nat) : Text := (Nat.toDigits 10 n).map ofChar

/-- `str(n)` -/
def intText (n : Int) : Text :=
  if n < 0 then minus :: digitsOf n.natAbs else digitsOf n.natAbs

def intOf : Text → Int
  | [] => 0
  | c :: rest => if c = minus then -(ofDigits rest : Int) else (ofDigits (c :: rest) : Int)

end Json

/-- A value of the source that its `json` module writes. -/
inductive Json
  | null
  | bool (b : Bool)
  | int (n : Int)
  | float (lit : Json.FloatLiteral)
  | str (t : Text)
  | arr (items : List Json)
  | obj (members : List (Text × Json))

namespace Json

open CodePoint

def readWord (t : Text) : Option Json :=
  match h : wordKind t with
  | some .null => some .null
  | some .true => some (.bool true)
  | some .false => some (.bool false)
  | some .int => some (.int (intOf t))
  | some .float => some (.float ⟨t, h⟩)
  | none => none

/-! ### Strings -/

def hexDigit (n : Nat) : CodePoint :=
  if n % 16 < 10 then Fin.ofNat _ (0x30 + n % 16) else Fin.ofNat _ (0x57 + n % 16)

/-- `\\u{n:04x}` -/
def unicodeEscape (n : Nat) : Text :=
  [backslash, 0x75, hexDigit (n / 4096), hexDigit (n / 256), hexDigit (n / 16), hexDigit n]

/-- The two-character escapes: what stands after the backslash for each character. -/
def shortEscapes : List (CodePoint × CodePoint) :=
  [(quote, quote), (backslash, backslash), (0x0A, 0x6E), (0x0D, 0x72), (0x09, 0x74),
    (0x0C, 0x66), (0x08, 0x62)]

def escaped (ensureAscii : Bool) (c : CodePoint) : Text :=
  match shortEscapes.lookup c with
  | some e => [backslash, e]
  | none =>
    if c.val < 0x20 then unicodeEscape c.val
    else if ensureAscii && 0x7E < c.val then
      if c.val < 0x10000 then unicodeEscape c.val
      else unicodeEscape c.high.val ++ unicodeEscape c.low.val
    else [c]

def quoted (ensureAscii : Bool) (t : Text) : Text :=
  quote :: t.flatMap (escaped ensureAscii) ++ [quote]

/-- A unit of a string as it is read: a `\\u` escape may join with the next one. -/
inductive Piece
  | raw (c : CodePoint)
  | unicode (c : CodePoint)
  deriving DecidableEq

def hexValue (c : CodePoint) : Option Nat :=
  if c.isDigit then some (c.val - 0x30)
  else if 0x61 ≤ c.val ∧ c.val ≤ 0x66 then some (c.val - 0x57)
  else if 0x41 ≤ c.val ∧ c.val ≤ 0x46 then some (c.val - 0x37)
  else none

def hexValues (a b c d : CodePoint) : Option CodePoint := do
  let a ← hexValue a
  let b ← hexValue b
  let c ← hexValue c
  let d ← hexValue d
  some (Fin.ofNat _ (a * 4096 + b * 256 + c * 16 + d))

/-- What stands after a backslash for each character: the escapes written, and `/`. -/
def unescape (e : CodePoint) : Option CodePoint :=
  ((0x2F, 0x2F) :: shortEscapes.map Prod.swap).lookup e

def scanPieces : Text → Option (List Piece × Text)
  | [] => none
  | c :: rest =>
    if c = quote then some ([], rest)
    else if c = backslash then
      match rest with
      | [] => none
      | e :: rest =>
        if e = 0x75 then
          match rest with
          | a :: b :: c :: d :: rest =>
            match hexValues a b c d with
            | some n => (scanPieces rest).map fun (ps, r) => (.unicode n :: ps, r)
            | none => none
          | _ => none
        else
          match unescape e with
          | some c => (scanPieces rest).map fun (ps, r) => (.raw c :: ps, r)
          | none => none
    else if c.val < 0x20 then none
    else (scanPieces rest).map fun (ps, r) => (.raw c :: ps, r)

/-- Joins the escape of a high surrogate with the escape of a low one right after it. -/
def joinPieces : List Piece → Text
  | [] => []
  | .raw c :: rest => c :: joinPieces rest
  | .unicode high :: .unicode low :: rest =>
    if high.isHigh && low.isLow then joined high low :: joinPieces rest
    else high :: joinPieces (.unicode low :: rest)
  | .unicode c :: rest => c :: joinPieces rest

def scanString (t : Text) : Option (Text × Text) :=
  (scanPieces t).map fun (ps, r) => (joinPieces ps, r)

/-! ### Writing -/

def sequenceText (close : CodePoint) : List Text → Text
  | [] => [close]
  | [t] => t ++ [close]
  | t :: u :: ts => t ++ comma :: space :: sequenceText close (u :: ts)

mutual

/-- `json.dumps(value, ensure_ascii=...)` with the default separators. -/
def dumps (ensureAscii : Bool) : Json → Text
  | .null => word ['n', 'u', 'l', 'l']
  | .bool true => word ['t', 'r', 'u', 'e']
  | .bool false => word ['f', 'a', 'l', 's', 'e']
  | .int n => intText n
  | .float lit => lit.text
  | .str t => quoted ensureAscii t
  | .arr items => leftBracket :: sequenceText rightBracket (dumpsItems ensureAscii items)
  | .obj members => leftBrace :: sequenceText rightBrace (dumpsMembers ensureAscii members)

def dumpsItems (ensureAscii : Bool) : List Json → List Text
  | [] => []
  | item :: items => dumps ensureAscii item :: dumpsItems ensureAscii items

def dumpsMembers (ensureAscii : Bool) : List (Text × Json) → List Text
  | [] => []
  | (k, v) :: members =>
    (quoted ensureAscii k ++ colon :: space :: dumps ensureAscii v) ::
      dumpsMembers ensureAscii members

end

/-! ### Reading -/

def skipWs (t : Text) : Text := t.dropWhile isWs

def items {α : Type} (item : Text → Option (α × Text)) (close : CodePoint) :
    Nat → Text → Option (List α × Text)
  | 0, _ => none
  | n + 1, t =>
    match item t with
    | none => none
    | some (a, r) =>
      match skipWs r with
      | [] => none
      | c :: r =>
        if c = close then some ([a], r)
        else if c = comma then (items item close n (skipWs r)).map fun (as, r) => (a :: as, r)
        else none

def sequence {α : Type} (item : Text → Option (α × Text)) (close : CodePoint) (n : Nat)
    (t : Text) : Option (List α × Text) :=
  match skipWs t with
  | [] => none
  | c :: r => if c = close then some ([], r) else items item close n (c :: r)

def member {α : Type} (item : Text → Option (α × Text)) : Text → Option ((Text × α) × Text)
  | [] => none
  | c :: t =>
    if c = quote then
      match scanString t with
      | none => none
      | some (k, r) =>
        match skipWs r with
        | [] => none
        | c :: r =>
          if c = colon then (item (skipWs r)).map fun (v, r) => ((k, v), r) else none
    else none

/-- A later member replaces the value of an earlier one under its key. -/
def dictOf {α : Type} (members : List (Text × α)) : List (Text × α) :=
  upsertAll Prod.fst members

def value : Nat → Text → Option (Json × Text)
  | 0, _ => none
  | _ + 1, [] => none
  | n + 1, c :: t =>
    if c = quote then (scanString t).map fun (s, r) => (.str s, r)
    else if c = leftBracket then
      (sequence (value n) rightBracket n t).map fun (items, r) => (.arr items, r)
    else if c = leftBrace then
      (sequence (member (value n)) rightBrace n t).map fun (ms, r) => (.obj (dictOf ms), r)
    else (readWord ((c :: t).takeWhile isWordChar)).map fun j => (j, (c :: t).dropWhile isWordChar)

/-- `json.loads(text)`; `none` is the source's `JSONDecodeError`. -/
def loads (t : Text) : Option Json :=
  match value t.length (skipWs t) with
  | some (j, r) => if skipWs r = [] then some j else none
  | none => none

end Json

end VidbyteSdk.Lib

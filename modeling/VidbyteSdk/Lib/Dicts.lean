import VidbyteSdk.Lib.Words

/-!
# Payload values

The operations of the source's language on the values that its `json` module reads: type tests, `get`, item assignment,
truth values, and `str`.
-/

namespace VidbyteSdk.Lib.Json

open CodePoint

def lit (s : String) : Text := s.toList.map ofChar

/-! ### Access -/

/-- `isinstance(value, Mapping)`. -/
def isMapping : Json → Bool
  | .obj _ => true
  | _ => false

def items? : Json → Option (List Json)
  | .arr items => some items
  | _ => none

def text? : Json → Option Text
  | .str text => some text
  | _ => none

/-- `value.get(key)` of a mapping; none for any other value. -/
def get? (value : Json) (key : Text) : Option Json :=
  match value with
  | .obj members => members.lookup key
  | _ => none

/-- `key in value` of a mapping. -/
def has (value : Json) (key : Text) : Bool := (value.get? key).isSome

/-- `{**value, key: item}` of a mapping. -/
def set (value : Json) (key : Text) (item : Json) : Json :=
  match value with
  | .obj members => .obj (upsert Prod.fst (key, item) members)
  | other => other

theorem lookup_upsert {β : Type} (members : List (Text × β)) (key k : Text) (item : β) :
    (upsert Prod.fst (key, item) members).lookup k = if k = key then some item else members.lookup k := by
  rw [lookup_eq_find?, find?_upsert, lookup_eq_find?]
  by_cases hk : k = key
  · rw [if_pos hk.symm, if_pos hk]
    rfl
  · rw [if_neg (Ne.symm hk), if_neg hk]

variable {value : Json}

theorem get?_set_self (h : value.isMapping = true) (key : Text) (item : Json) :
    (value.set key item).get? key = some item := by
  cases value with
  | obj members => exact (lookup_upsert members key key item).trans (if_pos rfl)
  | _ => cases h

theorem get?_set_of_ne (value : Json) {key k : Text} (hk : k ≠ key) (item : Json) :
    (value.set key item).get? k = value.get? k := by
  cases value with
  | obj members => exact (lookup_upsert members key k item).trans (if_neg hk)
  | _ => rfl

/-- `text.strip()`. -/
def strip (text : Text) : Text := ((text.dropWhile CodePoint.isSpace).reverse.dropWhile CodePoint.isSpace).reverse

/-! ### Truth values -/

def FloatLiteral.isNonzero (number : FloatLiteral) : Bool :=
  (number.text.takeWhile fun c => c ≠ 0x65 && c ≠ 0x45).any fun c => c ≠ 0x30 && c ≠ 0x2E && c ≠ minus

/-- `bool(value)`. -/
def truthy : Json → Bool
  | .null => false
  | .bool b => b
  | .int n => n ≠ 0
  | .float number => number.isNonzero
  | .str text => !text.isEmpty
  | .arr items => !items.isEmpty
  | .obj members => !members.isEmpty

/-- The value that `a or b or ... or ""` stops at; none for the empty string at the end. `None` of a missing key is
not true. -/
def firstTruthy (values : List (Option Json)) : Option Json := (values.filterMap fun value => value).find? truthy

theorem truthy_of_firstTruthy {values : List (Option Json)} (h : firstTruthy values = some value) :
    value.truthy = true :=
  List.find?_some h

theorem firstTruthy_cons_of_truthy (h : value.truthy = true) (values : List (Option Json)) :
    firstTruthy (some value :: values) = some value :=
  List.find?_cons_of_pos h

theorem firstTruthy_cons_of_not {value : Option Json} (h : value.any truthy = false) (values : List (Option Json)) :
    firstTruthy (value :: values) = firstTruthy values := by
  cases value with
  | none => rfl
  | some value => exact List.find?_cons_of_neg (Bool.eq_false_iff.mp h)

/-! ### `str` -/

section

-- the `repr` of a string
variable (reprText : Text → Text)

def spelledFloats : List (Text × Text) :=
  [(word ['N', 'a', 'N'], word ['n', 'a', 'n']),
    (word ['I', 'n', 'f', 'i', 'n', 'i', 't', 'y'], word ['i', 'n', 'f']),
    (word ['-', 'I', 'n', 'f', 'i', 'n', 'i', 't', 'y'], word ['-', 'i', 'n', 'f'])]

mutual

/-- `repr(value)`. -/
def repr : Json → Text
  | .null => word ['N', 'o', 'n', 'e']
  | .bool true => word ['T', 'r', 'u', 'e']
  | .bool false => word ['F', 'a', 'l', 's', 'e']
  | .int n => intText n
  | .float number => (spelledFloats.lookup number.text).getD number.text
  | .str text => reprText text
  | .arr items => leftBracket :: sequenceText rightBracket (reprItems items)
  | .obj members => leftBrace :: sequenceText rightBrace (reprMembers members)

def reprItems : List Json → List Text
  | [] => []
  | item :: items => repr item :: reprItems items

def reprMembers : List (Text × Json) → List Text
  | [] => []
  | (k, v) :: members => (reprText k ++ colon :: space :: repr v) :: reprMembers members

end

/-- `str(value)`. -/
def strOf : Json → Text
  | .str text => text
  | value => repr reprText value

theorem text_ne_nil (number : FloatLiteral) : number.text ≠ [] := by
  intro h
  have hvalid := number.valid
  rw [h, wordKind_nil] at hvalid
  cases hvalid

theorem repr_float_ne_nil (number : FloatLiteral) : repr reprText (.float number) ≠ [] := by
  have hspelled : ∀ row ∈ spelledFloats, row.2 ≠ [] := forall_mem_of_all (by decide)
  rw [repr]
  cases h : spelledFloats.lookup number.text with
  | none => exact text_ne_nil number
  | some spelled => exact hspelled _ (mem_of_lookup h)

theorem intText_ne_nil (n : ℤ) : intText n ≠ [] := by
  unfold intText
  split
  · exact List.cons_ne_nil _ _
  · exact digitsOf_ne_nil _

theorem strOf_ne_nil (h : value.truthy = true) : strOf reprText value ≠ [] := by
  cases value with
  | str text =>
    rintro rfl
    cases h
  | null => cases h
  | bool b => cases b <;> exact List.cons_ne_nil _ _
  | int n => exact intText_ne_nil n
  | float number => exact repr_float_ne_nil reprText number
  | arr items => exact List.cons_ne_nil _ _
  | obj members => exact List.cons_ne_nil _ _

end

end VidbyteSdk.Lib.Json

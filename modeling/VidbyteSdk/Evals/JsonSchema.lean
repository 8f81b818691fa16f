import VidbyteSdk.Lib.Checks
import VidbyteSdk.Lib.Dicts

/-!
# The schema grader

`JSONSchemaGrader` follows the keywords `type`, `required`, `properties` and `items`, the last three only behind a type
that asks for them. The places that it reaches are compared with what JSON Schema says of the same schema and value.
-/

namespace VidbyteSdk.Evals

open VidbyteSdk.Lib
open Json (lit FloatLiteral)
open Relation (ReflTransGen)

/-- A type's name: those of JSON Schema, the grader's other word for a number, and any other text. -/
inductive TypeName
  | null
  | boolean
  | object
  | array
  | number
  | string
  | integer
  | numeric
  | unknown (name : Text)
  deriving DecidableEq

/-- `schema.get("type")` -/
inductive SchemaType
  | absent
  | one (name : TypeName)
  | many (names : List TypeName)

/-- A schema of the keywords that the grader reads. An absent `required` or `properties` reads as an empty one. -/
inductive Schema
  | node (type : SchemaType) (required : List Text) (properties : List (Text × Schema)) (items : Option Schema)

def SchemaType.names : SchemaType → List TypeName
  | .absent => []
  | .one name => [name]
  | .many names => names

def Schema.type : Schema → SchemaType
  | .node type _ _ _ => type

def Schema.required : Schema → List Text
  | .node _ required _ _ => required

/-! ### The grader -/

namespace JSONSchemaGrader

/-- `type(data).__name__` -/
def typeName : Json → Text
  | .null => lit "NoneType"
  | .bool _ => lit "bool"
  | .int _ => lit "int"
  | .float _ => lit "float"
  | .str _ => lit "str"
  | .arr _ => lit "list"
  | .obj _ => lit "dict"

def spelled : TypeName → Text
  | .null => lit "null"
  | .boolean => lit "boolean"
  | .object => lit "object"
  | .array => lit "array"
  | .number => lit "number"
  | .string => lit "string"
  | .integer => lit "integer"
  | .numeric => lit "numeric"
  | .unknown name => name

def expected (name : TypeName) : Text := if name = .numeric then spelled .number else spelled name

/-- The instance test of each type. A text that is no type, the empty one included, asks for nothing. -/
def accepts : TypeName → Json → Bool
  | .null, .null => true
  | .boolean, .bool _ => true
  | .object, .obj _ => true
  | .array, .arr _ => true
  | .number, .int _ => true
  | .number, .float _ => true
  | .numeric, .int _ => true
  | .numeric, .float _ => true
  | .string, .str _ => true
  | .integer, .int _ => true
  | .unknown _, _ => true
  | _, _ => false

def checkRequired (required : List Text) (data : Json) : Except Text Unit :=
  required.forM fun key =>
    if data.has key then .ok () else .error (lit "Missing required property '" ++ key ++ lit "'")

/-- `_validate_node` for one type name, with what the properties and the items of the node come to. -/
def validateAs (required : List Text) (properties items : Except Text Unit) (data : Json) (name : TypeName) :
    Except Text Unit :=
  if accepts name data then
    match name with
    | .object => checkRequired required data >>= fun _ => properties
    | .array => items
    | _ => .ok ()
  else .error (lit "Expected " ++ expected name ++ lit ", got " ++ typeName data)

/-- A list of type names: one of them suffices, and a failure inside the value is told before one of its type. -/
def validateUnion (names : List TypeName) (single : TypeName → Except Text Unit) (data : Json) : Except Text Unit :=
  let results := names.map single
  if results.any Except.isOk then .ok ()
  else
    let errors := results.filterMap fun result => match result with | .ok _ => none | .error err => some err
    match errors.find? fun err => !(lit "Expected ").isPrefixOf err with
    | some err => .error err
    | none =>
      .error (lit "Expected one of " ++ (lit ", ").intercalate (names.map spelled) ++ lit ", got " ++ typeName data)

/-- The items of an array, from the one at `index` on. -/
def checkItems (validate : Json → Except Text Unit) : ℕ → List Json → Except Text Unit
  | _, [] => .ok ()
  | index, item :: rest =>
    match validate item with
    | .ok _ => checkItems validate (index + 1) rest
    | .error err => .error (lit "At index " ++ Json.digitsOf index ++ lit ": " ++ err)

mutual

/-- `_validate_node` -/
def validateNode : Schema → Json → Except Text Unit
  | .node type required properties items, data =>
    let single := validateAs required (validateProperties properties data) (validateItems items data) data
    match type with
    | .absent => .ok ()
    | .one name => single name
    | .many [] => .ok ()
    | .many names => validateUnion names single data

def validateProperties : List (Text × Schema) → Json → Except Text Unit
  | [], _ => .ok ()
  | (key, schema) :: rest, data =>
    match data.get? key with
    | none => validateProperties rest data
    | some value =>
      match validateNode schema value with
      | .ok _ => validateProperties rest data
      | .error err => .error (lit "In property '" ++ key ++ lit "': " ++ err)

def validateItems : Option Schema → Json → Except Text Unit
  | none, _ => .ok ()
  | some schema, data => checkItems (validateNode schema) 0 (data.items?.getD [])

end

structure GraderResult where
  score : ℕ
  passed : Bool
  reason : Text

/-- `agrade` on a parsed output. -/
def gradeParsed (schema : Schema) (parsed : Json) : GraderResult :=
  match validateNode schema parsed with
  | .ok _ => ⟨1, true, lit "Valid JSON conforming to schema."⟩
  | .error err => ⟨0, false, lit "JSON mismatch: " ++ err⟩

/-- `agrade`; `decodeError` is the text of the error that `json.loads` raises. -/
def agrade (decodeError : Text → Text) (schema : Schema) (actual : Text) : GraderResult :=
  match Json.loads actual with
  | none => ⟨0, false, lit "Output is not valid JSON: " ++ decodeError actual⟩
  | some parsed => gradeParsed schema parsed

end JSONSchemaGrader

/-! ### JSON Schema -/

/-- A number without a fraction: the digits behind the point that the exponent does not reach are zeros. -/
def wholeNumber (number : FloatLiteral) : Bool :=
  let mantissa := (Json.unsigned number.text).takeWhile fun c => c ≠ 0x65 && c ≠ 0x45
  let exponent := Json.intOf (((number.text.dropWhile fun c => c ≠ 0x65 && c ≠ 0x45).drop 1).dropWhile (· = 0x2B))
  let places := mantissa.length - 1 - (mantissa.takeWhile (· ≠ 0x2E)).length
  mantissa.all (fun c => c.isDigit || c = 0x2E) &&
    Json.ofDigits (mantissa.filter CodePoint.isDigit) % 10 ^ (places - exponent).toNat = 0

/-- What JSON Schema says of a type and a value. -/
def TypeName.Describes (name : TypeName) : Json → Prop
  | .null => name = .null
  | .bool _ => name = .boolean
  | .int _ => name = .integer ∨ name = .number ∨ name = .numeric
  | .float literal => name = .number ∨ name = .numeric ∨ name = .integer ∧ wholeNumber literal
  | .str _ => name = .string
  | .arr _ => name = .array
  | .obj _ => name = .object

/-- An absent type admits every value, and a list of names what one of them describes. -/
def SchemaType.Admits (type : SchemaType) (data : Json) : Prop :=
  match type with
  | .absent => True
  | type => ∃ name ∈ type.names, name.Describes data

/-- `required` binds objects. -/
def HasRequired (required : List Text) (data : Json) : Prop :=
  data.isMapping = true → ∀ key ∈ required, data.has key = true

mutual

/-- Validity under JSON Schema: every keyword binds the values that it is about, with or without a type. -/
def Valid : Schema → Json → Prop
  | .node type required properties items, data =>
    (type.Admits data ∧ HasRequired required data) ∧ ValidProperties properties data ∧ ValidItems items data

def ValidProperties : List (Text × Schema) → Json → Prop
  | [], _ => True
  | (key, schema) :: rest, data =>
    (∀ value, data.get? key = some value → Valid schema value) ∧ ValidProperties rest data

def ValidItems : Option Schema → Json → Prop
  | none, _ => True
  | some schema, data => ∀ item ∈ data.items?.getD [], Valid schema item

end

/-! ### The places that the grader compares -/

/-- The type is one that the grader tests values for. -/
def SchemaType.Checks (type : SchemaType) : Prop := type.names ≠ [] ∧ ∀ name, TypeName.unknown name ∉ type.names

/-- One step of `_validate_node` into the value: behind a type that it checks. -/
inductive Child : Schema × Json → Schema × Json → Prop
  | property {type : SchemaType} {required : List Text} {properties : List (Text × Schema)} {items : Option Schema}
      {data : Json} {key : Text} {schema : Schema} {value : Json} (hchecks : type.Checks)
      (hmem : (key, schema) ∈ properties) (hvalue : data.get? key = some value) :
      Child (.node type required properties items, data) (schema, value)
  | item {type : SchemaType} {required : List Text} {properties : List (Text × Schema)} {data : Json}
      {schema : Schema} {value : Json} (hchecks : type.Checks) (hmem : value ∈ data.items?.getD []) :
      Child (.node type required properties (some schema), data) (schema, value)

theorem Child.sizeOf_lt {place next : Schema × Json} (h : Child place next) : sizeOf next.1 < sizeOf place.1 := by
  cases h with
  | property _ hmem _ =>
    have hrow := List.sizeOf_lt_of_mem hmem
    simp only [Schema.node.sizeOf_spec, Prod.mk.sizeOf_spec] at hrow ⊢
    omega
  | item _ _ =>
    simp only [Schema.node.sizeOf_spec, Option.some.sizeOf_spec]
    omega

theorem iff_forall_reached {P L : Schema × Json → Prop}
    (h : ∀ place, P place ↔ L place ∧ ∀ next, Child place next → P next) (place : Schema × Json) :
    P place ↔ ∀ reached, ReflTransGen Child place reached → L reached := by
  constructor
  · intro hplace reached hreached
    have hall : P reached := by
      induction hreached with
      | refl => exact hplace
      | tail _ hstep ih => exact ((h _).mp ih).2 _ hstep
    exact ((h reached).mp hall).1
  · intro hall
    induction hn : sizeOf place.1 using Nat.strong_induction_on generalizing place with
    | _ n ih =>
      refine (h place).mpr ⟨hall place .refl, fun next hstep => ?_⟩
      exact ih _ (hn ▸ hstep.sizeOf_lt) next (fun reached hreached => hall reached (.head hstep hreached)) rfl

/-! ### What each of the two asks for at a place -/

namespace JSONSchemaGrader

theorem isOk_iff {result : Except Text Unit} : result.isOk = true ↔ result = .ok () := by
  cases result with
  | ok _ => exact iff_of_true rfl rfl
  | error err => exact iff_of_false nofun nofun

variable {data : Json}

theorem checkRequired_eq_ok {required : List Text} :
    checkRequired required data = .ok () ↔ ∀ key ∈ required, data.has key = true := by
  refine forM_eq_ok_iff.trans (forall₂_congr fun key _ => ?_)
  cases data.has key with
  | true => exact iff_of_true rfl rfl
  | false => exact iff_of_false nofun nofun

theorem checkItems_eq_ok {validate : Json → Except Text Unit} {items : List Json} {index : ℕ} :
    checkItems validate index items = .ok () ↔ ∀ item ∈ items, validate item = .ok () := by
  induction items generalizing index with
  | nil => exact iff_of_true rfl nofun
  | cons item rest ih =>
    rw [checkItems, List.forall_mem_cons]
    cases validate item with
    | ok _ => exact ih.trans (iff_and_self.mpr fun _ => rfl)
    | error err => exact iff_of_false nofun nofun

theorem validateProperties_eq_ok {properties : List (Text × Schema)} :
    validateProperties properties data = .ok () ↔
      ∀ row ∈ properties, ∀ value, data.get? row.1 = some value → validateNode row.2 value = .ok () := by
  induction properties with
  | nil => exact iff_of_true rfl nofun
  | cons row rest ih =>
    obtain ⟨key, schema⟩ := row
    rw [validateProperties, List.forall_mem_cons, ← ih]
    cases data.get? key with
    | none => exact iff_and_self.mpr fun _ => nofun
    | some value =>
      simp only [Option.some.injEq, forall_eq']
      cases validateNode schema value with
      | ok _ => exact iff_and_self.mpr fun _ => rfl
      | error err => exact iff_of_false nofun nofun

theorem validateAs_eq_ok {required : List Text} {properties items : Except Text Unit} {name : TypeName}
    (hproperties : data.isMapping = false → properties = .ok ()) (hitems : data.items? = none → items = .ok ())
    (hname : ∀ text, name ≠ .unknown text) :
    validateAs required properties items data name = .ok () ↔
      accepts name data = true ∧ HasRequired required data ∧ properties = .ok () ∧ items = .ok () := by
  unfold validateAs
  by_cases ha : accepts name data = true
  · rw [if_pos ha, and_iff_right ha]
    cases data with
    | obj members =>
      cases name with
      | object => exact andThen_eq_ok.trans (and_congr
          (checkRequired_eq_ok.trans ⟨fun h _ => h, fun h => h rfl⟩) (and_iff_left (hitems rfl)).symm)
      | unknown text => exact absurd rfl (hname text)
      | _ => cases ha
    | arr elements =>
      have hrest : items = .ok () ↔ HasRequired required (.arr elements) ∧ properties = .ok () ∧ items = .ok () :=
        ⟨fun h => ⟨nofun, hproperties rfl, h⟩, fun h => h.2.2⟩
      cases name with
      | array => exact hrest
      | unknown text => exact absurd rfl (hname text)
      | _ => cases ha
    | _ =>
      refine iff_of_true ?_ ⟨nofun, hproperties rfl, hitems rfl⟩
      cases name with
      | object => cases ha
      | array => cases ha
      | _ => rfl
  · rw [if_neg ha]
    exact iff_of_false nofun fun h => ha h.1

theorem validateUnion_eq_ok {names : List TypeName} {single : TypeName → Except Text Unit} :
    validateUnion names single data = .ok () ↔ ∃ name ∈ names, single name = .ok () := by
  unfold validateUnion
  have hany : (names.map single).any Except.isOk = true ↔ ∃ name ∈ names, single name = .ok () := by
    simp only [List.any_map, List.any_eq_true, Function.comp_apply, isOk_iff]
  dsimp only
  split
  · next h => exact iff_of_true rfl (hany.mp h)
  · next h =>
    refine iff_of_false ?_ fun hex => h (hany.mpr hex)
    split <;> exact nofun

theorem validateProperties_of_not_isMapping (properties : List (Text × Schema))
    (h : data.isMapping = false) : validateProperties properties data = .ok () := by
  refine validateProperties_eq_ok.mpr fun row _ value hvalue => ?_
  cases data with
  | obj members => cases h
  | _ => cases hvalue

theorem validateItems_eq_ok {items : Option Schema} :
    validateItems items data = .ok () ↔
      ∀ schema ∈ items, ∀ item ∈ data.items?.getD [], validateNode schema item = .ok () := by
  cases items with
  | none => exact iff_of_true rfl nofun
  | some schema => exact checkItems_eq_ok.trans ⟨fun h _ hs => Option.some.inj hs ▸ h, fun h => h schema rfl⟩

end JSONSchemaGrader

open JSONSchemaGrader

section

variable {type : SchemaType} {required : List Text} {properties : List (Text × Schema)} {items : Option Schema}
  {data : Json}

theorem forall_child_iff (Q : Schema × Json → Prop) (hchecks : type.Checks) :
    (∀ next, Child (.node type required properties items, data) next → Q next) ↔
      (∀ row ∈ properties, ∀ value, data.get? row.1 = some value → Q (row.2, value)) ∧
        ∀ schema ∈ items, ∀ item ∈ data.items?.getD [], Q (schema, item) := by
  constructor
  · refine fun h => ⟨fun row hrow value hvalue => h _ (.property hchecks hrow hvalue), ?_⟩
    intro schema hschema item hitem
    rw [Option.mem_def] at hschema
    subst hschema
    exact h _ (.item hchecks hitem)
  · rintro ⟨hproperties, hitems⟩ next hnext
    cases hnext with
    | property _ hmem hvalue => exact hproperties _ hmem _ hvalue
    | item _ hmem => exact hitems _ rfl _ hmem

theorem validProperties_iff :
    ValidProperties properties data ↔
      ∀ row ∈ properties, ∀ value, data.get? row.1 = some value → Valid row.2 value := by
  induction properties with
  | nil => exact iff_of_true trivial nofun
  | cons row rest ih => rw [ValidProperties, List.forall_mem_cons, ih]

theorem validItems_iff :
    ValidItems items data ↔ ∀ schema ∈ items, ∀ item ∈ data.items?.getD [], Valid schema item := by
  cases items with
  | none => exact iff_of_true trivial nofun
  | some schema => exact ⟨fun h _ hs => Option.some.inj hs ▸ h, fun h => h schema rfl⟩

theorem validateNode_node : validateNode (.node type required properties items) data = .ok () ↔ type.names = [] ∨
    ∃ name ∈ type.names, validateAs required (validateProperties properties data) (validateItems items data) data name =
      .ok () := by
  unfold validateNode
  match type with
  | .absent => exact iff_of_true rfl (.inl rfl)
  | .one name =>
    exact ⟨fun h => .inr ⟨name, List.mem_singleton_self name, h⟩, fun h => by
      obtain ⟨_, hmem, h⟩ := h.resolve_left (List.cons_ne_nil _ _)
      exact List.mem_singleton.mp hmem ▸ h⟩
  | .many [] => exact iff_of_true rfl (.inl rfl)
  | .many (name :: names) => exact validateUnion_eq_ok.trans (or_iff_right (List.cons_ne_nil _ _)).symm

theorem exists_unknown (h : ¬ type.Checks) (hnames : type.names ≠ []) : ∃ text, .unknown text ∈ type.names := by
  by_contra hno
  exact h ⟨hnames, fun text hmem => hno ⟨text, hmem⟩⟩

end

/-- What the grader asks for at a place that it compares. -/
def Passes (place : Schema × Json) : Prop :=
  place.1.type.Checks →
    (∃ name ∈ place.1.type.names, accepts name place.2 = true) ∧ HasRequired place.1.required place.2

/-- What JSON Schema asks for there; of a schema that the grader does not follow, all of it. -/
def Conforms (place : Schema × Json) : Prop :=
  (place.1.type.Checks → place.1.type.Admits place.2 ∧ HasRequired place.1.required place.2) ∧
    (¬ place.1.type.Checks → Valid place.1 place.2)

theorem not_child {place next : Schema × Json} (h : ¬ place.1.type.Checks) : ¬ Child place next := by
  intro hnext
  cases hnext with
  | property hchecks _ _ => exact h hchecks
  | item hchecks _ => exact h hchecks

theorem validateNode_step (place : Schema × Json) : validateNode place.1 place.2 = .ok () ↔
    Passes place ∧ ∀ next, Child place next → validateNode next.1 next.2 = .ok () := by
  obtain ⟨⟨type, required, properties, items⟩, data⟩ := place
  rw [validateNode_node]
  by_cases hchecks : type.Checks
  · have hitems : data.items? = none → validateItems items data = .ok () := fun h =>
      validateItems_eq_ok.mpr fun _ _ => by rw [h]; exact nofun
    have hsingle : ∀ name ∈ type.names, validateAs required (validateProperties properties data)
        (validateItems items data) data name = .ok () ↔ accepts name data = true ∧ HasRequired required data ∧
          validateProperties properties data = .ok () ∧ validateItems items data = .ok () := fun name hname =>
      validateAs_eq_ok (validateProperties_of_not_isMapping properties) hitems fun text htext =>
        hchecks.2 text (htext ▸ hname)
    rw [or_iff_right hchecks.1, forall_child_iff (fun next => validateNode next.1 next.2 = .ok ()) hchecks,
      ← validateProperties_eq_ok, ← validateItems_eq_ok, exists_congr fun name => and_congr_right (hsingle name)]
    exact ⟨fun ⟨name, hname, haccepts, hrequired, hrest⟩ => ⟨fun _ => ⟨⟨name, hname, haccepts⟩, hrequired⟩, hrest⟩,
      fun ⟨hpasses, hrest⟩ => by
        obtain ⟨⟨name, hname, haccepts⟩, hrequired⟩ := hpasses hchecks
        exact ⟨name, hname, haccepts, hrequired, hrest⟩⟩
  · refine iff_of_true ?_ ⟨fun h => absurd h hchecks, fun next hnext => absurd hnext (not_child hchecks)⟩
    by_cases hnames : type.names = []
    · exact .inl hnames
    · obtain ⟨text, hmem⟩ := exists_unknown hchecks hnames
      exact .inr ⟨_, hmem, rfl⟩

theorem valid_step (place : Schema × Json) : Valid place.1 place.2 ↔
    Conforms place ∧ ∀ next, Child place next → Valid next.1 next.2 := by
  by_cases hchecks : place.1.type.Checks
  · obtain ⟨⟨type, required, properties, items⟩, data⟩ := place
    replace hchecks : type.Checks := hchecks
    rw [forall_child_iff (fun next => Valid next.1 next.2) hchecks, ← validProperties_iff, ← validItems_iff, Valid]
    exact and_congr_left' ⟨fun h => ⟨fun _ => h, fun hno => absurd hchecks hno⟩, fun h => h.1 hchecks⟩
  · exact ⟨fun h => ⟨⟨fun hyes => absurd hyes hchecks, fun _ => h⟩, fun next hnext => absurd hnext (not_child hchecks)⟩,
      fun h => h.1.2 hchecks⟩

/-! ### Where the two differ -/

/-- A float without a fraction, where the names ask for an integer and for no number. -/
def WholeAmong (names : List TypeName) (data : Json) : Prop :=
  (∃ literal, data = .float literal ∧ wholeNumber literal = true) ∧
    .integer ∈ names ∧ .number ∉ names ∧ .numeric ∉ names

def WholeFloat (place : Schema × Json) : Prop := place.1.type.Checks ∧ WholeAmong place.1.type.names place.2

/-- A value that is not valid under a schema without a type that the grader checks. -/
def Overlooked (place : Schema × Json) : Prop := ¬ place.1.type.Checks ∧ ¬ Valid place.1 place.2

/-- A value of no type that a checked schema names, or without a property that it requires. -/
def Broken (place : Schema × Json) : Prop :=
  place.1.type.Checks ∧ ¬ (place.1.type.Admits place.2 ∧ HasRequired place.1.required place.2)

theorem accepts_iff_describes {name : TypeName} {data : Json} (hname : ∀ text, name ≠ .unknown text)
    (hdata : ∀ literal, data ≠ .float literal) : accepts name data = true ↔ name.Describes data := by
  cases data with
  | float literal => exact absurd rfl (hdata literal)
  | _ => cases name <;> first | exact absurd rfl (hname _) | simp [accepts, TypeName.Describes]

theorem accepts_float_iff {name : TypeName} {literal : FloatLiteral} (hname : ∀ text, name ≠ .unknown text) :
    accepts name (.float literal) = true ↔ name = .number ∨ name = .numeric := by
  cases name <;> first | exact absurd rfl (hname _) | simp [accepts]

theorem accepts_iff {type : SchemaType} (hchecks : type.Checks) (data : Json) :
    (∃ name ∈ type.names, accepts name data = true) ↔ type.Admits data ∧ ¬ WholeAmong type.names data := by
  have hadmits : type.Admits data ↔ ∃ name ∈ type.names, name.Describes data := by
    cases type with
    | absent => exact absurd rfl hchecks.1
    | _ => exact Iff.rfl
  have hknown : ∀ name ∈ type.names, ∀ text, name ≠ .unknown text := fun name hname text htext =>
    hchecks.2 text (htext ▸ hname)
  rw [hadmits]
  by_cases hfloat : ∃ literal, data = .float literal
  · obtain ⟨literal, rfl⟩ := hfloat
    rw [exists_congr fun name => and_congr_right fun hname => accepts_float_iff (hknown name hname)]
    simp only [WholeAmong, TypeName.Describes, and_or_left, exists_or, exists_eq_right, Json.float.injEq,
      exists_eq_left']
    have : (∃ name ∈ type.names, name = .integer ∧ wholeNumber literal = true) ↔
        .integer ∈ type.names ∧ wholeNumber literal = true := by simp
    rw [this]
    tauto
  · have hno : ∀ literal, data ≠ .float literal := fun literal hdata => hfloat ⟨literal, hdata⟩
    rw [exists_congr fun name => and_congr_right fun hname => accepts_iff_describes (hknown name hname) hno]
    exact (and_iff_left fun h => hfloat (h.1.imp fun _ => And.left)).symm

theorem passes_iff (place : Schema × Json) : Passes place ↔ ¬ Broken place ∧ ¬ WholeFloat place := by
  unfold Passes Broken WholeFloat
  by_cases hchecks : place.1.type.Checks
  · rw [accepts_iff hchecks]
    tauto
  · tauto

theorem conforms_iff (place : Schema × Json) : Conforms place ↔ ¬ Broken place ∧ ¬ Overlooked place := by
  unfold Conforms Broken Overlooked
  tauto

/-- Some place that the grader compares is of this kind. -/
def Somewhere (kind : Schema × Json → Prop) (schema : Schema) (data : Json) : Prop :=
  ∃ place, ReflTransGen Child (schema, data) place ∧ kind place

theorem forall_reached_iff {P A B : Schema × Json → Prop} (h : ∀ place, P place ↔ ¬ A place ∧ ¬ B place)
    (schema : Schema) (data : Json) : (∀ place, ReflTransGen Child (schema, data) place → P place) ↔
      ¬ Somewhere A schema data ∧ ¬ Somewhere B schema data := by
  simp only [Somewhere, h, not_exists, not_and]
  exact forall₂_and

/-- The grader agrees with JSON Schema exactly when, of the places that it compares, one breaks what both ask for, or
one is a whole float that only it refuses and one is overlooked by it, or neither kind is there. -/
theorem passed_iff_valid_iff (schema : Schema) (data : Json) :
    ((gradeParsed schema data).passed = true ↔ Valid schema data) ↔ Somewhere Broken schema data ∨
      (Somewhere WholeFloat schema data ↔ Somewhere Overlooked schema data) := by
  have hpassed : (gradeParsed schema data).passed = true ↔ validateNode schema data = .ok () := by
    unfold gradeParsed
    cases validateNode schema data with
    | ok _ => exact iff_of_true rfl rfl
    | error err => exact iff_of_false nofun nofun
  have hpasses := (iff_forall_reached validateNode_step (schema, data)).trans
    (forall_reached_iff passes_iff schema data)
  have hvalid := (iff_forall_reached valid_step (schema, data)).trans (forall_reached_iff conforms_iff schema data)
  rw [hpassed, hpasses, hvalid]
  tauto

/-- An object without a property that a schema without a type requires is passed. -/
theorem passed_without_required :
    ¬ ((gradeParsed (.node .absent [lit "a"] [] none) (.obj [])).passed = true ↔
      Valid (.node .absent [lit "a"] [] none) (.obj [])) := by
  intro h
  obtain ⟨⟨-, hrequired⟩, -⟩ := h.mp rfl
  cases hrequired rfl _ List.mem_cons_self

end VidbyteSdk.Evals
